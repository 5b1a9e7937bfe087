import OpenVAS.Lib.Lines
import OpenVAS.KnowledgeBase.Slashes
import OpenVAS.KnowledgeBase.Basic

/-! The saved knowledge base of `save_kb.c`. The file is its bytes, behind which
every write continues; reads, writes and locks do not fail. -/
namespace KnowledgeBase

open CString Lines

/-- The content of the file, NULL for an empty one. -/
def mapFile (file : CString) : Option CString := if file = [] then none else some file

def saveKbEntryPresentAlready (file name value : CString) : Int :=
  match mapFile file with
  | none => -1
  | some buf => if (strstr buf (name ++ ch '=' :: value)).isSome then 1 else 0

/-- The walk back from an occurrence to the start of its line. -/
def lineStart (buf : CString) : Nat → Nat
  | 0 => if buf[0]? = some (ch '\n') then 1 else 0
  | t + 1 => if buf[t + 1]? = some (ch '\n') then t + 2 else lineStart buf t

/-- What is written back: the text without the line that begins at `start`. -/
def cutFrom (buf : CString) (start : Nat) : CString :=
  match strchr (buf.drop start) (ch '\n') with
  | some last => buf.take start ++ buf.drop (start + last + 1)
  | none => buf.take start

/-- The text that `save_kb_rm_entry_value` looks for. -/
def request (name : CString) : Option CString → CString
  | some value => name ++ ch '=' :: value
  | none => name

def saveKbRmEntryValue (file name : CString) (value : Option CString) : CString :=
  match mapFile file with
  | none => file
  | some buf =>
      match strstr buf (request name value) with
      | none => file
      | some t => cutFrom buf (lineStart buf t)

def saveKbRmEntry (file name : CString) : CString := saveKbRmEntryValue file name none

/-- The names that are not written; of `/tmp/` only four bytes are compared. -/
def skippedName (name : CString) : Bool :=
  (lit "/tmp").isPrefixOf name || (lit "NIDS/").isPrefixOf name ||
    (lit "Settings/").isPrefixOf name || (lit "Secret/").isPrefixOf name

/-- The families in which a write replaces the earlier ones. -/
def replacedFamily (name : CString) : Bool :=
  (lit "Success/").isPrefixOf name || (lit "Launched/").isPrefixOf name ||
    (lit "SentData/").isPrefixOf name

/-- A line of the file, without its line feed. -/
def entryLine (now type : Int) (name value : CString) : CString :=
  showInt now ++ ch ' ' :: (showInt type ++ ch ' ' :: (name ++ ch '=' :: value))

/-- `save_kb_write` at the time `now`. -/
def saveKbWrite (file : CString) (now type : Int) (name value : CString) : CString :=
  if skippedName name then file
  else
    let file := if replacedFamily name then saveKbRmEntry file name else file
    let file :=
      if saveKbEntryPresentAlready file name value ≠ 0 then saveKbRmEntryValue file name (some value)
      else file
    file ++ (entryLine now type name value ++ [ch '\n'])

def saveKbWriteStr (file : CString) (now : Int) (name value : CString) : CString :=
  saveKbWrite file now kbTypeStr name (addslashes value)

def saveKbWriteInt (file : CString) (now : Int) (name : CString) (value : Int32) : CString :=
  saveKbWrite file now kbTypeInt name (showInt value.toInt)

/-- The arguments of a call of `save_kb_write`, with its time. -/
structure SaveWrite where
  now : Int
  type : Int
  name : CString
  value : CString
  deriving DecidableEq, Repr

/-- The file after `save_kb_new` and a sequence of calls of `save_kb_write`. -/
def savedFile (writes : List SaveWrite) : CString :=
  writes.foldl (fun file write => saveKbWrite file write.now write.type write.name write.value) []

/-- A call of `save_kb_write_str` or `save_kb_write_int`, with its time. -/
structure SaveCall where
  now : Int
  name : CString
  value : KbValue
  deriving DecidableEq, Repr

def SaveCall.apply (file : CString) (call : SaveCall) : CString :=
  match call.value with
  | .str vStr => saveKbWriteStr file call.now call.name vStr
  | .int vInt => saveKbWriteInt file call.now call.name vInt

/-- The file after `save_kb_new` and a sequence of such calls. -/
def fileAfter (calls : List SaveCall) : CString := calls.foldl SaveCall.apply []

/-- At most `size` bytes of a line, up to its line feed, and what follows. -/
def readLine : Nat → CString → CString × CString
  | 0, stream => ([], stream)
  | _ + 1, [] => ([], [])
  | size + 1, c :: stream =>
      if c = ch '\n' then ([c], stream)
      else
        let (line, rest) := readLine size stream
        (c :: line, rest)

/-- `fgets` into a buffer of `size` bytes; `none` at the end of the file. -/
def fgets (size : Nat) (stream : CString) : Option (CString × CString) :=
  if stream = [] then none else some (readLine (size - 1) stream)

/-- The time, type, name and value of a line. -/
def parseLine (buf : CString) : Option (Int × Int32 × CString × CString) :=
  match strchr buf (ch ' ') with
  | none => none
  | some i =>
      let time := (strtol (buf.take i)).1
      let t := buf.drop (i + 1)
      let type := atoi t
      match strchr t (ch ' ') with
      | none => none
      | some j =>
          let name := t.drop (j + 1)
          match strchr name (ch '=') with
          | none => none
          | some k => some (time, type, name.take k, name.drop (k + 1))

/-- Ten days. -/
def maxAge : Int := 864000

/-- The body of the loop of `save_kb_load_kb`, on what `fgets` left in the buffer;
its last byte is cut off. -/
def loadLine (now : Int) (kb : Kb) (buf : CString) : Kb :=
  match parseLine buf.dropLast with
  | none => kb
  | some (time, type, name, value) =>
      if name ≠ lit "Host/dead" ∧ (lit "/tmp").isPrefixOf name = false ∧
          name ≠ lit "Host/ping_failed" then
        if now - time > maxAge then kb
        else if type.toInt = kbTypeStr then (kbItemAddStr kb name (rmslashes value)).2
        else if type.toInt = kbTypeInt then (kbItemAddInt kb name (atoi value)).2
        else kb
      else kb

/-- What successive calls of `fgets` read. Each takes at least one byte, so as many
calls as there are bytes reach the end. -/
def fgetsAll (size : Nat) : Nat → CString → List CString
  | 0, _ => []
  | fuel + 1, stream =>
      match fgets size stream with
      | none => []
      | some (line, rest) => line :: fgetsAll size fuel rest

/-- `save_kb_load_kb` at the time `now`. The buffer has 4096 bytes, of which `fgets`
is given all but one; the first line is read and dropped. -/
def saveKbLoadKb (file : CString) (now : Int) : Option Kb :=
  match fgets 4095 file with
  | none => none
  | some (_, rest) => some ((fgetsAll 4095 rest.length rest).foldl (loadLine now) kbNew)

end KnowledgeBase
