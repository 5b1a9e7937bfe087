import Mathlib.Logic.Function.Basic
import OpenVAS.Lib.CString

/-! Scan preferences on their way from the manager to the scanner: the lines that
`send_config_preferences` sends, and `ntp_read_prefs`, which reads them. -/
namespace Preferences

open CString

/-! The manager. -/

/-- The value up to its first option, for a radio preference. -/
def preferenceValue (name fullValue : CString) : CString :=
  match strchr name (ch '[') with
  | none => fullValue
  | some bracket =>
      if (lit "[radio]:").isPrefixOf (name.drop bracket) then
        match strchr fullValue (ch ';') with
        | some semicolon => fullValue.take semicolon
        | none => fullValue
      else fullValue

/-- What stands in the first brackets of a name, as `sscanf` finds it. For a name that ends in
front of the bracket or with it the answer of `sscanf` is EOF. -/
def preferenceType (name : CString) : Option CString :=
  let front := name.takeWhile (· ≠ ch '[')
  let type := (name.drop (front.length + 1)).takeWhile (· ≠ ch ']')
  let behind := name.drop (front.length + 1 + type.length + 1)
  if front = [] ∨ front = name ∨ type = [] ∨ behind = [] then none else some type

/-- The comparison of the type with `file`, up to the length of the type. -/
def isFilePreference (name : CString) : Bool :=
  match preferenceType name with
  | some type => type.isPrefixOf (lit "file")
  | none => false

/-- The value that is sent. Where `pref_files` is given, `files` are the files of the task,
and the value of a file preference that is no such file is replaced by a new UUID. -/
def sentValue (files : Option (List CString)) (uuid name fullValue : CString) : CString :=
  let value := preferenceValue name fullValue
  match files with
  | none => value
  | some files => if isFilePreference name ∧ value ≠ [] ∧ value ∉ files then uuid else value

def preferenceLine (name value : CString) : CString := name ++ lit " <|> " ++ value ++ lit "\n"

/-- What `send_config_preferences` sends; `makeUuid` gives the UUIDs of the files. -/
def sendConfigPreferences (files : Option (List CString)) (makeUuid : Nat → CString)
    (prefs : List (CString × CString)) : CString :=
  (prefs.mapIdx fun i pref =>
    if pref.1 = lit "port_range" then []
    else preferenceLine pref.1 (sentValue files (makeUuid i) pref.1 pref.2)).flatten

/-! The scanner. -/

/-- The size of the buffer of `ntp_read_prefs`. -/
@[irreducible] def inputSize : Nat := 1024 * 1024 * 2

/-- Bytes up to a terminator, at most `size` of them, and the rest of the stream. -/
def recvBytes : Nat → List UInt8 → List UInt8 × List UInt8
  | _, [] => ([], [])
  | size, c :: stream =>
      if size = 0 then ([], c :: stream)
      else if c = 0 ∨ c = ch '\n' then ([c], stream)
      else
        let (line, rest) := recvBytes (size - 1) stream
        (c :: line, rest)

/-- The text that `recv_line` leaves in the buffer. -/
def recvLine (size : Nat) (stream : List UInt8) : CString × List UInt8 :=
  let (line, rest) := recvBytes size stream
  if line.getLast? = some 0 then (line.dropLast, rest)
  else if line.length < size then (line, rest)
  else (line.take (size - 1), rest)

def isScannerOnlyPref (pref : CString) : Bool :=
  pref = lit "logfile" || pref = lit "config_file" || pref = lit "plugins_folder" ||
    pref = lit "dumpfile" || pref = lit "negot_timeout" || pref = lit "force_pubkey_auth" ||
    pref = lit "log_while_attack" || pref = lit "ca_file" || pref = lit "key_file" ||
    pref = lit "cert_file" || pref = lit "be_nice" || pref = lit "log_plugins_name_at_load" ||
    pref = lit "nasl_no_signature_check" || (lit "sys_").isPrefixOf pref

abbrev PreferenceTable := CString → Option CString

/-- A value is stored, unless its name is reserved to the scanner. -/
def setPreference (table : PreferenceTable) (pref value : CString) : PreferenceTable :=
  if isScannerOnlyPref pref then table else Function.update table pref (some value)

/-- How `ntp_read_prefs` ends. -/
inductive Reading where
  /-- The table, the names and values that were read, and the rest of the stream. -/
  | finished (table : PreferenceTable) (read : List (CString × CString)) (rest : List UInt8)
  /-- The process exits because it gets no data. -/
  | closed
  /-- An access outside of the text in the buffer. -/
  | outside

/-- A name and a value were read before. -/
def Reading.add (pref value : CString) : Reading → Reading
  | .finished table read rest => .finished table ((pref, value) :: read) rest
  | .closed => .closed
  | .outside => .outside

/-- The loop of `ntp_read_prefs`. The name ends in front of the first `<`, and the value
starts four bytes behind it and loses its last byte. -/
def readPreferences : Nat → PreferenceTable → List UInt8 → Reading
  | 0, _, _ => .closed
  | fuel + 1, table, stream =>
      let (input, rest) := recvLine (inputSize - 1) stream
      if input = [] then .closed
      else if (strstr input (lit "<|> CLIENT")).isSome then .finished table [] rest
      else
        match strchr input (ch '<') with
        | none => readPreferences fuel table rest
        | some 0 => .outside
        | some (v + 1) =>
            if input.length < v + 5 then .outside
            else
              let pref := input.take v
              let value := (input.drop (v + 5)).dropLast
              (readPreferences fuel (setPreference table pref value) rest).add pref value

/-- Every line takes a byte from the stream. -/
def ntpReadPrefs (table : PreferenceTable) (stream : List UInt8) : Reading :=
  readPreferences (stream.length + 1) table stream

end Preferences
