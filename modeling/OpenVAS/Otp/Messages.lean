import OpenVAS.Otp.Streams

/-! The messages of the scanner as it prints them, cut into the pieces that the
parser reads, and what the parser does with each piece. -/
namespace Otp

open CString Incremental

/-- The messages that become a result. -/
inductive ResultKind where
  | errmsg | alarm | log
  deriving DecidableEq, Repr

inductive HostTime where
  | start | finish
  deriving DecidableEq, Repr

/-- One line of a plugin list. -/
structure PluginLine where
  oid : CString
  /-- Name, category, copyright, summary, family, version, CVEs, BIDs and cross references. -/
  name : CString
  category : CString
  copyright : CString
  summary : CString
  family : CString
  version : CString
  cve : CString
  bid : CString
  xrefs : CString
  tags : CString
  deriving DecidableEq, Repr

inductive ServerMessage where
  | result (kind : ResultKind) (host port description oid : CString)
  | status (host state progress : CString)
  | hostTime (kind : HostTime) (host time : CString)
  | scanStart (time : CString)
  | scanEnd (time : CString)
  | nvtInfo (version : CString)
  | pluginList (plugins : List PluginLine)
  | preferences (entries : List (CString × CString))
  | fileAccepted
  | bye
  deriving DecidableEq, Repr

def ResultKind.command : ResultKind → CString
  | .errmsg => lit "ERRMSG"
  | .alarm => lit "ALARM"
  | .log => lit "LOG"

def HostTime.command : HostTime → CString
  | .start => lit "HOST_START"
  | .finish => lit "HOST_END"

/-- A command and its fields, each behind a separator. -/
def printed (fields : List CString) : List UInt8 :=
  lit "SERVER <|> " ++ fields.flatMap (· ++ lit " <|> ") ++ lit "SERVER\n"

/-- The fields of a line of a plugin list behind the first. -/
def PluginLine.fields (p : PluginLine) : List CString :=
  [p.name, p.category, p.copyright, p.summary, p.family, p.version, p.cve, p.bid, p.xrefs]

def PluginLine.text (p : PluginLine) : List UInt8 :=
  p.oid ++ lit " <|> " ++ p.fields.flatMap (· ++ lit " <|> ") ++ p.tags ++ lit "\n"

/-- A message as the scanner prints it. -/
def ServerMessage.text : ServerMessage → List UInt8
  | .result kind host port description oid =>
      printed [kind.command, host, port, description, oid]
  | .status host state progress => printed [lit "STATUS", host, state, progress]
  | .hostTime kind host time => printed [lit "TIME", kind.command, host, time]
  | .scanStart time => printed [lit "TIME", lit "SCAN_START", time]
  | .scanEnd time => printed [lit "TIME", lit "SCAN_END", time]
  | .nvtInfo version => printed [lit "NVT_INFO", version]
  | .fileAccepted => printed [lit "FILE_ACCEPTED"]
  | .bye => printed [lit "BYE", lit "BYE"]
  | .pluginList plugins =>
      lit "SERVER <|> PLUGIN_LIST <|>\n" ++ plugins.flatMap PluginLine.text ++ lit "<|> SERVER\n"
  | .preferences entries =>
      lit "SERVER <|> PREFERENCES <|>\n" ++
        entries.flatMap (fun (name, value) => name ++ lit " <|> " ++ value ++ lit "\n") ++
        lit "<|> SERVER\n"

/-- A field holds no separator. -/
def WellFormedField (text : CString) : Prop := findSeparator [] text = none

/-- The name that starts a line of a list is not blank. -/
def WellFormedName (text : CString) : Prop :=
  WellFormedField text ∧ ∃ c ∈ (text.dropWhile isBlank).head?, c ≠ 0

/-- What ends a line of a list holds no newline. -/
def WellFormedValue (text : CString) : Prop := WellFormedField text ∧ ch '\n' ∉ text

def PluginLine.WellFormed (p : PluginLine) : Prop :=
  WellFormedName p.oid ∧ (∀ field ∈ p.fields, WellFormedField field) ∧ WellFormedValue p.tags

def ServerMessage.WellFormed : ServerMessage → Prop
  | .result _ host port description oid => WellFormedField host ∧ WellFormedField port ∧
      WellFormedField description ∧ WellFormedField oid
  | .status host state progress =>
      WellFormedField host ∧ WellFormedField state ∧ WellFormedField progress
  | .hostTime _ host time => WellFormedField host ∧ WellFormedField time
  | .scanStart time | .scanEnd time => WellFormedField time
  | .nvtInfo version => WellFormedField version
  | .pluginList plugins => ∀ p ∈ plugins, p.WellFormed
  | .preferences entries =>
      ∀ entry ∈ entries, WellFormedName entry.1 ∧ WellFormedValue entry.2
  | .fileAccepted | .bye => True

/-- What the parser reads at once. The last field of a message takes the
closing `SERVER` with it where an effect hangs on finding both. -/
inductive Piece where
  | field (raw : List UInt8)
  | line (text : List UInt8)
  | closing
  | last (raw : List UInt8)
  /-- The newline between two messages. -/
  | gap
  deriving DecidableEq, Repr

def Piece.bytes : Piece → List UInt8
  | .field raw => raw ++ lit "<|>"
  | .line text => text ++ lit "\n"
  | .closing => lit " SERVER"
  | .last raw => raw ++ lit "<|> SERVER"
  | .gap => lit "\n"

def padded (text : CString) : List UInt8 := lit " " ++ text ++ lit " "

/-- The fields of a message without the closing word. -/
def fieldPieces (fields : List CString) : List Piece :=
  .field (lit "SERVER ") :: fields.map fun field => .field (padded field)

/-- The end of a list, whose effect may hang on the closing word. -/
def endPieces (attached : Bool) (front : List UInt8) : List Piece :=
  if attached then [.last front] else [.field front, .closing]

def pluginPieces (attached : Bool) : List UInt8 → List PluginLine → List Piece
  | front, [] => endPieces attached front
  | front, p :: ps =>
      .field (front ++ p.oid ++ lit " ") :: (p.fields.map fun field => .field (padded field)) ++
        .line (lit " " ++ p.tags) :: pluginPieces attached [] ps

def preferencePieces (attached : Bool) : List UInt8 → List (CString × CString) → List Piece
  | front, [] => endPieces attached front
  | front, (name, value) :: entries =>
      .field (front ++ name ++ lit " ") :: .line (lit " " ++ value) ::
        preferencePieces attached [] entries

/-- The pieces of a message that arrives in a state of the initialisation. -/
def ServerMessage.pieces (init : InitState) : ServerMessage → List Piece
  | .result kind host port description oid =>
      fieldPieces [kind.command, host, port, description, oid] ++ [.closing]
  | .status host state progress => fieldPieces [lit "STATUS", host, state, progress] ++ [.closing]
  | .hostTime kind host time => fieldPieces [lit "TIME", kind.command, host, time] ++ [.closing]
  | .scanStart time => fieldPieces [lit "TIME", lit "SCAN_START", time] ++ [.closing]
  | .scanEnd time => fieldPieces [lit "TIME", lit "SCAN_END", time] ++ [.closing]
  | .fileAccepted => fieldPieces [lit "FILE_ACCEPTED"] ++ [.closing]
  | .nvtInfo version => fieldPieces [lit "NVT_INFO"] ++ [.last (padded version)]
  | .bye => fieldPieces [lit "BYE"] ++ [.last (padded (lit "BYE"))]
  | .pluginList plugins =>
      fieldPieces [lit "PLUGIN_LIST"] ++
        pluginPieces (Completion.attached init .pluginList) (lit "\n") plugins
  | .preferences entries =>
      fieldPieces [lit "PREFERENCES"] ++
        preferencePieces (Completion.attached init .preferences) (lit "\n") entries

/-- The state of the initialisation after the closing word. -/
def Completion.initAfter (init : InitState) : Completion → InitState
  | .nvtInfo => if init = .done then .gotFeedVersion else init
  | .pluginList =>
      if init = .sentCompleteList ∨ init = .sentCompleteListUpdate then .gotPlugins else init
  | .preferences => if init = .doneCacheMode ∨ init = .doneCacheModeUpdate then .done else init
  | .nothing | .bye => init

/-- The state of the initialisation after a message. -/
def ServerMessage.initAfter (init : InitState) : ServerMessage → InitState
  | .nvtInfo _ => Completion.initAfter init .nvtInfo
  | .pluginList _ => Completion.initAfter init .pluginList
  | .preferences _ => Completion.initAfter init .preferences
  | _ => init

/-- The pieces of a stream of messages. -/
def streamPieces : InitState → List ServerMessage → List Piece
  | _, [] => []
  | init, m :: ms => m.pieces init ++ .gap :: streamPieces (m.initAfter init) ms

def streamText (ms : List ServerMessage) : List UInt8 := ms.flatMap ServerMessage.text

theorem fields_bytes (fields : List CString) (more : List UInt8) :
    (fields.map fun field => Piece.field (padded field)).flatMap Piece.bytes ++ (lit " " ++ more) =
      lit " " ++ (fields.flatMap (· ++ lit " <|> ") ++ more) := by
  induction fields with
  | nil => rfl
  | cons field fields ih =>
      rw [List.map_cons, List.flatMap_cons, List.append_assoc, ih]
      simp [Piece.bytes, padded, lit]

theorem endPieces_bytes (attached : Bool) (front : List UInt8) :
    (endPieces attached front).flatMap Piece.bytes = front ++ lit "<|> SERVER" := by
  cases attached <;> simp [endPieces, Piece.bytes, lit]

theorem pluginPieces_bytes (attached : Bool) (front : List UInt8) (plugins : List PluginLine) :
    (pluginPieces attached front plugins).flatMap Piece.bytes =
      front ++ plugins.flatMap PluginLine.text ++ lit "<|> SERVER" := by
  induction plugins generalizing front with
  | nil => simp [pluginPieces, endPieces_bytes]
  | cons p ps ih =>
      have hFields := fields_bytes p.fields (p.tags ++ lit "\n" ++ (ps.flatMap PluginLine.text ++
        lit "<|> SERVER"))
      simp only [pluginPieces, List.cons_append, List.flatMap_cons, List.flatMap_append, ih,
        Piece.bytes, PluginLine.text, List.append_assoc, List.nil_append] at hFields ⊢
      rw [hFields]
      simp [lit]

theorem preferencePieces_bytes (attached : Bool) (front : List UInt8)
    (entries : List (CString × CString)) :
    (preferencePieces attached front entries).flatMap Piece.bytes =
      front ++ entries.flatMap (fun (name, value) => name ++ lit " <|> " ++ value ++ lit "\n") ++
        lit "<|> SERVER" := by
  induction entries generalizing front with
  | nil => simp [preferencePieces, endPieces_bytes]
  | cons entry entries ih => simp [preferencePieces, ih, Piece.bytes, lit]

theorem printed_bytes (fields : List CString) :
    (fieldPieces fields ++ [Piece.closing]).flatMap Piece.bytes ++ lit "\n" = printed fields := by
  have hFields := fields_bytes fields (lit "SERVER\n")
  simp only [fieldPieces, List.cons_append, List.flatMap_cons, List.flatMap_append, printed,
    List.append_assoc]
  have hClosing : Piece.closing.bytes ++ ([].flatMap Piece.bytes ++ lit "\n") =
      lit " " ++ lit "SERVER\n" := rfl
  rw [hClosing, hFields]
  simp [Piece.bytes, lit]

/-- The pieces of a message are its text. -/
theorem pieces_bytes (init : InitState) (m : ServerMessage) :
    (m.pieces init).flatMap Piece.bytes ++ lit "\n" = m.text := by
  have hLast : ∀ (command text : CString),
      (fieldPieces [command] ++ [Piece.last (padded text)]).flatMap Piece.bytes ++ lit "\n" =
        printed [command, text] := by
    intro command text
    rw [← printed_bytes]
    simp [fieldPieces, Piece.bytes, lit]
  cases m with
  | pluginList plugins =>
      rw [ServerMessage.pieces, List.flatMap_append, pluginPieces_bytes]
      simp [fieldPieces, Piece.bytes, padded, ServerMessage.text, lit]
  | preferences entries =>
      rw [ServerMessage.pieces, List.flatMap_append, preferencePieces_bytes]
      simp [fieldPieces, Piece.bytes, padded, ServerMessage.text, lit]
  | nvtInfo version => exact hLast _ _
  | bye => exact hLast _ _
  | result kind host port description oid => exact printed_bytes _
  | status host state progress => exact printed_bytes _
  | hostTime kind host time => exact printed_bytes _
  | scanStart time => exact printed_bytes _
  | scanEnd time => exact printed_bytes _
  | fileAccepted => exact printed_bytes _

theorem streamPieces_bytes (init : InitState) (ms : List ServerMessage) :
    (streamPieces init ms).flatMap Piece.bytes = streamText ms := by
  induction ms generalizing init with
  | nil => rfl
  | cons m ms ih =>
      have hText : streamText (m :: ms) = m.text ++ streamText ms := List.flatMap_cons
      rw [hText, ← pieces_bytes init m, List.append_assoc, streamPieces, List.flatMap_append,
        List.flatMap_cons, ih]
      rfl

end Otp
