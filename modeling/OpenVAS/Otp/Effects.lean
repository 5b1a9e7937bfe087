import OpenVAS.Otp.Legality

/-! What a whole message does to a session that is between two messages. -/
namespace Otp

open CString

/-- What the pieces of a message do to a session. -/
def onMessage (env : Env) (o : Session) (m : ServerMessage) : Status :=
  (m.pieces o.scannerInitState).foldl (onPiece env) (o, none)

/-- No part of a message is kept in the variables that hold one. -/
structure Session.Clear (o : Session) : Prop where
  message : o.currentMessage = none
  host : o.currentHost = none
  plugin : o.currentPlugin = none
  preference : o.currentScannerPreference = none

variable {env : Env} {o : Session} {ps : List Piece}

theorem foldl_field (state : ScannerState) {raw : List UInt8} (hState : o.scannerState = state)
    (hPlain : firstReading state = .field ∧ state ≠ .top) :
    (Piece.field raw :: ps).foldl (onPiece env) (o, none) =
      ps.foldl (onPiece env) (settle (onField env o (fieldText raw))) := by
  rw [← hState] at hPlain
  rw [List.foldl_cons, onPiece, fieldText_plain hPlain.1 hPlain.2]

theorem foldl_server (hTop : o.scannerState = .top) :
    (Piece.field (lit "SERVER ") :: ps).foldl (onPiece env) (o, none) =
      ps.foldl (onPiece env) (o.setScannerState .server, none) := by
  have hText : o.fieldText (lit "SERVER ") = lit "SERVER" := by
    rw [Session.fieldText, hTop]
    decide
  have hField : onField env o (lit "SERVER") = .read (o.setScannerState .server) .command := by
    simp only [onField, hTop]
    rfl
  rw [List.foldl_cons, onPiece, hText, hField]
  rfl

/-- The first two fields of a message lead to the case of its command. -/
theorem foldl_command {command : CString} {next : Next} (hTop : o.scannerState = .top)
    (hServer : onServer (o.setScannerState .server)
      (fieldText ((padded command).dropWhile isSpace)) = next) :
    (fieldPieces [command] ++ ps).foldl (onPiece env) (o, none) =
      ps.foldl (onPiece env) (settle next) := by
  have hField : onField env (o.setScannerState .server)
      ((o.setScannerState .server).fieldText (padded command)) = next := by
    rw [← hServer]
    rfl
  rw [fieldPieces, List.cons_append, foldl_server hTop, List.map_cons, List.map_nil,
    List.cons_append, List.nil_append, List.foldl_cons, onPiece, hField]

/-- The end of a message, whether or not an effect hangs on the closing word. -/
theorem foldl_end {front : List UInt8} {completion : Completion} {o' : Session}
    (hPlain : firstReading o.scannerState = .field ∧ o.scannerState ≠ .top)
    (hField : onField env o (fieldText front) = finish o' completion) :
    (endPieces (completion.attached o'.scannerInitState) front).foldl (onPiece env) (o, none) =
      onDone completion (o'.setScannerState .top) := by
  cases hAttached : completion.attached o'.scannerInitState with
  | true =>
      simp only [endPieces, if_true, List.foldl_cons, List.foldl_nil, onPiece,
        fieldText_plain hPlain.1 hPlain.2, hField, finish]
      rfl
  | false =>
      have hDone : completion.attached (o'.setScannerState .top).scannerInitState = false := hAttached
      rw [onDone_of_not_attached hDone]
      simp only [endPieces, Bool.false_eq_true, if_false]
      rw [foldl_field _ rfl hPlain, hField]
      rfl

/-- The result or host detail that a message becomes. -/
def ResultKind.effect (env : Env) (kind : ResultKind) (task report : Nat)
    (host port description oid : CString) : Effect :=
  let port := (env.portNameFormatted port).getD port
  match kind with
  | .errmsg => .makeResult task report host (some port) (some oid) (lit "Error Message") description
  | .alarm => .makeResult task report host (some port) (some oid) (lit "Alarm") description
  | .log =>
      if port = lit "general/Host_Details" then
        .reportHostDetail report host (stripTrailingNewline description)
      else .makeResult task report host (some port) (some oid) (lit "Log Message") description

theorem append_ok (kind : ResultKind) (hReport : o.currentReport ≠ 0)
    (host port description oid : CString) :
    kind.append ⟨host, some ((env.portNameFormatted port).getD port), some description, some oid⟩ o =
      .ok (o.addEffect
        (kind.effect env o.currentScannerTask o.currentReport host port description oid)) := by
  cases kind with
  | errmsg => simp [ResultKind.append, appendErrorMessage, writeMessage, ResultKind.effect, hReport]
  | alarm => simp [ResultKind.append, appendAlarmMessage, writeMessage, ResultKind.effect, hReport]
  | log =>
      simp only [ResultKind.append, appendLogMessage, if_neg hReport, Option.some.injEq,
        ResultKind.effect]
      split
      · rfl
      · simp [writeMessage, hReport]

/-- With a current task and report, the fields of a message become its result,
and nothing of it is kept. -/
theorem onMessage_result (kind : ResultKind) (host port description oid : CString)
    (hTop : o.scannerState = .top) (hMessage : o.currentMessage = none)
    (hTask : o.currentScannerTask ≠ 0) (hReport : o.currentReport ≠ 0) :
    onMessage env o (.result kind host port description oid) =
      (o.addEffect (kind.effect env o.currentScannerTask o.currentReport
        (fieldText (padded host)) (fieldText (padded port)) (fieldText (padded description))
        (fieldText (padded oid))), none) := by
  have hPieces : (ServerMessage.result kind host port description oid).pieces o.scannerInitState =
      fieldPieces [kind.command] ++ [.field (padded host), .field (padded port),
        .field (padded description), .field (padded oid), .closing] := rfl
  have hPlain : ∀ state ∈ [kind.states.1, kind.states.2.1, kind.states.2.2.1, kind.states.2.2.2],
      firstReading state = .field ∧ state ≠ .top := by
    cases kind <;> decide
  simp only [List.forall_mem_cons, List.not_mem_nil, false_implies, implies_true, and_true] at hPlain
  obtain ⟨hHost, hNumber, hDescription, hOid⟩ := hPlain
  rw [onMessage, hPieces, foldl_command hTop (onServer_result kind _)]
  simp only [settle, proceed]
  rw [foldl_field _ rfl hHost, onField_resultHost _ kind rfl]
  simp only [onMessageHost, asserting, Session.setScannerState, hMessage, Option.isNone_none, if_true,
    proceed, settle]
  rw [foldl_field _ rfl hNumber, onField_resultNumber _ kind rfl]
  simp only [onMessageNumber, makeMessage, proceed, settle, Session.setScannerState]
  rw [foldl_field _ rfl hDescription, onField_resultDescription _ kind rfl]
  simp only [onMessageDescription, Option.map_some, proceed, settle, Session.setScannerState]
  rw [foldl_field _ rfl hOid, onField_resultOid _ kind rfl]
  simp only [onMessageOid, if_neg hTask]
  rw [append_ok kind]
  · obtain ⟨state, init, message⟩ := o
    simp only at hTop hMessage
    subst hTop hMessage
    rfl
  · exact hReport

end Otp
