import OpenVAS.Otp.Effects
import OpenVAS.Otp.Chunks

/-! Runs in which the rest of the manager changes the task, the report and the
state of the initialisation between the calls, and each call brings messages.
Messages that need a task and come while one is current never run into the
assertions on the variables that hold a message. -/
namespace Otp

open CString Incremental

/-- The assertions on the variables that hold a message and on the report. -/
def Assertion.onVariable : Assertion → Bool
  | .currentMessage | .currentHost | .currentPlugin | .currentScannerPreference
  | .currentReport => true
  | .quotedString | .unreachable => false

/-- The variables that these assertions are about, and the task. -/
structure Held where
  message : Option Message
  host : Option CString
  plugin : Option Nvti
  preference : Option CString
  task : Nat
  report : Nat
  deriving DecidableEq, Repr

def Session.held (o : Session) : Held :=
  ⟨o.currentMessage, o.currentHost, o.currentPlugin, o.currentScannerPreference,
    o.currentScannerTask, o.currentReport⟩

/-- Results need a task and a report, and host times a task. -/
def ServerMessage.Attended (task report : Nat) : ServerMessage → Prop
  | .result .. => task ≠ 0 ∧ report ≠ 0
  | .hostTime .. => task ≠ 0
  | _ => True

/-- The end of a scan leaves no task behind. -/
def ServerMessage.heldAfter (held : Held) : ServerMessage → Held
  | .scanEnd _ => if held.task = 0 then held else { held with task := 0, report := 0 }
  | _ => held

/-- The closing words at which the call returns. -/
def Completion.returns (init : InitState) : Completion → Bool
  | .bye => true
  | .preferences => init = .doneCacheMode || init = .doneCacheModeUpdate
  | .nothing | .nvtInfo | .pluginList => false

/-- The messages at which the call returns. -/
def ServerMessage.returns (init : InitState) : ServerMessage → Bool
  | .bye => Completion.returns init .bye
  | .preferences _ => Completion.returns init .preferences
  | _ => false

/-- Each message comes while the task and the report that it needs are current. -/
def Attended : InitState → Held → List ServerMessage → Prop
  | _, _, [] => True
  | init, held, m :: ms =>
      m.Attended held.task held.report ∧
        (m.returns init = false → Attended (m.initAfter init) (m.heldAfter held) ms)

/-- A session after a message that has failed no assertion on a variable. -/
structure Calm (held : Held) (init : InitState) (returns : Bool) (status : Status) : Prop where
  held : status.1.held = held
  assertion : ∀ a, status.2 = some (.faulted (.assertion a)) → a.onVariable = false
  next : status.2 = none →
    status.1.scannerState = .top ∧ status.1.scannerInitState = init ∧ returns = false

variable {env : Env} {o : Session}

theorem calm_none {held : Held} {init : InitState} (hHeld : o.held = held)
    (hTop : o.scannerState = .top) (hInit : o.scannerInitState = init) :
    Calm held init false (o, none) where
  held := hHeld
  assertion _ h := by cases h
  next _ := ⟨hTop, hInit, rfl⟩

theorem calm_onDone (completion : Completion) (o : Session) :
    Calm o.held (completion.initAfter o.scannerInitState)
      (completion.returns o.scannerInitState)
      (onDone completion (o.setScannerState .top)) := by
  have hInit := onDone_init completion (o.setScannerState .top)
  have hState := onDone_scannerState completion (o.setScannerState .top)
  refine ⟨?_, ?_, fun hNone => ⟨hState, hInit, ?_⟩⟩
  · cases completion with
    | nothing => rfl
    | bye => rfl
    | nvtInfo =>
        simp only [onDone]
        split <;> rfl
    | preferences =>
        simp only [onDone]
        split <;> rfl
    | pluginList =>
        simp only [onDone]
        split
        · cases (o.setScannerState .top).pluginsFeedVersion <;> rfl
        · rfl
  · intro a h
    cases completion with
    | nothing => cases h
    | bye => cases h
    | nvtInfo =>
        simp only [onDone] at h
        split at h <;> cases h
    | preferences =>
        simp only [onDone] at h
        split at h <;> cases h
    | pluginList =>
        simp only [onDone] at h
        split at h
        · cases hVersion : (o.setScannerState .top).pluginsFeedVersion with
          | none =>
              simp only [hVersion] at h
              cases h
              rfl
          | some version =>
              simp only [hVersion] at h
              cases h
        · cases h
  · cases completion with
    | nothing => rfl
    | nvtInfo => rfl
    | pluginList => rfl
    | bye => cases hNone
    | preferences =>
        simp only [onDone] at hNone
        split at hNone
        · cases hNone
        · rename_i hMode
          simpa [Completion.returns, Session.setScannerState] using hMode

theorem calm_result (kind : ResultKind) (host port description oid : CString)
    (hTop : o.scannerState = .top) (hClear : o.Clear)
    (hAttended : o.currentScannerTask ≠ 0 ∧ o.currentReport ≠ 0) :
    Calm o.held o.scannerInitState false
      (onMessage env o (.result kind host port description oid)) := by
  rw [onMessage_result kind host port description oid hTop hClear.message hAttended.1 hAttended.2]
  exact calm_none rfl hTop rfl

/-- A host is kept until the end of its message. -/
theorem settle_onHost (next : ScannerState) (hHost : o.currentHost = none) (field : CString) :
    settle (onHost next o field) =
      ({ o with currentHost := some field }.setScannerState next, none) := by
  simp only [onHost, asserting, hHost, Option.isNone_none, if_true, proceed, settle]

/-- The state of an attack is recorded without a change of the variables. -/
theorem onStatusAttackState_held {host : CString} (hHost : o.currentHost = some host)
    (field : CString) :
    ∃ o' : Session, o'.held = o.held ∧ o'.scannerInitState = o.scannerInitState ∧
      (onStatusAttackState o field = proceed o' .statusPorts ∨
        o.currentReport ≠ 0 ∧ onStatusAttackState o field = proceed o' .statusProgress) := by
  simp only [onStatusAttackState, hHost]
  split
  · exact ⟨o, rfl, rfl, Or.inl rfl⟩
  · rename_i hNot
    have hReport : o.currentReport ≠ 0 := fun h => hNot (Or.inl h)
    refine ⟨_, ?_, ?_, Or.inr ⟨hReport, rfl⟩⟩
    all_goals
      repeat' split
      all_goals rfl

/-- A message is complete but for a closing word on which nothing hangs. -/
def Finishes (next : Next) (held : Held) (init : InitState) : Prop :=
  ∃ o' : Session, next = finish o' .nothing ∧ o'.held = held ∧ o'.scannerInitState = init

/-- The number of ports is recorded, and the host is given up. -/
theorem onStatusProgress_finishes (hReport : o.currentReport ≠ 0) (field : CString) :
    Finishes (onStatusProgress o field) { o.held with host := none } o.scannerInitState := by
  simp only [onStatusProgress, if_neg hReport]
  refine ⟨_, rfl, ?_, ?_⟩
  all_goals
    split
    all_goals rfl

/-- The last two pieces of such a message. -/
theorem calm_last (state : ScannerState) {raw : List UInt8} {held : Held} {init : InitState}
    (hState : o.scannerState = state) (hPlain : firstReading state = .field ∧ state ≠ .top)
    (hField : Finishes (onField env o (fieldText raw)) held init) :
    Calm held init false ([Piece.field raw, .closing].foldl (onPiece env) (o, none)) := by
  obtain ⟨o', hNext, hHeld, hInit⟩ := hField
  rw [foldl_field state hState hPlain, hNext]
  exact calm_none hHeld rfl hInit

/-- A status behind its host. -/
theorem calm_attackState {host : CString} (attack progress : CString)
    (hState : o.scannerState = .statusAttackState) (hHost : o.currentHost = some host) :
    Calm { o.held with host := none } o.scannerInitState false
      ([Piece.field (padded attack), .field (padded progress), .closing].foldl (onPiece env)
        (o, none)) := by
  have hField : onField env o (fieldText (padded attack)) =
      onStatusAttackState o (fieldText (padded attack)) := by
    rw [onField, hState]
  obtain ⟨o₁, hHeld, hInit, hNext⟩ := onStatusAttackState_held hHost (fieldText (padded attack))
  rw [foldl_field _ hState (by decide), hField]
  cases hNext with
  | inl hPorts =>
      rw [hPorts]
      refine calm_last .statusPorts rfl (by decide) ⟨_, rfl, ?_, hInit⟩
      rw [← hHeld]
      rfl
  | inr hProgress =>
      obtain ⟨hReport, hProgress⟩ := hProgress
      have hReport' : (o₁.setScannerState .statusProgress).currentReport ≠ 0 := by
        have hSame : o₁.currentReport = o.currentReport := congrArg Held.report hHeld
        rw [← hSame] at hReport
        exact hReport
      have hFinishes := onStatusProgress_finishes hReport' (fieldText (padded progress))
      rw [hProgress, ← hHeld, ← hInit]
      exact calm_last .statusProgress rfl (by decide) hFinishes

/-- A message that starts with a host gives it up at its end. -/
theorem calm_host (state next : ScannerState) {host : CString} {ps : List Piece}
    (hState : o.scannerState = state) (hPlain : firstReading state = .field ∧ state ≠ .top)
    (hField : ∀ field, onField env o field = onHost next o field) (hHost : o.currentHost = none)
    (hRest : ∀ o' : Session, o'.scannerState = next → o'.currentHost = some (fieldText (padded host)) →
      o'.currentScannerTask = o.currentScannerTask →
      Calm { o'.held with host := none } o'.scannerInitState false
        (ps.foldl (onPiece env) (o', none))) :
    Calm o.held o.scannerInitState false
      ((Piece.field (padded host) :: ps).foldl (onPiece env) (o, none)) := by
  have hHeld : o.held = { o.held with host := none } := by
    rw [← hHost]
    rfl
  rw [foldl_field state hState hPlain, hField, settle_onHost next hHost, hHeld]
  have hCalm := hRest ({ o with currentHost := some (fieldText (padded host)) }.setScannerState next)
    rfl rfl rfl
  exact hCalm

theorem calm_status (host attack progress : CString) (hTop : o.scannerState = .top)
    (hClear : o.Clear) :
    Calm o.held o.scannerInitState false (onMessage env o (.status host attack progress)) := by
  have hPieces : (ServerMessage.status host attack progress).pieces o.scannerInitState =
      fieldPieces [lit "STATUS"] ++ .field (padded host) ::
        [.field (padded attack), .field (padded progress), .closing] := rfl
  have hServer : onServer (o.setScannerState .server)
      (fieldText ((padded (lit "STATUS")).dropWhile isSpace)) = proceed o .statusHost := rfl
  rw [onMessage, hPieces, foldl_command hTop hServer]
  exact calm_host (o := o.setScannerState .statusHost) .statusHost .statusAttackState rfl (by decide)
    (fun _ => rfl) hClear.host fun _ hState hHost _ => calm_attackState attack progress hState hHost

/-- The fields `TIME` and its kind lead to the state of that kind. -/
theorem foldl_time {kind : CString} {next : ScannerState} {ps : List Piece}
    (hTop : o.scannerState = .top)
    (hTime : ∀ o' : Session, onTime o' (fieldText (padded kind)) = proceed o' next) :
    (fieldPieces [lit "TIME", kind] ++ ps).foldl (onPiece env) (o, none) =
      ps.foldl (onPiece env) (o.setScannerState next, none) := by
  have hPieces : fieldPieces [lit "TIME", kind] ++ ps =
      fieldPieces [lit "TIME"] ++ .field (padded kind) :: ps := rfl
  have hServer : onServer (o.setScannerState .server)
      (fieldText ((padded (lit "TIME")).dropWhile isSpace)) = proceed o .time := rfl
  have hField : onField env (o.setScannerState .time) (fieldText (padded kind)) =
      proceed o next := hTime (o.setScannerState .time)
  rw [hPieces, foldl_command hTop hServer]
  simp only [proceed, settle]
  rw [foldl_field .time rfl (by decide), hField]
  rfl

theorem onTimeHost_finishes {effect : Nat → CString → CString → Effect} {host : CString}
    (hTask : o.currentScannerTask ≠ 0) (hHost : o.currentHost = some host) (field : CString) :
    Finishes (onTimeHost effect o field) { o.held with host := none } o.scannerInitState := by
  simp only [onTimeHost, if_neg hTask, hHost]
  exact ⟨_, rfl, rfl, rfl⟩

theorem calm_hostTime (kind : HostTime) (host time : CString) (hTop : o.scannerState = .top)
    (hClear : o.Clear) (hTask : o.currentScannerTask ≠ 0) :
    Calm o.held o.scannerInitState false (onMessage env o (.hostTime kind host time)) := by
  have hPieces : (ServerMessage.hostTime kind host time).pieces o.scannerInitState =
      fieldPieces [lit "TIME", kind.command] ++ .field (padded host) ::
        [.field (padded time), .closing] := rfl
  rw [onMessage, hPieces]
  cases kind with
  | start =>
      rw [foldl_time hTop fun _ => rfl]
      refine calm_host (o := o.setScannerState .timeHostStartHost) .timeHostStartHost
        .timeHostStartTime rfl (by decide) (fun _ => rfl) hClear.host ?_
      intro o' hState hHost hSame
      apply calm_last .timeHostStartTime hState (by decide)
      rw [onField, hState]
      exact onTimeHost_finishes (hSame ▸ hTask) hHost _
  | finish =>
      rw [foldl_time hTop fun _ => rfl]
      refine calm_host (o := o.setScannerState .timeHostEndHost) .timeHostEndHost
        .timeHostEndTime rfl (by decide) (fun _ => rfl) hClear.host ?_
      intro o' hState hHost hSame
      apply calm_last .timeHostEndTime hState (by decide)
      rw [onField, hState]
      exact onTimeHost_finishes (hSame ▸ hTask) hHost _

theorem onTimeScanStart_finishes (field : CString) :
    Finishes (onTimeScanStart env o field) o.held o.scannerInitState := by
  simp only [onTimeScanStart]
  split
  · split <;> exact ⟨_, rfl, rfl, rfl⟩
  · exact ⟨_, rfl, rfl, rfl⟩

theorem calm_scanStart (time : CString) (hTop : o.scannerState = .top) :
    Calm o.held o.scannerInitState false (onMessage env o (.scanStart time)) := by
  have hPieces : (ServerMessage.scanStart time).pieces o.scannerInitState =
      fieldPieces [lit "TIME", lit "SCAN_START"] ++ [.field (padded time), .closing] := rfl
  rw [onMessage, hPieces, foldl_time hTop fun _ => rfl]
  exact calm_last .timeScanStart rfl (by decide) (onTimeScanStart_finishes _)

theorem endTask_held (o : Session) (field : CString) : (endTask o field).held = o.held := by
  rw [endTask]
  split <;> rfl

theorem onTimeScanEnd_finishes (time : CString) :
    Finishes (onTimeScanEnd o (fieldText (padded time)))
      ((ServerMessage.scanEnd time).heldAfter o.held) o.scannerInitState := by
  simp only [onTimeScanEnd, ServerMessage.heldAfter]
  split
  · rename_i hTask
    rw [if_pos (show o.held.task = 0 from hTask)]
    exact ⟨_, rfl, rfl, rfl⟩
  · rename_i hTask
    rw [if_neg (show ¬ o.held.task = 0 from hTask)]
    refine ⟨_, rfl, ?_, ?_⟩
    · have hHeld : ∀ o' : Session, o'.held = o.held →
          { endTask o' (fieldText (padded time)) with
            currentReport := 0, currentScannerTask := 0 }.held =
              { o.held with task := 0, report := 0 } := by
        intro o' hSame
        rw [← hSame, ← endTask_held o' (fieldText (padded time))]
        rfl
      apply hHeld
      split <;> rfl
    · show (endTask _ _).scannerInitState = _
      rw [endTask_init]
      split <;> rfl

theorem calm_scanEnd (time : CString) (hTop : o.scannerState = .top) :
    Calm ((ServerMessage.scanEnd time).heldAfter o.held) o.scannerInitState false
      (onMessage env o (.scanEnd time)) := by
  have hPieces : (ServerMessage.scanEnd time).pieces o.scannerInitState =
      fieldPieces [lit "TIME", lit "SCAN_END"] ++ [.field (padded time), .closing] := rfl
  rw [onMessage, hPieces, foldl_time hTop fun _ => rfl]
  exact calm_last .timeScanEnd rfl (by decide) (onTimeScanEnd_finishes time)

theorem calm_fileAccepted (hTop : o.scannerState = .top) :
    Calm o.held o.scannerInitState false (onMessage env o .fileAccepted) := by
  have hServer : onServer (o.setScannerState .server)
      (fieldText ((padded (lit "FILE_ACCEPTED")).dropWhile isSpace)) = finish o .nothing := rfl
  rw [onMessage, ServerMessage.pieces, foldl_command hTop hServer]
  exact calm_none rfl rfl rfl

/-- The end of a message, whether or not an effect hangs on the closing word. -/
theorem calm_end (state : ScannerState) (o' : Session) {front : List UInt8}
    {completion : Completion} (hState : o.scannerState = state) (hPlain : firstReading state = .field ∧ state ≠ .top)
    (hField : onField env o (fieldText front) = finish o' completion) :
    Calm o'.held (completion.initAfter o'.scannerInitState)
      (completion.returns o'.scannerInitState)
      ((endPieces (completion.attached o'.scannerInitState) front).foldl (onPiece env) (o, none)) := by
  rw [← hState] at hPlain
  rw [foldl_end hPlain hField]
  exact calm_onDone completion o'

theorem calm_nvtInfo (version : CString) (hTop : o.scannerState = .top) :
    Calm o.held (Completion.initAfter o.scannerInitState .nvtInfo) false
      (onMessage env o (.nvtInfo version)) := by
  have hServer : onServer (o.setScannerState .server)
      (fieldText ((padded (lit "NVT_INFO")).dropWhile isSpace)) = proceed o .nvtInfo := rfl
  rw [onMessage, ServerMessage.pieces, foldl_command hTop hServer]
  exact calm_end (o := o.setScannerState .nvtInfo) .nvtInfo { o.setScannerState .nvtInfo with
    pluginsFeedVersion := some (fieldText (padded version)) } rfl (by decide) rfl

theorem calm_bye (hTop : o.scannerState = .top) :
    Calm o.held o.scannerInitState true (onMessage env o .bye) := by
  have hServer : onServer (o.setScannerState .server)
      (fieldText ((padded (lit "BYE")).dropWhile isSpace)) = proceed o .bye := rfl
  rw [onMessage, ServerMessage.pieces, foldl_command hTop hServer]
  have hField : onField env (o.setScannerState .bye) (fieldText (padded (lit "BYE"))) =
      finish (o.setScannerState .bye) .bye := rfl
  exact calm_end .bye (o.setScannerState .bye) rfl (by decide) hField

theorem onPreferenceValue_held (o : Session) (line : List UInt8) :
    (onPreferenceValue o line).held = { o.held with preference := none } ∧
      (onPreferenceValue o line).scannerInitState = o.scannerInitState := by
  simp only [onPreferenceValue]
  split <;> exact ⟨rfl, rfl⟩

/-- One preference, of which nothing is kept. -/
theorem foldl_preference {front : List UInt8} {name value : CString} {ps : List Piece}
    (hFront : ∀ c ∈ front, isBlank c = true) (hName : WellFormedName name)
    (hState : o.scannerState = .preferenceName) (hPreference : o.currentScannerPreference = none) :
    ∃ o' : Session, o'.scannerState = .preferenceName ∧ o'.held = o.held ∧
      o'.scannerInitState = o.scannerInitState ∧
      (Piece.field (front ++ name ++ lit " ") :: .line (lit " " ++ value) :: ps).foldl (onPiece env)
        (o, none) = ps.foldl (onPiece env) (o', none) := by
  have hText := fieldText_name_ne_nil hFront hName
  have hField : onField env o (fieldText (front ++ name ++ lit " ")) =
      onPreferenceName o (fieldText (front ++ name ++ lit " ")) := by
    rw [onField, hState]
  obtain ⟨preference, hRead⟩ : ∃ preference, onPreferenceName o (fieldText (front ++ name ++ lit " ")) =
      .read ({ o with currentScannerPreference := preference }.setScannerState .preferenceValue)
        .value := by
    simp only [onPreferenceName, if_neg hText]
    exact ⟨_, rfl⟩
  obtain ⟨hHeld, hInit⟩ := onPreferenceValue_held
    ({ o with currentScannerPreference := preference }.setScannerState .preferenceValue)
    ((lit " " ++ value).dropWhile isSpace)
  rw [foldl_field _ hState (by decide), hField, hRead]
  refine ⟨_, rfl, hHeld.trans ?_, hInit, rfl⟩
  rw [← hPreference]
  rfl

theorem calm_preferencePieces {front : List UInt8} {entries : List (CString × CString)}
    (hFront : ∀ c ∈ front, isBlank c = true)
    (hEntries : ∀ entry ∈ entries, WellFormedName entry.1 ∧ WellFormedValue entry.2)
    (hState : o.scannerState = .preferenceName) (hPreference : o.currentScannerPreference = none) :
    Calm o.held (Completion.initAfter o.scannerInitState .preferences)
      (Completion.returns o.scannerInitState .preferences)
      ((preferencePieces (Completion.attached o.scannerInitState .preferences) front
        entries).foldl (onPiece env) (o, none)) := by
  induction entries generalizing o front with
  | nil =>
      have hField : onField env o (fieldText front) = finish o .preferences := by
        rw [fieldText_blank hFront, onField, hState]
        rfl
      exact calm_end _ o hState (by decide) hField
  | cons entry entries ih =>
      obtain ⟨name, value⟩ := entry
      have hName := (hEntries (name, value) List.mem_cons_self).1
      obtain ⟨o', hState', hHeld, hInit, hFold⟩ := foldl_preference hFront hName hState hPreference
      rw [preferencePieces, hFold, ← hHeld, ← hInit]
      refine ih (by simp) (fun entry hMem => hEntries entry (List.mem_cons_of_mem _ hMem)) hState' ?_
      exact (congrArg Held.preference hHeld).trans hPreference

theorem calm_preferences {entries : List (CString × CString)}
    (hEntries : ∀ entry ∈ entries, WellFormedName entry.1 ∧ WellFormedValue entry.2)
    (hTop : o.scannerState = .top) (hClear : o.Clear) :
    Calm o.held (Completion.initAfter o.scannerInitState .preferences)
      (Completion.returns o.scannerInitState .preferences)
      (onMessage env o (.preferences entries)) := by
  have hServer : onServer (o.setScannerState .server)
      (fieldText ((padded (lit "PREFERENCES")).dropWhile isSpace)) =
        asserting (o.setScannerState .server) .currentScannerPreference
          o.currentScannerPreference.isNone (proceed o .preferenceName) := rfl
  rw [hClear.preference] at hServer
  rw [onMessage, ServerMessage.pieces, foldl_command hTop hServer]
  exact calm_preferencePieces (o := o.setScannerState .preferenceName) isBlank_newline hEntries rfl
    hClear.preference

/-- The tags complete a plugin, and nothing of it is kept. -/
theorem onPluginListTags_held (o : Session) (line : List UInt8) :
    (onPluginListTags o line).scannerState = .pluginListOid ∧
      (onPluginListTags o line).held = { o.held with plugin := none } ∧
      (onPluginListTags o line).scannerInitState = o.scannerInitState := by
  cases hPlugin : o.currentPlugin with
  | none =>
      simp only [onPluginListTags, hPlugin]
      refine ⟨rfl, ?_, rfl⟩
      rw [← hPlugin]
      rfl
  | some plugin =>
      simp only [onPluginListTags, hPlugin]
      exact ⟨rfl, rfl, rfl⟩

/-- A session in the middle of a plugin, which differs from the one at its
start in nothing else that is held. -/
structure MidPlugin (start o : Session) : Prop where
  plugin : o.currentPlugin.isSome
  held : { o.held with plugin := none } = { start.held with plugin := none }
  init : o.scannerInitState = start.scannerInitState

/-- A field of a plugin behind the first. -/
theorem foldl_pluginField {good : Status → Prop} {start : Session} (state next : ScannerState)
    {set : CString → Nvti → Nvti} {raw : List UInt8} {ps : List Piece} (hState : o.scannerState = state)
    (hPlain : firstReading state = .field ∧ state ≠ .top)
    (hField : ∀ o field, o.scannerState = state → onField env o field = onPluginField next set o field)
    (hMid : MidPlugin start o)
    (hNext : ∀ o' : Session, o'.scannerState = next → MidPlugin start o' →
      good (ps.foldl (onPiece env) (o', none))) :
    good ((Piece.field raw :: ps).foldl (onPiece env) (o, none)) := by
  rw [foldl_field state hState hPlain, hField o _ hState]
  refine hNext ({ o with currentPlugin := o.currentPlugin.map (set (fieldText raw)) }.setScannerState
    next) rfl ⟨?_, hMid.held, hMid.init⟩
  show (o.currentPlugin.map (set (fieldText raw))).isSome
  rw [Option.isSome_map]
  exact hMid.plugin

/-- The cross references and the tags of a plugin. -/
theorem foldl_xrefs {good : Status → Prop} {start : Session} {xrefs tags : CString}
    {ps : List Piece} (hState : o.scannerState = .pluginListXrefs) (hMid : MidPlugin start o)
    (hPlugin : start.currentPlugin = none)
    (hNext : ∀ o' : Session, o'.scannerState = .pluginListOid → o'.held = start.held →
      o'.scannerInitState = start.scannerInitState → good (ps.foldl (onPiece env) (o', none))) :
    good ((Piece.field (padded xrefs) :: .line (lit " " ++ tags) :: ps).foldl (onPiece env)
      (o, none)) := by
  have hField : onField env o (fieldText (padded xrefs)) =
      onPluginListXrefs o (fieldText (padded xrefs)) := by
    rw [onField, hState]
  obtain ⟨plugin, hSome⟩ := Option.isSome_iff_exists.mp hMid.plugin
  have hSettle : ∃ plugin, settle (onPluginListXrefs o (fieldText (padded xrefs))) =
      ({ o with currentPlugin := some plugin }.setScannerState .pluginListTags, none) := by
    simp only [onPluginListXrefs, hSome, Option.map_some]
    exact ⟨_, rfl⟩
  obtain ⟨plugin', hSettle⟩ := hSettle
  obtain ⟨hOid, hHeld, hInit⟩ := onPluginListTags_held
    ({ o with currentPlugin := some plugin' }.setScannerState .pluginListTags)
    ((lit " " ++ tags).dropWhile isSpace)
  rw [foldl_field _ hState (by decide), hField, hSettle]
  refine hNext _ hOid ?_ (hInit.trans hMid.init)
  rw [hHeld]
  refine hMid.held.trans ?_
  rw [← hPlugin]
  rfl

/-- One plugin, of which nothing is kept but its place in the list. -/
theorem foldl_plugin {good : Status → Prop} {front : List UInt8} {p : PluginLine} {ps : List Piece}
    (hFront : ∀ c ∈ front, isBlank c = true) (hOid : WellFormedName p.oid)
    (hState : o.scannerState = .pluginListOid) (hPlugin : o.currentPlugin = none)
    (hNext : ∀ o' : Session, o'.scannerState = .pluginListOid → o'.held = o.held →
      o'.scannerInitState = o.scannerInitState → good (ps.foldl (onPiece env) (o', none))) :
    good ((Piece.field (front ++ p.oid ++ lit " ") ::
      (p.fields.map fun field => Piece.field (padded field)) ++
        .line (lit " " ++ p.tags) :: ps).foldl (onPiece env) (o, none)) := by
  have hText := fieldText_name_ne_nil hFront hOid
  have hField : onField env o (fieldText (front ++ p.oid ++ lit " ")) =
      proceed { o with currentPlugin := some { oid := some (fieldText (front ++ p.oid ++ lit " ")) } }
        .pluginListName := by
    rw [onField, hState]
    simp only [onPluginListOid, if_neg hText, asserting, hPlugin, Option.isNone_none, if_true]
    rfl
  rw [List.cons_append, foldl_field _ hState (by decide), hField]
  have hMid : MidPlugin o ({ o with
      currentPlugin := some { oid := some (fieldText (front ++ p.oid ++ lit " ")) } }.setScannerState
        .pluginListName) := ⟨rfl, rfl, rfl⟩
  refine foldl_pluginField .pluginListName .pluginListCategory rfl (by decide)
    (fun o _ h => by rw [onField, h]) hMid fun o₁ s₁ h₁ => ?_
  refine foldl_pluginField .pluginListCategory .pluginListCopyright s₁ (by decide)
    (fun o _ h => by rw [onField, h]) h₁ fun o₂ s₂ h₂ => ?_
  refine foldl_pluginField .pluginListCopyright .pluginListSummary s₂ (by decide)
    (fun o _ h => by rw [onField, h]) h₂ fun o₃ s₃ h₃ => ?_
  refine foldl_pluginField .pluginListSummary .pluginListFamily s₃ (by decide)
    (fun o _ h => by rw [onField, h]) h₃ fun o₄ s₄ h₄ => ?_
  refine foldl_pluginField .pluginListFamily .pluginListPluginVersion s₄ (by decide)
    (fun o _ h => by rw [onField, h]) h₄ fun o₅ s₅ h₅ => ?_
  refine foldl_pluginField .pluginListPluginVersion .pluginListCveId s₅ (by decide)
    (fun o _ h => by rw [onField, h]) h₅ fun o₆ s₆ h₆ => ?_
  refine foldl_pluginField .pluginListCveId .pluginListBugtraqId s₆ (by decide)
    (fun o _ h => by rw [onField, h]) h₆ fun o₇ s₇ h₇ => ?_
  refine foldl_pluginField .pluginListBugtraqId .pluginListXrefs s₇ (by decide)
    (fun o _ h => by rw [onField, h]) h₇ fun o₈ s₈ h₈ => ?_
  exact foldl_xrefs s₈ h₈ hPlugin hNext

theorem calm_pluginPieces {front : List UInt8} {plugins : List PluginLine}
    (hFront : ∀ c ∈ front, isBlank c = true) (hPlugins : ∀ p ∈ plugins, p.WellFormed)
    (hState : o.scannerState = .pluginListOid) (hPlugin : o.currentPlugin = none) :
    Calm o.held (Completion.initAfter o.scannerInitState .pluginList) false
      ((pluginPieces (Completion.attached o.scannerInitState .pluginList) front
        plugins).foldl (onPiece env) (o, none)) := by
  induction plugins generalizing o front with
  | nil =>
      have hField : onField env o (fieldText front) = finish o .pluginList := by
        rw [fieldText_blank hFront, onField, hState]
        rfl
      exact calm_end _ o hState (by decide) hField
  | cons p plugins ih =>
      rw [pluginPieces]
      refine foldl_plugin hFront (hPlugins p List.mem_cons_self).1 hState hPlugin ?_
      intro o' hState' hHeld hInit
      rw [← hHeld, ← hInit]
      refine ih (by simp) (fun q hMem => hPlugins q (List.mem_cons_of_mem _ hMem)) hState' ?_
      exact (congrArg Held.plugin hHeld).trans hPlugin

theorem calm_pluginList {plugins : List PluginLine} (hPlugins : ∀ p ∈ plugins, p.WellFormed)
    (hTop : o.scannerState = .top) (hClear : o.Clear) :
    Calm o.held (Completion.initAfter o.scannerInitState .pluginList) false
      (onMessage env o (.pluginList plugins)) := by
  have hServer : onServer (o.setScannerState .server)
      (fieldText ((padded (lit "PLUGIN_LIST")).dropWhile isSpace)) = proceed o .pluginListOid := rfl
  rw [onMessage, ServerMessage.pieces, foldl_command hTop hServer]
  exact calm_pluginPieces (o := o.setScannerState .pluginListOid) isBlank_newline hPlugins rfl
    hClear.plugin

/-- A message that comes while its task is current fails no assertion on a
variable and leaves nothing behind. -/
theorem calm_message (m : ServerMessage) (hWell : m.WellFormed) (hTop : o.scannerState = .top)
    (hClear : o.Clear) (hAttended : m.Attended o.currentScannerTask o.currentReport) :
    Calm (m.heldAfter o.held) (m.initAfter o.scannerInitState) (m.returns o.scannerInitState)
      (onMessage env o m) := by
  cases m with
  | result kind host port description oid =>
      exact calm_result kind host port description oid hTop hClear hAttended
  | status host attack progress => exact calm_status host attack progress hTop hClear
  | hostTime kind host time => exact calm_hostTime kind host time hTop hClear hAttended
  | scanStart time => exact calm_scanStart time hTop
  | scanEnd time => exact calm_scanEnd time hTop
  | nvtInfo version => exact calm_nvtInfo version hTop
  | pluginList plugins => exact calm_pluginList hWell hTop hClear
  | preferences entries => exact calm_preferences hWell hTop hClear
  | fileAccepted => exact calm_fileAccepted hTop
  | bye => exact calm_bye hTop

/-- Nothing is held but a task and a report. -/
def Held.empty (task report : Nat) : Held := ⟨none, none, none, none, task, report⟩

theorem clear_iff_held (o : Session) :
    o.Clear ↔ o.held = Held.empty o.currentScannerTask o.currentReport := by
  simp only [Session.held, Held.empty, Held.mk.injEq, and_true]
  exact ⟨fun h => ⟨h.message, h.host, h.plugin, h.preference⟩, fun h => ⟨h.1, h.2.1, h.2.2.1, h.2.2.2⟩⟩

theorem clear_of_heldAfter {o' : Session} (m : ServerMessage) (hClear : o.Clear)
    (hHeld : o'.held = m.heldAfter o.held) : o'.Clear := by
  have hAfter : ∃ task report, m.heldAfter o.held = Held.empty task report := by
    rw [(clear_iff_held o).mp hClear]
    cases m with
    | scanEnd time =>
        simp only [ServerMessage.heldAfter]
        split <;> exact ⟨_, _, rfl⟩
    | _ => exact ⟨_, _, rfl⟩
  obtain ⟨task, report, hEmpty⟩ := hAfter
  rw [hEmpty] at hHeld
  exact ⟨congrArg Held.message hHeld, congrArg Held.host hHeld, congrArg Held.plugin hHeld,
    congrArg Held.preference hHeld⟩

/-- What holds of a session whenever a call or a run has come to its end. -/
structure Unharmed (status : Status) : Prop where
  clear : status.1.Clear
  assertion : ∀ a, status.2 = some (.faulted (.assertion a)) → a.onVariable = false
  top : status.2 = none → status.1.scannerState = .top

theorem unharmed_stream {ms : List ServerMessage} (hWell : ∀ m ∈ ms, m.WellFormed)
    (hTop : o.scannerState = .top) (hClear : o.Clear)
    (hAttended : Attended o.scannerInitState o.held ms) :
    Unharmed ((streamPieces o.scannerInitState ms).foldl (onPiece env) (o, none)) := by
  induction ms generalizing o with
  | nil => exact ⟨hClear, fun a h => (by cases h), fun _ => hTop⟩
  | cons m ms ih =>
      obtain ⟨hHere, hLater⟩ := hAttended
      have hCalm : Calm _ _ _ (onMessage env o m) :=
        calm_message m (hWell m List.mem_cons_self) hTop hClear hHere
      have hClear' := clear_of_heldAfter m hClear hCalm.held
      rw [streamPieces, List.foldl_append, ← onMessage, List.foldl_cons]
      cases hStatus : onMessage env o m with
      | mk o' ending =>
          rw [hStatus] at hCalm hClear'
          cases ending with
          | some ending =>
              rw [onPiece, foldl_onPiece_ended]
              exact ⟨hClear', hCalm.assertion, fun h => by cases h⟩
          | none =>
              obtain ⟨hTop', hInit, hReturns⟩ := hCalm.next rfl
              have hHeld : o'.held = m.heldAfter o.held := hCalm.held
              rw [← hInit, onPiece]
              refine ih (fun n hMem => hWell n (List.mem_cons_of_mem _ hMem)) hTop' hClear' ?_
              rw [hHeld, show o'.scannerInitState = m.initAfter o.scannerInitState from hInit]
              exact hLater hReturns

/-- What the rest of the manager has set before a call, and the messages that
the call finds. -/
structure Turn where
  init : InitState
  task : Nat
  report : Nat
  status : TaskStatus
  messages : List ServerMessage
  old : List UInt8
  deriving DecidableEq, Repr

def Turn.enter (t : Turn) (o : Session) : Session :=
  { o with scannerInitState := t.init, currentScannerTask := t.task, currentReport := t.report,
           taskRunStatus := t.status }

/-- A turn in which messages are received, and some have come. -/
def Turn.WellFormed (t : Turn) : Prop :=
  t.init.receiving = true ∧ t.messages ≠ [] ∧ ∀ m ∈ t.messages, m.WellFormed

/-- The calls of the turns, up to the first that does not return 0. -/
def follow (env : Env) (o : Session) (b : Buffer) : List Turn → Session × Option Ending
  | [] => (o, none)
  | t :: ts =>
      let result := processOtpScannerInput env t.old (t.enter o) (b.append (streamText t.messages))
      match result.ending with
      | some ending => (result.session, some ending)
      | none => follow env result.session result.buffer ts

theorem manageCheckCurrentTask_held {o' : Session} {fault : Option Fault}
    (h : manageCheckCurrentTask o = (o', fault)) :
    o'.held = o.held ∧ ∀ f ∈ fault, f = .assertion .unreachable := by
  rw [manageCheckCurrentTask] at h
  split at h
  · obtain ⟨rfl, rfl⟩ := Prod.mk.inj h
    exact ⟨rfl, fun f hf => by cases hf⟩
  · cases hStatus : o.taskRunStatus <;> rw [hStatus] at h <;> obtain ⟨rfl, rfl⟩ := Prod.mk.inj h <;>
      refine ⟨rfl, fun f hf => ?_⟩ <;> cases hf
    rfl

variable (env) in
/-- A call in a turn whose messages are attended. -/
theorem unharmed_call {t : Turn} {b : Buffer} (hTurn : t.WellFormed)
    (hAttended : Attended t.init (Held.empty t.task t.report) t.messages) (hClear : o.Clear)
    (hTop : o.scannerState = .top) (hBlank : ∀ c ∈ b.pending, isBlank c = true) :
    let result := processOtpScannerInput env t.old (t.enter o) (b.append (streamText t.messages))
    Unharmed (result.session, result.ending) ∧
      (result.ending = none → ∀ c ∈ result.buffer.pending, isBlank c = true) := by
  obtain ⟨hReceiving, hSome, hWell⟩ := hTurn
  have hEntered : (t.enter o).Clear := ⟨hClear.message, hClear.host, hClear.plugin, hClear.preference⟩
  cases hCheck : manageCheckCurrentTask (t.enter o) with
  | mk start fault =>
      obtain ⟨hHeld, hFault⟩ := manageCheckCurrentTask_held hCheck
      obtain ⟨hState, hInit⟩ := manageCheckCurrentTask_keeps hCheck
      have hStart : start.Clear := ⟨(congrArg Held.message hHeld).trans hEntered.message,
        (congrArg Held.host hHeld).trans hEntered.host,
        (congrArg Held.plugin hHeld).trans hEntered.plugin,
        (congrArg Held.preference hHeld).trans hEntered.preference⟩
      have hTop' : start.scannerState = .top := hState.trans hTop
      cases fault with
      | some fault =>
          obtain rfl := hFault fault rfl
          simp only [processOtpScannerInput, hCheck]
          refine ⟨⟨hStart, ?_, fun h => by cases h⟩, fun h => by cases h⟩
          intro a h
          cases h
          rfl
      | none =>
          have hSound : Sound start :=
            ⟨settled_of_manageCheckCurrentTask hCheck, fun h => by cases hTop'.symm.trans h⟩
          have hReceiving' : start.scannerInitState.receiving = true := by
            rw [hInit]
            exact hReceiving
          obtain ⟨hStatus, hLeft⟩ := processOtpScannerInput_stream env t.old hSound
            hReceiving' hTop' hBlank hWell fun hNil => absurd hNil hSome
          have hAttended' : Attended start.scannerInitState start.held t.messages := by
            rw [hInit, hHeld, (clear_iff_held _).mp hEntered]
            exact hAttended
          have hStream : Unharmed ((streamPieces start.scannerInitState t.messages).foldl (onPiece env)
              (start, none)) := unharmed_stream hWell hTop' hStart hAttended'
          rw [← hStatus] at hStream
          simp only [processOtpScannerInput_checked _ hCheck]
          exact ⟨hStream, fun hNone => hLeft hNone (hStream.top hNone)⟩

/-- In every run whose messages are attended, no assertion on a variable fails,
and nothing of a message is kept. -/
theorem follow_unharmed {ts : List Turn} (hTurns : ∀ t ∈ ts, t.WellFormed)
    (hAttended : ∀ t ∈ ts, Attended t.init (Held.empty t.task t.report) t.messages)
    {b : Buffer} (hClear : o.Clear) (hTop : o.scannerState = .top)
    (hBlank : ∀ c ∈ b.pending, isBlank c = true) : Unharmed (follow env o b ts) := by
  induction ts generalizing o b with
  | nil => exact ⟨hClear, fun a h => (by cases h), fun _ => hTop⟩
  | cons t ts ih =>
      obtain ⟨hCall, hLeft⟩ := unharmed_call env (hTurns t List.mem_cons_self)
        (hAttended t List.mem_cons_self) hClear hTop hBlank
      simp only [follow]
      split
      · rename_i ending hEnding
        rw [hEnding] at hCall
        exact hCall
      · rename_i hEnding
        exact ih (fun u hMem => hTurns u (List.mem_cons_of_mem _ hMem))
          (fun u hMem => hAttended u (List.mem_cons_of_mem _ hMem)) hCall.clear (hCall.top hEnding)
          (hLeft hEnding)

/-- In every run in which results come while a task and its report are current,
and host times while a task is, the assertions on the variables hold and the
variables of a message are empty again at the end. A run may end behind any of
its messages. -/
theorem follow_attended {ts : List Turn} (hTurns : ∀ t ∈ ts, t.WellFormed)
    (hAttended : ∀ t ∈ ts, Attended t.init (Held.empty t.task t.report) t.messages)
    (hClear : o.Clear) (hTop : o.scannerState = .top) :
    (∀ a, (follow env o ⟨0, []⟩ ts).2 = some (.faulted (.assertion a)) → a.onVariable = false) ∧
      (follow env o ⟨0, []⟩ ts).1.currentMessage = none ∧
      (follow env o ⟨0, []⟩ ts).1.currentHost = none := by
  have hEnd : Unharmed (follow env o ⟨0, []⟩ ts) :=
    follow_unharmed hTurns hAttended hClear hTop fun c hMem => (by cases hMem)
  exact ⟨hEnd.assertion, hEnd.clear.message, hEnd.clear.host⟩

/-- An alarm for the task 1 and its report 2, and a host that starts behind it. -/
def alarmTurn : Turn :=
  { init := .done, task := 1, report := 2, status := .running, old := []
    messages := [.result .alarm (lit "h") (lit "80/tcp") (lit "d") (lit "1.2"),
      .hostTime .start (lit "h") (lit "now")] }

theorem follow_attended_alarm :
    (∀ a, (follow emptyEnv initialised ⟨0, []⟩ [alarmTurn]).2 = some (.faulted (.assertion a)) →
        a.onVariable = false) ∧
      (follow emptyEnv initialised ⟨0, []⟩ [alarmTurn]).1.currentMessage = none ∧
      (follow emptyEnv initialised ⟨0, []⟩ [alarmTurn]).1.currentHost = none := by
  refine follow_attended ?_ ?_ ⟨rfl, rfl, rfl, rfl⟩ rfl
  · intro t hMem
    obtain rfl := List.mem_singleton.mp hMem
    refine ⟨rfl, by decide, ?_⟩
    intro m hMem
    have hPlain : ∀ text ∈ [lit "h", lit "80/tcp", lit "d", lit "1.2", lit "now"],
        WellFormedField text := by
      show ∀ text ∈ _, findSeparator [] text = none
      decide
    simp only [List.forall_mem_cons] at hPlain
    obtain ⟨hHost, hPort, hDescription, hOid, hTime, -⟩ := hPlain
    simp only [alarmTurn, List.mem_cons, List.not_mem_nil, or_false] at hMem
    rcases hMem with rfl | rfl
    · exact ⟨hHost, hPort, hDescription, hOid⟩
    · exact ⟨hHost, hTime⟩
  · intro t hMem
    obtain rfl := List.mem_singleton.mp hMem
    exact ⟨⟨by decide, by decide⟩, fun _ => ⟨Nat.one_ne_zero, fun _ => trivial⟩⟩

/-- Two alarms without a task: the first is kept, and the second runs into the
assertion that there is none. -/
theorem follow_alarms_without_task :
    let alarm := ServerMessage.result .alarm (lit "h") (lit "80/tcp") (lit "d") (lit "1.2")
    let turn (ms : List ServerMessage) : Turn := ⟨.done, 0, 0, .new, ms, []⟩
    (turn [alarm, alarm]).WellFormed ∧
      (follow emptyEnv initialised ⟨0, []⟩ [turn [alarm]]).1.currentMessage ≠ none ∧
      (follow emptyEnv initialised ⟨0, []⟩ [turn [alarm, alarm]]).2 =
        some (.faulted (.assertion .currentMessage)) := by
  refine ⟨⟨rfl, by decide, ?_⟩, by decide +kernel, by decide +kernel⟩
  intro m hMem
  have hPlain : ∀ text ∈ [lit "h", lit "80/tcp", lit "d", lit "1.2"], findSeparator [] text = none := by
    decide
  simp only [List.forall_mem_cons] at hPlain
  obtain ⟨hHost, hPort, hDescription, hOid, -⟩ := hPlain
  simp only [List.mem_cons, List.not_mem_nil, or_false, or_self] at hMem
  subst hMem
  exact ⟨hHost, hPort, hDescription, hOid⟩

end Otp
