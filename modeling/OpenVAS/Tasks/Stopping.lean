import Mathlib.Logic.Function.Basic
import OpenVAS.Lib.Run
import OpenVAS.Otp.Input

/-! The run status of a task, which several processes read and write: a client that stops
the task, clients that pause, resume and delete it, and the process of the scan. Each read
and each write is a step of its own. -/
namespace Tasks

open CString Otp

/-! What the functions write, by the status that they have read. -/

/-- The statuses in which `stop_task_internal` requests a stop. -/
def isStoppable : TaskStatus → Bool
  | .pauseRequested | .pauseWaiting | .paused | .resumeRequested | .resumeWaiting | .requested
  | .running => true
  | _ => false

inductive ClientCall where
  | pause
  | resume
  deriving DecidableEq, Repr

/-- The request of `pause_task` and of `resume_paused_task`. -/
def ClientCall.request : ClientCall → TaskStatus → Option TaskStatus
  | .pause, .requested | .pause, .running => some .pauseRequested
  | .resume, .pauseRequested | .resume, .paused => some .resumeRequested
  | _, _ => none

/-- What `manage_check_current_task` writes, when it has passed a request on. -/
def checkStatus : TaskStatus → Option TaskStatus
  | .pauseRequested => some .pauseWaiting
  | .resumeRequested => some .resumeWaiting
  | .stopRequested => some .stopWaiting
  | .deleteRequested => some .deleteWaiting
  | .deleteUltimateRequested => some .deleteUltimateWaiting
  | _ => none

/-- What the start of the scan writes. -/
def startStatus : TaskStatus → Option TaskStatus
  | .requested => some .running
  | _ => none

/-- What the end of the scan writes. -/
def endStatus : TaskStatus → Option TaskStatus
  | .internalError => none
  | .pauseRequested | .pauseWaiting | .paused | .resumeRequested | .resumeWaiting
  | .stopRequested | .stopWaiting | .deleteRequested | .deleteWaiting | .deleteUltimateRequested
  | .deleteUltimateWaiting => some .stopped
  | .done | .new | .requested | .running | .stopped | .stopRequestedGiveup => some .done

/-- Whether the end of the scan deletes the task. -/
def endDeletes : TaskStatus → Bool
  | .deleteRequested | .deleteWaiting | .deleteUltimateRequested | .deleteUltimateWaiting => true
  | _ => false

inductive Notice where
  | pause
  | resume
  deriving DecidableEq, Repr

/-- The field of the notice, and the status that it writes. -/
def Notice.field : Notice → CString
  | .pause => lit "pause"
  | .resume => lit "resume"

def Notice.status : Notice → TaskStatus
  | .pause => .paused
  | .resume => .running

section Session

variable (o : Session) (field : CString)

theorem manageCheckCurrentTask_status (hTask : o.currentScannerTask ≠ 0) :
    (manageCheckCurrentTask o).1.taskRunStatus =
      (checkStatus o.taskRunStatus).getD o.taskRunStatus := by
  rw [manageCheckCurrentTask, if_neg hTask]
  cases hStatus : o.taskRunStatus <;>
    simp [checkStatus, hStatus, Session.setTaskRunStatus, Session.addEffect]

theorem onTimeScanStart_status (env : Env) (hTask : o.currentScannerTask ≠ 0) :
    ∃ o', onTimeScanStart env o field = finish o' .nothing ∧
      o'.taskRunStatus = (startStatus o.taskRunStatus).getD o.taskRunStatus := by
  rw [onTimeScanStart]
  split
  · rename_i hRequested
    dsimp only
    split
    · exact ⟨_, rfl, by rw [hRequested.2]; rfl⟩
    · exact ⟨_, rfl, by rw [hRequested.2]; rfl⟩
  · rename_i hOther
    refine ⟨o, rfl, ?_⟩
    cases hStatus : o.taskRunStatus with
    | requested => exact absurd ⟨hTask, hStatus⟩ hOther
    | _ => rfl

theorem endTask_status :
    (endTask o field).taskRunStatus = (endStatus o.taskRunStatus).getD o.taskRunStatus := by
  rw [endTask]
  cases hStatus : o.taskRunStatus <;>
    simp [endStatus, hStatus, Session.setTaskRunStatus, Session.addEffect]

theorem onStatusAttackState_status (notice : Notice) (host : CString)
    (hHost : o.currentHost = some host) (hReport : o.currentReport ≠ 0)
    (hTask : o.currentScannerTask ≠ 0) :
    ∃ o', onStatusAttackState o notice.field = proceed o' .statusProgress ∧
      o'.taskRunStatus = notice.status := by
  cases notice with
  | pause =>
      have hField : ¬ (o.currentReport = 0 ∨ lit "pause" = lit "portscan") := by
        simp only [hReport, false_or]
        decide
      simp only [onStatusAttackState, Notice.field, hHost, if_neg hField, if_neg hTask]
      exact ⟨_, rfl, rfl⟩
  | resume =>
      have hField : ¬ (o.currentReport = 0 ∨ lit "resume" = lit "portscan") := by
        simp only [hReport, false_or]
        decide
      have hNot : ¬ lit "resume" = lit "pause" := by decide
      simp only [onStatusAttackState, Notice.field, hHost, if_neg hField, if_neg hTask, if_neg hNot]
      exact ⟨_, rfl, rfl⟩

end Session

/-! The processes. -/

/-- The process of the scan: between two messages, between the read and the write of a
function with the status that was read, or at its end. -/
inductive ScanPhase where
  | reading
  | checking (seen : TaskStatus)
  | starting (seen : TaskStatus)
  | ending (seen : TaskStatus)
  | ended
  deriving DecidableEq, Repr

/-- The client that stops the task. -/
inductive StopPhase where
  | before
  | seen
  | written
  | refused
  deriving DecidableEq, Repr

structure World where
  status : TaskStatus
  /-- The task is deleted, or in the trashcan. -/
  gone : Bool
  scan : ScanPhase
  stop : StopPhase
  /-- What each of the other clients has still to write. -/
  clients : Nat → Option TaskStatus

inductive Step where
  | stopRead
  | stopWrite
  | clientRead (client : Nat) (call : ClientCall)
  | clientWrite (client : Nat)
  /-- `request_delete_task_uuid`, which has a transaction of its own. -/
  | requestDelete (ultimate : Bool)
  | checkRead
  | startRead
  | endRead
  | scanWrite
  | notice (notice : Notice)
  deriving DecidableEq, Repr

/-- The read of a function of the scan process. -/
def scanRead (phase : TaskStatus → ScanPhase) (reads : Bool) (world : World) : World :=
  if world.scan = .reading ∧ reads then { world with scan := phase world.status } else world

def World.step (world : World) : Step → World
  | .stopRead =>
      if world.stop = .before then
        { world with stop := if isStoppable world.status then .seen else .refused }
      else world
  | .stopWrite =>
      if world.stop = .seen then { world with status := .stopRequested, stop := .written } else world
  | .clientRead client call =>
      match world.clients client with
      | some _ => world
      | none =>
          { world with clients := Function.update world.clients client (call.request world.status) }
  | .clientWrite client =>
      match world.clients client with
      | some request =>
          { world with status := request, clients := Function.update world.clients client none }
      | none => world
  | .requestDelete ultimate =>
      if world.gone then world
      else if isStoppable world.status then
        { world with
          status := if ultimate then .deleteUltimateRequested else .deleteRequested }
      else { world with gone := true }
  | .checkRead => scanRead .checking (checkStatus world.status).isSome world
  | .startRead => scanRead .starting (startStatus world.status).isSome world
  | .endRead => scanRead .ending true world
  | .scanWrite =>
      match world.scan with
      | .checking seen =>
          { world with status := (checkStatus seen).getD world.status, scan := .reading }
      | .starting seen =>
          { world with status := (startStatus seen).getD world.status, scan := .reading }
      | .ending seen =>
          { world with
            status := (endStatus seen).getD world.status
            gone := world.gone || endDeletes seen
            scan := .ended }
      | .reading => world
      | .ended => world
  | .notice notice =>
      if world.scan = .reading then { world with status := notice.status } else world

/-- A read and a write of the scan process, with no step of another process in between. -/
theorem World.step_read_write {world : World} (hReading : world.scan = .reading) :
    ((world.step .checkRead).step .scanWrite).status =
        (checkStatus world.status).getD world.status ∧
      ((world.step .startRead).step .scanWrite).status =
        (startStatus world.status).getD world.status ∧
      ((world.step .endRead).step .scanWrite).status = (endStatus world.status).getD world.status := by
  refine ⟨?_, ?_, ?_⟩
  · cases hCheck : checkStatus world.status <;> simp [World.step, scanRead, hReading, hCheck]
  · cases hStart : startStatus world.status <;> simp [World.step, scanRead, hReading, hStart]
  · simp [World.step, scanRead, hReading]

/-- The steps of the scan process are what its functions do to the session: with no step of
another process between their reads and writes, they leave the status that the functions leave. -/
theorem World.step_session {world : World} {o : Session} (hReading : world.scan = .reading)
    (hStatus : world.status = o.taskRunStatus) (hTask : o.currentScannerTask ≠ 0) (env : Env)
    (field : CString) :
    ((world.step .checkRead).step .scanWrite).status = (manageCheckCurrentTask o).1.taskRunStatus ∧
      (∃ o', onTimeScanStart env o field = finish o' .nothing ∧
        ((world.step .startRead).step .scanWrite).status = o'.taskRunStatus) ∧
      ((world.step .endRead).step .scanWrite).status = (endTask o field).taskRunStatus ∧
      ∀ notice : Notice, o.currentHost.isSome = true → o.currentReport ≠ 0 →
        ∃ o', onStatusAttackState o notice.field = proceed o' .statusProgress ∧
          (world.step (.notice notice)).status = o'.taskRunStatus := by
  obtain ⟨hCheck, hStart, hEnd⟩ := World.step_read_write hReading
  rw [hStatus] at hCheck hStart hEnd
  refine ⟨?_, ?_, ?_, fun notice hHost hReport => ?_⟩
  · rw [hCheck, manageCheckCurrentTask_status o hTask]
  · obtain ⟨o', hMessage, hWritten⟩ := onTimeScanStart_status o field env hTask
    exact ⟨o', hMessage, hStart.trans hWritten.symm⟩
  · rw [hEnd, endTask_status]
  · obtain ⟨host, hHost⟩ := Option.isSome_iff_exists.mp hHost
    obtain ⟨o', hMessage, hWritten⟩ := onStatusAttackState_status o notice host hHost hReport hTask
    refine ⟨o', hMessage, ?_⟩
    rw [hWritten, World.step, if_pos hReading]

/-- A scan in a status, before anything is requested. -/
def scanning (status : TaskStatus) : World := ⟨status, false, .reading, .before, fun _ => none⟩

/-! The claim on a run. -/

/-- The stop was requested, and the task was not deleted meanwhile. -/
def World.Requested (world : World) : Prop := world.stop = .written ∧ world.gone = false

/-- The status does not return to one that could be stopped. -/
def NotLost (world : World) : Prop := world.Requested → isStoppable world.status = false

/-- The end of the scan makes the task stopped, and deletes it where that was requested. -/
def EndsStopped (world : World) (step : Step) : Prop :=
  world.Requested → step = .scanWrite → ∀ seen, world.scan = .ending seen →
    (world.step step).status = .stopped ∧ (endDeletes seen = true → (world.step step).gone = true)

/-- The step writes what was decided before the stop was requested, or what the scanner
says. -/
def Outdated (world : World) : Step → Prop
  | .clientWrite client => world.clients client ≠ none
  | .scanWrite =>
      match world.scan with
      | .checking seen => isStoppable seen = true
      | .starting seen => isStoppable seen = true
      | .ending seen => seen = .requested ∨ seen = .running
      | _ => False
  | .notice _ => world.scan = .reading
  | _ => False

def WritesInTime (world : World) (step : Step) : Prop := world.Requested → ¬ Outdated world step

/-! Runs. -/

/-- The statuses of a task whose scan has not ended. -/
def isLive : TaskStatus → Bool
  | .stopRequested | .stopWaiting | .deleteRequested | .deleteWaiting | .deleteUltimateRequested
  | .deleteUltimateWaiting => true
  | status => isStoppable status

/-- What the scan process can have read. -/
def ScanPhase.Sound : ScanPhase → Prop
  | .reading | .ended => True
  | .checking seen => isLive seen = true ∧ (checkStatus seen).isSome = true
  | .starting seen => seen = .requested
  | .ending seen => isLive seen = true

structure World.Sound (world : World) : Prop where
  clients : ∀ client request, world.clients client = some request →
    request = .pauseRequested ∨ request = .resumeRequested
  live : world.scan ≠ .ended → isLive world.status = true
  seen : world.scan.Sound

theorem request_cases {call : ClientCall} {status request : TaskStatus}
    (h : call.request status = some request) :
    request = .pauseRequested ∨ request = .resumeRequested := by
  cases call <;> cases status <;> simp [ClientCall.request] at h <;> simp [← h]

theorem isLive_checkStatus {seen status : TaskStatus} (hLive : isLive status = true) :
    isLive ((checkStatus seen).getD status) = true := by
  cases seen <;> first | exact hLive | rfl

theorem isLive_startStatus {seen status : TaskStatus} (hLive : isLive status = true) :
    isLive ((startStatus seen).getD status) = true := by
  cases seen <;> first | exact hLive | rfl

section Steps

variable {world : World}

theorem scanRead_sound (hSound : world.Sound) {phase : TaskStatus → ScanPhase} {reads : Bool}
    (hPhase : isLive world.status = true → reads = true → (phase world.status).Sound) :
    (scanRead phase reads world).Sound := by
  rw [scanRead]
  split
  · rename_i hReads
    have hLive := hSound.live (by rw [hReads.1]; decide)
    exact ⟨hSound.clients, fun _ => hLive, hPhase hLive hReads.2⟩
  · exact hSound

theorem sound_update (hSound : world.Sound) (client : Nat) {request : Option TaskStatus}
    (hRequest : ∀ status, request = some status → status = .pauseRequested ∨ status = .resumeRequested) :
    ∀ other status, Function.update world.clients client request other = some status →
      status = .pauseRequested ∨ status = .resumeRequested := by
  intro other status hStatus
  by_cases hSame : other = client
  · subst hSame
    rw [Function.update_self] at hStatus
    exact hRequest status hStatus
  · rw [Function.update_of_ne hSame] at hStatus
    exact hSound.clients other status hStatus

theorem World.Sound.step (hSound : world.Sound) (step : Step) : (world.step step).Sound := by
  cases step with
  | stopRead =>
      rw [World.step]
      split
      · exact ⟨hSound.clients, hSound.live, hSound.seen⟩
      · exact hSound
  | stopWrite =>
      rw [World.step]
      split
      · exact ⟨hSound.clients, fun _ => rfl, hSound.seen⟩
      · exact hSound
  | clientRead client call =>
      rw [World.step]
      split
      · exact hSound
      · exact ⟨sound_update hSound client fun _ => request_cases, hSound.live, hSound.seen⟩
  | clientWrite client =>
      rw [World.step]
      split
      · rename_i request hRequest
        refine ⟨sound_update hSound client nofun, fun _ => ?_, hSound.seen⟩
        rcases hSound.clients client request hRequest with rfl | rfl
        · rfl
        · rfl
      · exact hSound
  | requestDelete ultimate =>
      rw [World.step]
      split
      · exact hSound
      split
      · refine ⟨hSound.clients, fun _ => ?_, hSound.seen⟩
        cases ultimate <;> rfl
      · exact ⟨hSound.clients, hSound.live, hSound.seen⟩
  | checkRead => exact scanRead_sound hSound fun hLive hReads => ⟨hLive, hReads⟩
  | startRead =>
      refine scanRead_sound hSound fun _ hReads => ?_
      change world.status = .requested
      cases hStatus : world.status with
      | requested => rfl
      | _ => simp [hStatus, startStatus] at hReads
  | endRead => exact scanRead_sound hSound fun hLive _ => hLive
  | scanWrite =>
      have hLive := hSound.live
      rw [World.step]
      cases hScan : world.scan with
      | checking seen =>
          rw [hScan] at hLive
          exact ⟨hSound.clients, fun _ => isLive_checkStatus (hLive (by simp)), trivial⟩
      | starting seen =>
          rw [hScan] at hLive
          exact ⟨hSound.clients, fun _ => isLive_startStatus (hLive (by simp)), trivial⟩
      | ending seen => exact ⟨hSound.clients, fun hNot => absurd rfl hNot, trivial⟩
      | reading => exact hSound
      | ended => exact hSound
  | notice notice =>
      rw [World.step]
      split
      · refine ⟨hSound.clients, fun _ => ?_, hSound.seen⟩
        cases notice <;> rfl
      · exact hSound

/-- The steps that write nothing leave the request as it is. -/
theorem notLost_of_same {world' : World} (h : NotLost world) (hStatus : world'.status = world.status)
    (hGone : world'.gone = world.gone) (hStop : world'.stop = .written → world.stop = .written) :
    NotLost world' := by
  intro hRequested
  rw [hStatus]
  exact h ⟨hStop hRequested.1, hGone ▸ hRequested.2⟩

theorem notLost_scanRead (phase : TaskStatus → ScanPhase) (reads : Bool) (h : NotLost world) :
    NotLost (scanRead phase reads world) := by
  rw [scanRead]
  split
  · exact notLost_of_same h rfl rfl id
  · exact h

/-- A step that is no write of the scan process ends nothing. -/
theorem endsStopped_of_ne {step : Step} (hStep : step ≠ .scanWrite) : EndsStopped world step :=
  fun _ hSame => absurd hSame hStep

theorem writesInTime_of_not {step : Step} (h : ¬ Outdated world step) : WritesInTime world step :=
  fun _ => h

/-- A write of a status that can be stopped loses the request. -/
theorem notLost_write_iff (world : World) {world' : World} {status : TaskStatus} (hStatus : world'.status = status)
    (hGone : world'.gone = world.gone) (hStop : world'.stop = world.stop) :
    NotLost world' ↔ (world.Requested → ¬ isStoppable status = true) := by
  rw [NotLost, World.Requested, World.Requested, hStatus, hGone, hStop, Bool.not_eq_true]

theorem stoppable_checkStatus {seen status : TaskStatus} (h : (checkStatus seen).isSome = true) :
    isStoppable ((checkStatus seen).getD status) = isStoppable seen := by
  cases seen <;> first | rfl | cases h

theorem not_stoppable_endStatus {seen status : TaskStatus} (h : isLive seen = true) :
    isStoppable ((endStatus seen).getD status) = false := by
  cases seen <;> first | rfl | cases h

theorem endStatus_stopped_iff {seen status : TaskStatus} (h : isLive seen = true) :
    (endStatus seen).getD status = .stopped ↔ ¬ (seen = .requested ∨ seen = .running) := by
  revert h
  cases seen <;> simp [isLive, isStoppable, endStatus]

theorem scanWrite_iff (hSound : world.Sound) (hGood : NotLost world) :
    NotLost (world.step .scanWrite) ∧ EndsStopped world .scanWrite ↔
      WritesInTime world .scanWrite := by
  have hSeen := hSound.seen
  simp only [World.step, EndsStopped, WritesInTime, Outdated]
  cases hScan : world.scan with
  | checking seen =>
      rw [hScan] at hSeen
      rw [notLost_write_iff world (Eq.refl _) (by rfl) (by rfl), stoppable_checkStatus hSeen.2]
      exact ⟨fun h => h.1, fun h => ⟨h, nofun⟩⟩
  | starting seen =>
      rw [hScan] at hSeen
      obtain rfl : seen = .requested := hSeen
      rw [notLost_write_iff world (Eq.refl _) (by rfl) (by rfl)]
      exact ⟨fun h => h.1, fun h => ⟨h, nofun⟩⟩
  | ending seen =>
      rw [hScan] at hSeen
      have hLive : isLive seen = true := hSeen
      constructor
      · rintro ⟨-, hEnds⟩ hRequested
        exact (endStatus_stopped_iff hLive).mp (hEnds hRequested (by trivial) seen rfl).1
      · intro hTime
        refine ⟨fun _ => not_stoppable_endStatus hLive, fun hRequested _ seen' hSame => ?_⟩
        obtain rfl := ScanPhase.ending.inj hSame
        refine ⟨(endStatus_stopped_iff hLive).mpr (hTime hRequested), fun hDeletes => ?_⟩
        simp [hDeletes]
  | reading => exact iff_of_true ⟨hGood, nofun⟩ fun _ => id
  | ended => exact iff_of_true ⟨hGood, nofun⟩ fun _ => id

/-- What one step does to the request. -/
theorem step_iff (hSound : world.Sound) (hGood : NotLost world) (step : Step) :
    NotLost (world.step step) ∧ EndsStopped world step ↔ WritesInTime world step := by
  cases step with
  | stopRead =>
      refine iff_of_true ⟨?_, endsStopped_of_ne nofun⟩ (writesInTime_of_not id)
      rw [World.step]
      split
      · refine notLost_of_same hGood rfl rfl fun hWritten => ?_
        dsimp only at hWritten
        split at hWritten <;> cases hWritten
      · exact hGood
  | stopWrite =>
      refine iff_of_true ⟨?_, endsStopped_of_ne nofun⟩ (writesInTime_of_not id)
      rw [World.step]
      split
      · exact fun _ => rfl
      · exact hGood
  | clientRead client call =>
      refine iff_of_true ⟨?_, endsStopped_of_ne nofun⟩ (writesInTime_of_not id)
      rw [World.step]
      split
      · exact hGood
      · exact notLost_of_same hGood rfl rfl id
  | clientWrite client =>
      have hEnds : EndsStopped world (.clientWrite client) := endsStopped_of_ne nofun
      rw [and_iff_left hEnds, World.step, WritesInTime, Outdated]
      cases hClient : world.clients client with
      | none => exact iff_of_true hGood fun _ hSome => hSome rfl
      | some request =>
          have hStoppable : isStoppable request = true := by
            rcases hSound.clients client request hClient with rfl | rfl
            · rfl
            · rfl
          dsimp only
          rw [notLost_write_iff world (Eq.refl _) (by rfl) (by rfl), hStoppable]
          simp
  | requestDelete ultimate =>
      refine iff_of_true ⟨?_, endsStopped_of_ne nofun⟩ (writesInTime_of_not id)
      rw [World.step]
      split
      · exact hGood
      split
      · rename_i hStoppable
        intro hRequested
        have hNot := hGood ⟨hRequested.1, hRequested.2⟩
        exact nomatch hNot.symm.trans hStoppable
      · exact fun hRequested => nomatch hRequested.2
  | checkRead =>
      exact iff_of_true ⟨notLost_scanRead _ _ hGood, endsStopped_of_ne nofun⟩
        (writesInTime_of_not id)
  | startRead =>
      exact iff_of_true ⟨notLost_scanRead _ _ hGood, endsStopped_of_ne nofun⟩
        (writesInTime_of_not id)
  | endRead =>
      exact iff_of_true ⟨notLost_scanRead _ _ hGood, endsStopped_of_ne nofun⟩
        (writesInTime_of_not id)
  | scanWrite => exact scanWrite_iff hSound hGood
  | notice notice =>
      have hEnds : EndsStopped world (.notice notice) := endsStopped_of_ne nofun
      rw [and_iff_left hEnds, World.step, WritesInTime, Outdated]
      have hStoppable : isStoppable notice.status = true := by
        cases notice <;> rfl
      split
      · rename_i hReading
        rw [notLost_write_iff world (Eq.refl _) (by rfl) (by rfl), hStoppable]
        simp [hReading]
      · rename_i hOther
        exact iff_of_true hGood fun _ => hOther

end Steps

/-- A request to stop is kept, and the scan ends as stopped, exactly when nothing is
written after it that was decided before it, and the scanner sends no notice. -/
theorem stop_kept_iff {status : TaskStatus} (hStatus : isStoppable status = true)
    (steps : List Step) :
    Run.AllStates World.step NotLost (scanning status) steps ∧
        Run.AllSteps World.step EndsStopped (scanning status) steps ↔
      Run.AllSteps World.step WritesInTime (scanning status) steps := by
  have hStart : (scanning status).Sound ∧ NotLost (scanning status) := by
    refine ⟨⟨nofun, fun _ => ?_, trivial⟩, fun hRequested => nomatch hRequested.1⟩
    cases status <;> first | rfl | cases hStatus
  rw [Run.allStates_iff, and_iff_right hStart.2, ← Run.allSteps_and]
  refine Run.AllSteps.congr (fun world => world.Sound ∧ NotLost world) ?_ ?_ hStart steps
  · intro world step hInv hStep
    exact ⟨hInv.1.step step, hStep.1⟩
  · intro world step hInv
    exact step_iff hInv.1 hInv.2 step

def pausedBefore : List Step :=
  [.clientRead 0 .pause, .clientWrite 0, .stopRead, .stopWrite, .checkRead, .scanWrite, .endRead,
    .scanWrite]

/-- A pause that is written before the stop, and a scan that ends after it. -/
theorem stop_kept_iff_paused :
    Run.AllStates World.step NotLost (scanning .running) pausedBefore ∧
      Run.AllSteps World.step EndsStopped (scanning .running) pausedBefore ∧
      (pausedBefore.foldl World.step (scanning .running)).status = .stopped := by
  have hBefore (world : World) (step : Step) (h : world.stop ≠ .written) :
      WritesInTime world step := fun hRequested => absurd hRequested.1 h
  have hTime : Run.AllSteps World.step WritesInTime (scanning .running) pausedBefore :=
    ⟨hBefore _ _ (by decide), hBefore _ _ (by decide), hBefore _ _ (by decide),
      hBefore _ _ (by decide), writesInTime_of_not id, writesInTime_of_not nofun,
      writesInTime_of_not id, writesInTime_of_not nofun, trivial⟩
  obtain ⟨hStates, hSteps⟩ := (stop_kept_iff (by decide) pausedBefore).mpr hTime
  exact ⟨hStates, hSteps, by decide⟩

/-- The scanner says that the scan goes on, after the stop was passed on to it. -/
def resumedAfter : List Step :=
  [.stopRead, .stopWrite, .checkRead, .scanWrite, .notice .resume, .endRead, .scanWrite]

/-- A pause that was decided before the stop is written after it. -/
def pausedAfter : List Step := [.clientRead 0 .pause, .stopRead, .stopWrite, .clientWrite 0]

theorem stop_lost :
    (resumedAfter.foldl World.step (scanning .resumeWaiting)).status = .done ∧
      ¬ Run.AllStates World.step NotLost (scanning .resumeWaiting) resumedAfter ∧
      ¬ Run.AllSteps World.step EndsStopped (scanning .resumeWaiting) resumedAfter ∧
      (pausedAfter.foldl World.step (scanning .running)).status = .pauseRequested ∧
      ¬ Run.AllStates World.step NotLost (scanning .running) pausedAfter := by
  refine ⟨by decide, fun hStates => ?_, fun hSteps => ?_, by decide, fun hStates => ?_⟩
  · have hNotice := hStates.2.2.2.2.2.1
    exact absurd (hNotice ⟨rfl, rfl⟩) (by decide)
  · have hEnd := hSteps.2.2.2.2.2.2.1
    exact absurd (hEnd ⟨rfl, rfl⟩ rfl .running rfl).1 (by decide)
  · exact absurd (hStates.final ⟨rfl, rfl⟩) (by decide)

end Tasks
