import OpenVAS.Scheduler.Exclusive
import OpenVAS.Scheduler.Slots

/-! `launch_plugin` and the loop of `attack_host` around it. Where the host loop
of the scheduler only launches or skips a plugin, `launch_plugin` decides which,
and the loop counts the failed forks and ends when the host is dead. -/
namespace Scheduler

open CString

variable {n : Nat}

/-- The answer of `fork` to the parent, which is never 0. -/
structure Fork where
  pid : Int
  nonzero : pid ≠ 0

/-- What `launch_plugin` finds during one call: the launch status of the plugin,
the preferences, the status of the network scan, whether a status message was due
and is lost, what the knowledge base says about the plugin and the host, and the
answer of `fork`. -/
structure LaunchInputs where
  launch : Int
  safeChecks : Bool
  statusLost : Bool
  networkScan : Bool
  launchedBefore : Bool
  mandatoryMet : Bool
  optimize : Bool
  requirementsMet : Bool
  fork : Fork
  start : Int
  hostDead : Bool

/-- 0, `ERR_HOST_DEAD` or `ERR_CANT_FORK`. -/
inductive LaunchResult where
  | zero
  | hostDead
  | cantFork
  deriving DecidableEq, Repr

/-- The categories that safe checks leave out. -/
def unsafeCategory (category : Nat) : Bool :=
  category = actDestructiveAttack || category = actKillHost || category = actFlood ||
    category = actDenial

/-- Kills every process. The read in front of it only marks processes as ended,
which the loop does not look at. -/
def pluginlaunchStop (w : ProcessWorld n) (s : Sched n) : ProcessWorld n × Sched n :=
  let x := (List.finRange maxProcesses).foldl
    (fun x i => if x.1.Occupied i then endProcess x i else x) (w.table, s.state)
  ({ w with table := x.1 }, { s with state := x.2 })

def launchPlugin (table : PluginTable n) (config : LaunchConfig n) (oid : Fin n → Option CString)
    (inputs : LaunchInputs) (p : Fin n) (w : ProcessWorld n) (s : Sched n) :
    Except LaunchStop (LaunchResult × ProcessWorld n × Sched n) :=
  let done := pluginSetRunningState s p .done
  if oid p = none then .ok (.zero, w, s)
  else if inputs.launch ≠ launchDisabled ∨ table.category p = actSettings then
    if inputs.safeChecks ∧ unsafeCategory (table.category p) then .ok (.zero, w, done)
    else if inputs.statusLost then .ok (.hostDead, pluginlaunchStop w s)
    else if inputs.networkScan ∧ inputs.launchedBefore then .ok (.zero, w, done)
    else if (inputs.networkScan ∨ inputs.mandatoryMet) ∧
        (inputs.optimize = false ∨ inputs.requirementsMet) then
      match pluginLaunch table config p inputs.fork.pid inputs.start w s.state with
      | .error stop => .error stop
      | .ok (w, state) =>
          let s : Sched n := { s with state := state }
          if inputs.fork.pid < 0 then .ok (.cantFork, w, pluginSetRunningState s p .unrun)
          else if inputs.hostDead then
            let (w, s) := pluginlaunchStop w s
            .ok (.hostDead, w, pluginSetRunningState s p .done)
          else .ok (.zero, w, s)
    else .ok (.zero, w, done)
  else .ok (.zero, w, done)

/-- `MAX_FORK_RETRIES`. -/
def maxForkRetries : Nat := 10

/-- Where the loop of `attack_host` stands: it runs, it has been left, or a launch
has written in front of the process slots. -/
inductive LoopStatus where
  | looping
  | left
  | outOfBounds
  deriving DecidableEq, Repr

structure AttackHost (n : Nat) where
  host : Host n
  forksRetry : Nat
  status : LoopStatus

/-- The steps of the loop: the scheduler is called, the plugin it handed out is
launched, a wait for a process or, in a pause, for all of them, and the end when
the parent has died. -/
inductive AttackEvent where
  | next (fuel : Nat)
  | launch (inputs : LaunchInputs)
  | wait
  | pause
  | orphaned

/-- `attack_host` after a call of `launch_plugin` for the plugin `p`. -/
def AttackHost.launched (a : AttackHost n) (p : Fin n) :
    Except LaunchStop (LaunchResult × ProcessWorld n × Sched n) → AttackHost n
  | .error .waiting => a
  | .error .outOfBounds => { a with status := .outOfBounds }
  | .ok (.zero, world, sched) => { a with host := ⟨world, sched, none⟩ }
  | .ok (.hostDead, world, sched) => { a with host := ⟨world, sched, none⟩, status := .left }
  | .ok (.cantFork, world, sched) =>
      if a.forksRetry < maxForkRetries then
        { a with host := ⟨world, sched, some p⟩, forksRetry := a.forksRetry + 1 }
      else { a with host := ⟨world, sched, some p⟩, status := .left }

/-- One step of the loop; a step that is not possible or does not return changes
nothing. -/
def attackHostStep (table : PluginTable n) (config : LaunchConfig n)
    (oid : Fin n → Option CString) (a : AttackHost n) (event : AttackEvent) : AttackHost n :=
  if a.status = .looping then
    match event with
    | .next fuel =>
        match a.host.pending with
        | some _ => a
        | none =>
            match pluginsSchedulerNext table (pluginlaunch n) fuel a.host.world a.host.sched with
            | .ok (.null, world, sched) =>
                { a with host := ⟨world, sched, none⟩, status := .left }
            | .ok (answer, world, sched) => { a with host := ⟨world, sched, answer.plugin?⟩ }
            | .error _ => a
    | .launch inputs =>
        match a.host.pending with
        | none => a
        | some p => a.launched p (launchPlugin table config oid inputs p a.host.world a.host.sched)
    | .wait => { a with host := hostStep table config a.host .wait }
    | .pause => { a with host := hostStep table config a.host .pause }
    | .orphaned => { a with status := .left }
  else a

/-- The loop just after `pluginlaunch_init`. -/
def attackHostInit (maxChecks : Int) (rounds : List Round) (living : List Bool) (start : Sched n) :
    AttackHost n :=
  ⟨hostInit maxChecks rounds living start, 0, .looping⟩

/-- `launch_plugin` comes to the call of `plugin_launch`. -/
def LaunchInputs.Launches (inputs : LaunchInputs) (category : Nat) : Prop :=
  (inputs.launch ≠ launchDisabled ∨ category = actSettings) ∧
  ¬ (inputs.safeChecks ∧ unsafeCategory category) ∧ inputs.statusLost = false ∧
  ¬ (inputs.networkScan ∧ inputs.launchedBefore) ∧
  (inputs.networkScan ∨ inputs.mandatoryMet) ∧ (inputs.optimize = false ∨ inputs.requirementsMet)

instance (inputs : LaunchInputs) (category : Nat) : Decidable (inputs.Launches category) :=
  inferInstanceAs (Decidable (_ ∧ _))

/-- What a call of `launch_plugin` can do for a plugin with an OID: the host is
dead, the plugin is skipped, or it is launched. -/
theorem launchPlugin_cases (table : PluginTable n) (config : LaunchConfig n)
    {oid : Fin n → Option CString} (inputs : LaunchInputs) {p : Fin n} (hOid : oid p ≠ none)
    (w : ProcessWorld n) (s : Sched n) :
    (∃ w' s', launchPlugin table config oid inputs p w s = .ok (.hostDead, w', s')) ∨
    launchPlugin table config oid inputs p w s =
      .ok (.zero, w, pluginSetRunningState s p .done) ∨
    (inputs.Launches (table.category p) ∧ launchPlugin table config oid inputs p w s =
      (pluginLaunch table config p inputs.fork.pid inputs.start w s.state).map fun y =>
        if inputs.fork.pid < 0 then
          (.cantFork, y.1, pluginSetRunningState { s with state := y.2 } p .unrun)
        else (.zero, y.1, { s with state := y.2 })) := by
  unfold launchPlugin
  dsimp only
  rw [if_neg hOid]
  split
  case isFalse => exact Or.inr (Or.inl rfl)
  case isTrue hLaunch =>
    split
    case isTrue => exact Or.inr (Or.inl rfl)
    case isFalse hSafe =>
      split
      case isTrue => exact Or.inl ⟨_, _, rfl⟩
      case isFalse hStatus =>
        split
        case isTrue => exact Or.inr (Or.inl rfl)
        case isFalse hBefore =>
          split
          case isFalse => exact Or.inr (Or.inl rfl)
          case isTrue hMet =>
            have hLaunches : inputs.Launches (table.category p) :=
              ⟨hLaunch, hSafe, by simpa using hStatus, hBefore, hMet.1, hMet.2⟩
            cases hPid : pluginLaunch table config p inputs.fork.pid inputs.start w s.state with
            | error stop => exact Or.inr (Or.inr ⟨hLaunches, rfl⟩)
            | ok y =>
                dsimp only
                split
                case isTrue hNeg => exact Or.inr (Or.inr ⟨hLaunches, by simp [Except.map]⟩)
                case isFalse hNeg =>
                  split
                  case isTrue => exact Or.inl ⟨_, _, rfl⟩
                  case isFalse => exact Or.inr (Or.inr ⟨hLaunches, by simp [Except.map]⟩)

/-- After a failed fork the plugin is unrun. -/
theorem pluginLaunch_unrun {table : PluginTable n} {config : LaunchConfig n} {p : Fin n}
    {pid time : Int} {w w' : ProcessWorld n} {state state' : Fin n → RunningState}
    (hPid : ¬ 0 < pid)
    (h : pluginLaunch table config p pid time w state = .ok (w', state')) : state' p = .unrun := by
  rcases pluginLaunch_cases table config p pid time w state with
    hWait | ⟨rounds, x, living, rounds', y, -, -, hEq⟩
  · rw [hWait] at h
    cases h
  · rw [hEq] at h
    split at h
    case h_1 => cases h
    case h_2 r hSlot =>
      obtain ⟨-, rfl⟩ := Prod.mk.inj (Except.ok.inj h)
      simp [launchInto, hPid]

/-- While the loop of `attack_host` goes on, each of its steps is a step of the
host loop, or it does not return. A plugin is launched where `launch_plugin` comes
to it. -/
theorem attackHostStep_host {table : PluginTable n} {config : LaunchConfig n}
    {oid : Fin n → Option CString} (hOid : ∀ p, oid p ≠ none) (a : AttackHost n)
    (event : AttackEvent) (h : (attackHostStep table config oid a event).status = .looping) :
    (attackHostStep table config oid a event).host = a.host ∨
    ∃ step, (attackHostStep table config oid a event).host = hostStep table config a.host step ∧
      ∀ pid time, step = .launch pid time → ∃ inputs p, event = .launch inputs ∧
        a.host.pending = some p ∧ inputs.Launches (table.category p) ∧ inputs.fork.pid = pid := by
  unfold attackHostStep at h ⊢
  split at h
  case isFalse hEnded => exact absurd h hEnded
  case isTrue hLooping =>
    rw [if_pos hLooping]
    cases event with
    | next fuel =>
        refine Or.inr ⟨.next fuel, ?_, by simp⟩
        dsimp only at h ⊢
        rw [hostStep]
        cases hPending : a.host.pending with
        | some p => rfl
        | none =>
            simp only [hPending] at h
            dsimp only
            split
            case h_1 hNext => simp [hNext] at h
            case h_2 hNext => simp [hNext]
            case h_3 hNext => simp [hNext]
    | launch inputs =>
        dsimp only at h ⊢
        cases hPending : a.host.pending with
        | none => exact Or.inl rfl
        | some p =>
            simp only [hPending] at h
            dsimp only
            rcases launchPlugin_cases table config inputs (hOid p) a.host.world a.host.sched with
              ⟨w', s', hDead⟩ | hSkip | ⟨hLaunches, hLaunch⟩
            · simp [hDead, AttackHost.launched] at h
            · refine Or.inr ⟨.skip, ?_, by simp⟩
              simp [hSkip, AttackHost.launched, hostStep, hPending]
            · rw [hLaunch] at h ⊢
              cases hResult : pluginLaunch table config p inputs.fork.pid inputs.start a.host.world
                  a.host.sched.state with
              | error stop =>
                  cases stop with
                  | waiting => exact Or.inl rfl
                  | outOfBounds => simp [hResult, Except.map, AttackHost.launched] at h
              | ok y =>
                  refine Or.inr ⟨.launch inputs.fork.pid inputs.start, ?_, ?_⟩
                  · simp only [hResult, Except.map, AttackHost.launched, hostStep, hPending] at h ⊢
                    by_cases hNeg : inputs.fork.pid < 0
                    · have hPid : ¬ 0 < inputs.fork.pid := by omega
                      have hUnrun := pluginLaunch_unrun hPid hResult
                      have hSame : Function.update y.2 p .unrun = y.2 := by
                        rw [← hUnrun, Function.update_eq_self]
                      simp only [hNeg, if_true] at h ⊢
                      split
                      case isTrue => simp [pluginSetRunningState, hSame]
                      case isFalse hMany => simp [hMany] at h
                    · have hPid : 0 < inputs.fork.pid := by
                        have hZero := inputs.fork.nonzero
                        omega
                      simp [hNeg, hPid]
                  · rintro pid time hEq
                    cases hEq
                    exact ⟨inputs, p, rfl, rfl, hLaunches, rfl⟩
    | wait => exact Or.inr ⟨.wait, rfl, by simp⟩
    | pause => exact Or.inr ⟨.pause, rfl, by simp⟩
    | orphaned => simp at h

theorem launched_bounds {a : AttackHost n} {p : Fin n}
    {result : Except LaunchStop (LaunchResult × ProcessWorld n × Sched n)}
    (hLooping : a.status = .looping) (h : (a.launched p result).status = .outOfBounds) :
    result = .error .outOfBounds := by
  unfold AttackHost.launched at h
  split at h
  case h_2 => rfl
  case h_5 =>
    split at h
    · simp [hLooping] at h
    · simp at h
  all_goals simp [hLooping] at h

/-- Only a launch without a free slot writes in front of the slots. -/
theorem attackHostStep_bounds {table : PluginTable n} {config : LaunchConfig n}
    {oid : Fin n → Option CString} (hOid : ∀ p, oid p ≠ none) {a : AttackHost n}
    {event : AttackEvent} (hLooping : a.status = .looping)
    (h : (attackHostStep table config oid a event).status = .outOfBounds) :
    ∃ (inputs : LaunchInputs) (p : Fin n), a.host.pending = some p ∧
      pluginLaunch table config p inputs.fork.pid inputs.start a.host.world a.host.sched.state =
        .error .outOfBounds := by
  unfold attackHostStep at h
  rw [if_pos hLooping] at h
  cases event with
  | next fuel =>
      dsimp only at h
      split at h
      · simp [hLooping] at h
      · split at h <;> simp [hLooping] at h
  | launch inputs =>
      dsimp only at h
      split at h
      case h_1 => simp [hLooping] at h
      case h_2 p hPending =>
        have hResult := launched_bounds hLooping h
        rcases launchPlugin_cases table config inputs (hOid p) a.host.world a.host.sched with
          ⟨w', s', hDead⟩ | hSkip | ⟨-, hLaunch⟩
        · simp [hDead] at hResult
        · simp [hSkip] at hResult
        · rw [hLaunch] at hResult
          refine ⟨inputs, p, hPending, ?_⟩
          cases hLaunched : pluginLaunch table config p inputs.fork.pid inputs.start a.host.world
              a.host.sched.state with
          | error stop => simpa [hLaunched, Except.map] using hResult
          | ok y => simp [hLaunched, Except.map] at hResult
  | wait => simp [hLooping] at h
  | pause => simp [hLooping] at h
  | orphaned => simp at h

end Scheduler
