import OpenVAS.Lib.Run
import OpenVAS.Scheduler.Termination

/-! Safety of the scheduler over whole runs: calls of `plugins_scheduler_next` in
any order with plugins that finish and with failed launches. -/
namespace Scheduler

open CString Relation Filter

section Init
variable {plugins : List PluginArg}

theorem mem_categoryLists {c : Nat} {q : Fin plugins.length}
    (hq : q ∈ categoryLists plugins c) : c = listIndex plugins q := by
  refine Run.foldl_invariant (fun lists : Nat → List (Fin plugins.length) =>
      ∀ c, ∀ q ∈ lists c, c = listIndex plugins q)
    (fun lists p hLists c q hq => ?_) (by simp) (List.finRange plugins.length) c q hq
  rcases eq_or_ne c (listIndex plugins p) with rfl | hc
  · rcases List.mem_cons.mp (by simpa using hq) with rfl | hq
    · rfl
    · exact hLists _ q hq
  · exact hLists c q (by simpa [hc] using hq)

/-- A new scheduler holds unrun plugins in the lists of their categories. -/
theorem pluginsSchedulerInit_spec {fuel : Nat} {autoload onlyNetwork : Bool}
    {s : Sched plugins.length} (h : pluginsSchedulerInit plugins fuel autoload onlyNetwork = some s) :
    (∀ p, s.state p = .unrun) ∧ Indexed (pluginTable plugins) s := by
  unfold pluginsSchedulerInit at h
  split at h
  case isFalse => simp at h
  case isTrue =>
    obtain ⟨launch, -, rfl⟩ := Option.map_eq_some_iff.mp h
    refine ⟨fun _ => rfl, fun c q hq => ?_⟩
    dsimp only at hq
    split at hq
    case isTrue => simp at hq
    case isFalse => exact mem_categoryLists (List.mem_of_mem_filter hq)

end Init

variable {n : Nat} {table : PluginTable n}

/-- The plugin that an answer hands out. -/
def Answer.returned : Answer n → List (Fin n)
  | .null => []
  | .plugRunning => []
  | .plugin p _ => [p]

/-- The runs of a scheduler, with the plugins handed out and not reset since.
Between two calls running plugins finish, launched processes change the process
table, and a plugin whose launch failed is reset. -/
inductive SchedulerRun (table : PluginTable n) (L : Launcher n) (start : Sched n) :
    L.World → Sched n → List (Fin n) → Prop where
  | init {w : L.World} (hInv : L.Inv w start.state) : SchedulerRun table L start w start []
  | next {w : L.World} {s : Sched n} {returned : List (Fin n)} {fuel : Nat} {answer : Answer n}
      {w' : L.World} {s' : Sched n} (hRun : SchedulerRun table L start w s returned)
      (hNext : pluginsSchedulerNext table L fuel w s = .ok (answer, w', s')) :
      SchedulerRun table L start w' s' (answer.returned ++ returned)
  | launch {w : L.World} {s : Sched n} {returned : List (Fin n)} {w' : L.World}
      (hRun : SchedulerRun table L start w s returned) (hInv : L.Inv w' s.state) :
      SchedulerRun table L start w' s returned
  | finish {w : L.World} {s : Sched n} {returned : List (Fin n)} {w' : L.World} {p : Fin n}
      (hRun : SchedulerRun table L start w s returned) (hp : s.state p = .running)
      (hInv : L.Inv w' (pluginSetRunningState s p .done).state) :
      SchedulerRun table L start w' (pluginSetRunningState s p .done) returned
  | reset {w : L.World} {s : Sched n} {returned : List (Fin n)} {w' : L.World} {p : Fin n}
      (hRun : SchedulerRun table L start w s returned) (hp : s.state p = .running)
      (hInv : L.Inv w' (pluginSetRunningState s p .unrun).state) :
      SchedulerRun table L start w' (pluginSetRunningState s p .unrun)
        (returned.filter fun q => q ≠ p)

/-- What every reachable scheduler satisfies. -/
structure RunInv (table : PluginTable n) (L : Launcher n) (w : L.World) (s : Sched n)
    (returned : List (Fin n)) : Prop where
  consistent : L.Inv w s.state
  indexed : Indexed table s
  started : ∀ p ∈ returned, s.state p ≠ .unrun

/-- The state after a call in which a plugin was handed out. -/
theorem NextResult.started {L : Launcher n} {J : L.World → Sched n → Prop} {s s' : Sched n}
    {p : Fin n} {c : Nat} {w' : L.World} (h : NextResult table L J s (.plugin p c) w' s') :
    s.state p = .unrun ∧ s'.state p = .running ∧
      (∀ q, q ≠ p → Later (s.state q) (s'.state q)) ∧ ∀ d ∈ table.deps p, Finished (s'.state d) := by
  obtain ⟨mid, w, l, hLater, -, -, rfl, hUnrun, hReady, -⟩ := h
  refine ⟨(hLater.later p).unrun_iff.mp hUnrun, by simp, fun q hq => ?_, fun d hd => ?_⟩
  · simpa [hq] using hLater.later q
  · have hFinished := hReady d hd
    have hdp : d ≠ p := by
      rintro rfl
      simp [Finished, hUnrun] at hFinished
    simpa [hdp] using hFinished

theorem RunInv.next {L : Launcher n} {w : L.World} {s : Sched n} {returned : List (Fin n)}
    {fuel : Nat} {answer : Answer n} {w' : L.World} {s' : Sched n}
    (h : RunInv table L w s returned)
    (hNext : pluginsSchedulerNext table L fuel w s = .ok (answer, w', s')) :
    RunInv table L w' s' (answer.returned ++ returned) := by
  have hResult := pluginsSchedulerNext_result L.kept h.indexed h.consistent hNext
  cases answer with
  | null =>
      obtain ⟨hLater, hInv, -⟩ := hResult
      refine ⟨hInv, h.indexed.elapsed hLater, fun p hp => ?_⟩
      exact fun hUnrun => h.started p hp ((hLater.later p).unrun_iff.mp hUnrun)
  | plugRunning =>
      obtain ⟨hLater, hInv⟩ := hResult
      refine ⟨hInv, h.indexed.elapsed hLater, fun p hp => ?_⟩
      exact fun hUnrun => h.started p hp ((hLater.later p).unrun_iff.mp hUnrun)
  | plugin p c =>
      obtain ⟨-, hRunning, hOthers, -⟩ := hResult.started
      obtain ⟨mid, w₀, l, hLater, hInv, -, rfl, hUnrun, -⟩ := hResult
      refine ⟨L.inv_mono _ _ _ hInv fun q hq => ?_, ?_, fun q hq => ?_⟩
      · have hqp : q ≠ p := by
          rintro rfl
          simp [hUnrun] at hq
        simpa [hqp] using hq
      · exact fun c q hq => h.indexed.elapsed hLater c q (by simpa using hq)
      · rcases eq_or_ne q p with rfl | hqp
        · simp [hRunning]
        · have hq : q ∈ returned := by simpa [Answer.returned, hqp] using hq
          exact fun hUnrun => h.started q hq ((hOthers q hqp).unrun_iff.mp hUnrun)

/-- Setting one running plugin to another state. -/
theorem RunInv.set {L : Launcher n} {w w' : L.World} {s : Sched n} {returned : List (Fin n)}
    {p : Fin n} {state : RunningState} (h : RunInv table L w s returned)
    (hInv : L.Inv w' (pluginSetRunningState s p state).state)
    {returned' : List (Fin n)} (hSubset : ∀ q ∈ returned', q ∈ returned)
    (hp : p ∈ returned' → state ≠ .unrun) :
    RunInv table L w' (pluginSetRunningState s p state) returned' := by
  refine ⟨hInv, h.indexed, fun q hq => ?_⟩
  rcases eq_or_ne q p with rfl | hqp
  · simpa [pluginSetRunningState] using hp hq
  · simpa [pluginSetRunningState, hqp] using h.started q (hSubset q hq)

theorem SchedulerRun.inv {L : Launcher n} {start : Sched n}
    (hStart : ∀ w, L.Inv w start.state → RunInv table L w start [])
    {w : L.World} {s : Sched n} {returned : List (Fin n)}
    (h : SchedulerRun table L start w s returned) : RunInv table L w s returned := by
  induction h with
  | init hInv => exact hStart _ hInv
  | next _ hNext ih => exact ih.next hNext
  | launch _ hInv ih => exact ⟨hInv, ih.indexed, ih.started⟩
  | finish _ _ hInv ih => exact ih.set hInv (fun _ hq => hq) fun _ => by simp
  | reset _ _ hInv ih =>
      exact ih.set hInv (fun q hq => List.mem_of_mem_filter hq) fun hp => by simp at hp

theorem SchedulerRun.inv_of_init {plugins : List PluginArg} {fuel : Nat}
    {autoload onlyNetwork : Bool} {start : Sched plugins.length}
    (hInit : pluginsSchedulerInit plugins fuel autoload onlyNetwork = some start)
    {L : Launcher plugins.length} {w : L.World} {s : Sched plugins.length}
    {returned : List (Fin plugins.length)}
    (h : SchedulerRun (pluginTable plugins) L start w s returned) :
    RunInv (pluginTable plugins) L w s returned := by
  refine h.inv fun w hInv => ⟨hInv, (pluginsSchedulerInit_spec hInit).2, ?_⟩
  simp

/-- A launcher whose waits end when every running plugin has finished. -/
def finishAll (n : Nat) : Launcher n where
  World := Unit
  disableParrallelChecks w := w
  enableParrallelChecks w := w
  waitForFreeProcess w state :=
    if ∃ p, state p = .running then
      some (w, fun p => if state p = .running then .done else state p)
    else none
  Inv _ _ := True
  disable_inv _ _ h := h
  enable_inv _ _ h := h
  inv_mono _ _ _ h _ := h
  wait_inv _ _ _ _ _ _ := trivial
  wait_finishes w state w' state' _ h p := by
    split at h
    case isFalse => simp at h
    case isTrue =>
      obtain ⟨-, rfl⟩ : w = w' ∧ (fun p => if state p = .running then .done else state p) = state' := by
        simpa using h
      by_cases hp : state p = .running
      · simp [hp]
      · simp [hp]
  wait_progress w state w' state' _ h := by
    split at h
    case isFalse => simp at h
    case isTrue hSome =>
      obtain ⟨-, rfl⟩ : w = w' ∧ (fun p => if state p = .running then .done else state p) = state' := by
        simpa using h
      obtain ⟨p, hp⟩ := hSome
      exact ⟨p, hp, by simp [hp]⟩

/-- A scanner and a denial-of-service plugin that depends on it. -/
def scannerAndDenial : List PluginArg :=
  [{ name := lit "scan.nasl", oid := some (lit "1"), category := 1, dependencies := none,
     requiredPorts := none, launch := launchRun },
   { name := lit "dos.nasl", oid := some (lit "2"), category := 7,
     dependencies := some (lit "scan.nasl"), requiredPorts := none, launch := launchRun }]

theorem scannerAndDenial_acyclic : (pluginTable scannerAndDenial).Acyclic :=
  Acyclic.of_rank (fun p => p.val) (by decide +kernel)

/-- The scheduler after a call with that launcher, unchanged when it has no answer. -/
def afterNext (table : PluginTable n) (fuel : Nat) (s : Sched n) : Sched n :=
  match pluginsSchedulerNext table (finishAll n) fuel () s with
  | .ok (_, _, s') => s'
  | .error _ => s

/-- The answer of a call with that launcher. -/
def answerOf (table : PluginTable n) (fuel : Nat) (s : Sched n) : Option (Answer n) :=
  match pluginsSchedulerNext table (finishAll n) fuel () s with
  | .ok (answer, _, _) => some answer
  | .error _ => none

theorem next_eq_of_answerOf (table : PluginTable n) (fuel : Nat) (s : Sched n) (answer : Answer n)
    (h : answerOf table fuel s = some answer) :
    pluginsSchedulerNext table (finishAll n) fuel () s = .ok (answer, (), afterNext table fuel s) := by
  unfold answerOf at h
  unfold afterNext
  split at h
  case h_1 answer' w s' hNext =>
    obtain rfl := Option.some.inj h
    simp only [hNext]
    rfl
  case h_2 => simp at h

def scannerAndDenialStart : Sched scannerAndDenial.length :=
  (pluginsSchedulerInit scannerAndDenial 3 true false).get (by decide +kernel)

/-- The scanner has been handed out and has finished. -/
def scannerDone : Sched scannerAndDenial.length :=
  pluginSetRunningState (afterNext (pluginTable scannerAndDenial) 20 scannerAndDenialStart)
    ⟨0, by decide⟩ .done

theorem scannerAndDenialStart_eq :
    pluginsSchedulerInit scannerAndDenial 3 true false = some scannerAndDenialStart :=
  (Option.some_get _).symm

theorem scannerDone_run :
    SchedulerRun (pluginTable scannerAndDenial) (finishAll _) scannerAndDenialStart ()
      scannerDone [⟨0, by decide⟩] := by
  have hNext := next_eq_of_answerOf (pluginTable scannerAndDenial) 20 scannerAndDenialStart
    (.plugin ⟨0, by decide⟩ 1) (by decide +kernel)
  exact .finish (.next (.init trivial) hNext) (by decide +kernel) trivial

theorem scannerDone_next :
    pluginsSchedulerNext (pluginTable scannerAndDenial) (finishAll _) 20 () scannerDone =
      .ok (.plugin ⟨1, by decide⟩ 7, (), afterNext (pluginTable scannerAndDenial) 20 scannerDone) :=
  next_eq_of_answerOf (pluginTable scannerAndDenial) 20 scannerDone _ (by decide +kernel)

/-- In every run every call returns or waits for a process; a plugin it hands out
was unrun and is now running, has only finished dependencies and was not handed
out before, and NULL means that every plugin in the lists has finished. -/
theorem scheduler_safe {plugins : List PluginArg} {fuel : Nat} {autoload onlyNetwork : Bool}
    {start : Sched plugins.length}
    (hInit : pluginsSchedulerInit plugins fuel autoload onlyNetwork = some start)
    (hAcyclic : (pluginTable plugins).Acyclic) {L : Launcher plugins.length} {w : L.World}
    {s : Sched plugins.length} {returned : List (Fin plugins.length)}
    (hRun : SchedulerRun (pluginTable plugins) L start w s returned) :
    NextReturns (pluginTable plugins) L w s ∧
    ∀ fuel answer w' s',
      pluginsSchedulerNext (pluginTable plugins) L fuel w s = .ok (answer, w', s') →
      (∀ p c, answer = .plugin p c → s.state p = .unrun ∧ s'.state p = .running ∧
        (∀ d ∈ (pluginTable plugins).deps p, s'.state d = .done ∨ s'.state d = .doneAndCleaned) ∧
        p ∉ returned) ∧
      (answer = .null → ∀ c, ∀ q ∈ s.list c, s'.state q ≠ .unrun ∧ s'.state q ≠ .running) := by
  have hInv := hRun.inv_of_init hInit
  refine ⟨?_, fun fuel answer w' s' hNext => ⟨?_, ?_⟩⟩
  · filter_upwards [next_returns_of_acyclic hAcyclic L] with fuel hFuel
    exact hFuel w s hInv.consistent
  · rintro p c rfl
    obtain ⟨hUnrun, hRunning, -, hDeps⟩ :=
      (pluginsSchedulerNext_result L.kept hInv.indexed hInv.consistent hNext).started
    exact ⟨hUnrun, hRunning, hDeps, fun hp => hInv.started p hp hUnrun⟩
  · rintro rfl c q hq
    obtain ⟨hLater, -, hEmpty⟩ :=
      pluginsSchedulerNext_result L.kept hInv.indexed hInv.consistent hNext
    have hLast : c ≤ actLast := by
      rw [hInv.indexed c q hq]
      exact min_le_right _ _
    exact finished_iff.mp (hLater.finished (hEmpty c hLast) hq)

theorem scheduler_safe_scanner_done :
    pluginsSchedulerInit scannerAndDenial 3 true false = some scannerAndDenialStart ∧
    (pluginTable scannerAndDenial).Acyclic ∧
    NextReturns (pluginTable scannerAndDenial) (finishAll _) () scannerDone ∧
    (afterNext (pluginTable scannerAndDenial) 20 scannerDone).state ⟨1, by decide⟩ = .running := by
  have hSafe := scheduler_safe scannerAndDenialStart_eq scannerAndDenial_acyclic scannerDone_run
  exact ⟨scannerAndDenialStart_eq, scannerAndDenial_acyclic, hSafe.1,
    ((hSafe.2 _ _ _ _ scannerDone_next).1 _ _ rfl).2.1⟩

/-- In every run, when a call hands out a plugin while it visits the list of DENIAL
or a later one, every plugin of a lower category that was in the lists has
finished. -/
theorem denial_barrier {plugins : List PluginArg} {initFuel : Nat} {autoload onlyNetwork : Bool}
    {start : Sched plugins.length}
    (hInit : pluginsSchedulerInit plugins initFuel autoload onlyNetwork = some start)
    {L : Launcher plugins.length} {w : L.World} {s : Sched plugins.length}
    {returned : List (Fin plugins.length)}
    (hRun : SchedulerRun (pluginTable plugins) L start w s returned)
    {fuel : Nat} {p : Fin plugins.length} {visited : Nat} {w' : L.World}
    {s' : Sched plugins.length}
    (hNext : pluginsSchedulerNext (pluginTable plugins) L fuel w s =
      .ok (.plugin p visited, w', s'))
    (hVisited : actDenial ≤ visited) :
    ∀ c, ∀ q ∈ s.list c, c < actDenial ∨ (pluginTable plugins).category q < actDenial →
      s'.state q ≠ .unrun ∧ s'.state q ≠ .running := by
  intro c q hq hBelow
  have hInv := hRun.inv_of_init hInit
  obtain ⟨mid, -, l, hLater, -, -, rfl, hUnrun, -, -, -, -, -, -, hBarrier⟩ :=
    pluginsSchedulerNext_result L.kept hInv.indexed hInv.consistent hNext
  have hc : c < actDenial := by
    rcases hBelow with hc | hCategory
    · exact hc
    · rw [hInv.indexed c q hq]
      exact min_lt_of_left_lt hCategory
  have hFinished : Finished (mid.state q) := hLater.finished (hBarrier hVisited c hc) hq
  have hqp : q ≠ p := by
    rintro rfl
    simp [Finished, hUnrun] at hFinished
  simpa [hqp] using finished_iff.mp hFinished

theorem denial_barrier_scanner_done :
    ⟨0, by decide⟩ ∈ scannerDone.list actScanner ∧
    (afterNext (pluginTable scannerAndDenial) 20 scannerDone).state ⟨0, by decide⟩ ≠ .running := by
  have hMem : ⟨0, by decide⟩ ∈ scannerDone.list actScanner := by decide +kernel
  have hBarrier := denial_barrier scannerAndDenialStart_eq scannerDone_run scannerDone_next (by decide)
  exact ⟨hMem, (hBarrier actScanner ⟨0, by decide⟩ hMem (Or.inl (by decide))).2⟩

end Scheduler
