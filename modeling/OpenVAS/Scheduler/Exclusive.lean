import OpenVAS.Scheduler.Processes
import OpenVAS.Scheduler.Safety

/-! The host loop of `attack_host`: the scheduler hands out plugins, the launcher
runs them in its process table. Scanners and denial-of-service plugins must not
run in parallel with anything; they do not as long as the lists keep them apart. -/
namespace Scheduler

open CString Relation

variable {n : Nat} {table : PluginTable n}

/-- The host loop between two steps, with the plugin that is to be launched. -/
structure Host (n : Nat) where
  world : ProcessWorld n
  sched : Sched n
  pending : Option (Fin n)

/-- The steps of the host loop. After an answer its plugin is launched, with the
process id and the time of the launch, or `launch_plugin` skips it; else the loop
calls the scheduler, waits for a process or pauses. -/
inductive HostEvent where
  | next (fuel : Nat)
  | launch (pid start : Int)
  | skip
  | wait
  | pause

/-- The plugin of an answer. -/
def Answer.plugin? : Answer n → Option (Fin n)
  | .null => none
  | .plugRunning => none
  | .plugin p _ => some p

/-- The host loop after a wait. -/
def Host.after (h : Host n) : Option (ProcessWorld n × (Fin n → RunningState)) → Host n
  | some (world, state) => { h with world := world, sched := { h.sched with state := state } }
  | none => h

/-- One step of the host loop; a step that is not possible or does not return
changes nothing. After a failed fork the same plugin is launched again. -/
def hostStep (table : PluginTable n) (config : LaunchConfig n) (h : Host n) : HostEvent → Host n
  | .next fuel =>
      match h.pending with
      | some _ => h
      | none =>
          match pluginsSchedulerNext table (pluginlaunch n) fuel h.world h.sched with
          | .ok (answer, world, sched) => ⟨world, sched, answer.plugin?⟩
          | .error _ => h
  | .launch pid start =>
      match h.pending with
      | none => h
      | some p =>
          match pluginLaunch table config p pid start h.world h.sched.state with
          | .ok (world, state) =>
              ⟨world, { h.sched with state := state }, if 0 < pid then none else some p⟩
          | .error _ => h
  | .skip =>
      match h.pending with
      | none => h
      | some p => { h with sched := pluginSetRunningState h.sched p .done, pending := none }
  | .wait =>
      match h.pending with
      | some _ => h
      | none => h.after (pluginlaunchWaitForFreeProcess h.world h.sched.state)
  | .pause =>
      match h.pending with
      | some _ => h
      | none => h.after (pluginlaunchWait h.world h.sched.state)

/-- A launch whose fork succeeds, or any other step. -/
def HostEvent.Forks : HostEvent → Prop
  | .launch pid _ => 0 < pid
  | _ => True

/-- While a plugin of an exclusive category occupies a slot, nothing occupies
another one. -/
def Exclusive (table : PluginTable n) (t : Processes n) : Prop :=
  ∀ i p, t.Occupied i → (t.processes i).plugin = some p → exclusiveCategory (table.category p) →
    ∀ j, t.Occupied j → j = i

/-- The lists keep exclusive plugins apart: those on which a plugin of another list
depends are in an earlier list, and either the lists from DENIAL to FLOOD or the
list of END is empty. -/
structure KeptApart (table : PluginTable n) (start : Sched n) : Prop where
  dependencies : ∀ c, exclusiveCategory c = false → ∀ l ∈ start.list c, ∀ x,
    TransGen table.Depends l x → exclusiveCategory (table.category x) →
    ∃ c' < c, x ∈ start.list c'
  ends : start.list actEnd = [] ∨ ∀ c, actDenial ≤ c → c < actEnd → start.list c = []

/-- An exclusive plugin runs because of a plugin in an exclusive list, below which
the lists have been emptied. -/
def Origin (table : PluginTable n) (s : Sched n) (x : Fin n) : Prop :=
  ∃ c l, exclusiveCategory c ∧ l ∈ s.list c ∧ ReflTransGen table.Depends l x ∧
    (∀ c' < c, c' ≤ actSettings → s.list c' = []) ∧
    (actDenial ≤ c → ∀ c' < actDenial, s.list c' = [])

/-- The invariant of the scheduler's part. -/
structure SchedInv (table : PluginTable n) (start s : Sched n) : Prop where
  indexed : Indexed table s
  subset : ∀ c, ∀ q ∈ s.list c, q ∈ start.list c
  removed : ∀ c, ∀ q ∈ start.list c, q ∈ s.list c ∨ Finished (s.state q)
  closed : ∀ q, s.state q ≠ .unrun → Ready table s q
  origin : KeptApart table start → ∀ x, s.state x = .running →
    exclusiveCategory (table.category x) → Origin table s x

/-- What a finished plugin depends on has finished. -/
theorem finished_of_path {s : Sched n} (hClosed : ∀ q, s.state q ≠ .unrun → Ready table s q)
    {l x : Fin n} (hPath : ReflTransGen table.Depends l x) (hl : Finished (s.state l)) :
    Finished (s.state x) := by
  induction hPath with
  | refl => exact hl
  | tail _ hEdge ih => exact hClosed _ (finished_iff.mp ih).1 _ hEdge

theorem SchedInv.elapsed {start s s' : Sched n} (h : SchedInv table start s)
    (hLater : Elapsed s s') : SchedInv table start s' := by
  have hClosed : ∀ q, s'.state q ≠ .unrun → Ready table s' q := by
    intro q hq d hd
    have hq' : s.state q ≠ .unrun := fun hUnrun => hq ((hLater.later q).unrun_iff.mpr hUnrun)
    exact (hLater.later d).finished (h.closed q hq' d hd)
  refine ⟨h.indexed.elapsed hLater, fun c q hq => h.subset c q ((hLater.sublist c).subset hq),
    fun c q hq => ?_, hClosed, fun hApart x hx hExclusive => ?_⟩
  · rcases h.removed c q hq with hq | hq
    · exact hLater.removed c q hq
    · exact Or.inr ((hLater.later q).finished hq)
  · obtain ⟨c, l, hc, hl, hPath, hEarly, hBarrier⟩ :=
      h.origin hApart x ((hLater.later x).running hx) hExclusive
    refine ⟨c, l, hc, ?_, hPath, fun c' hc' hle => hLater.empty (hEarly c' hc' hle),
      fun hDenial c' hc' => hLater.empty (hBarrier hDenial c' hc')⟩
    rcases hLater.removed c l hl with hl | hl
    · exact hl
    · exact absurd hx (finished_iff.mp (finished_of_path hClosed hPath hl)).2

/-- The categories of exclusive plugins. -/
theorem exclusiveCategory_iff {c : Nat} :
    exclusiveCategory c = true ↔ c = 1 ∨ c = 7 ∨ c = 8 ∨ c = 9 := by
  change (decide (c = 1) || decide (c = 8) || decide (c = 9) || decide (c = 7)) = true ↔ _
  simp only [Bool.or_eq_true, decide_eq_true_eq]
  omega

/-- A plugin handed out from a list that is not exclusive is itself not exclusive. -/
theorem SchedInv.handed_out {start mid : Sched n} (h : SchedInv table start mid)
    (hApart : KeptApart table start) {c : Nat} {l p : Fin n} (hc : exclusiveCategory c = false)
    (hl : l ∈ mid.list c) (hPath : ReflTransGen table.Depends l p) (hUnrun : mid.state p = .unrun)
    (hEarly : ∀ c' < c, c' ≤ actSettings → mid.list c' = []) :
    exclusiveCategory (table.category p) = false := by
  by_contra hp
  have hp : exclusiveCategory (table.category p) = true := by simpa using hp
  have hIndex := h.indexed c l hl
  have hCategory := exclusiveCategory_iff.mp hp
  have hc' := mt exclusiveCategory_iff.mpr (by simpa using hc)
  rcases reflTransGen_iff_eq_or_transGen.mp hPath with rfl | hTrans
  · simp only [actLast, actEnd] at hIndex
    omega
  · obtain ⟨c', hLt, hStart⟩ := hApart.dependencies c hc l (h.subset c l hl) p hTrans hp
    rcases h.removed c' p hStart with hMem | hFinished
    · have hIndex' := h.indexed c' p hMem
      simp only [actLast, actEnd] at hIndex hIndex'
      rcases hCategory with hScanner | hDenial
      · have hEmpty := hEarly c' hLt (by simp only [actSettings]; omega)
        simp [hEmpty] at hMem
      · have hEnd : c = actEnd := by simp only [actEnd]; omega
        subst hEnd
        rcases hApart.ends with hNil | hNil
        · have hl' := h.subset _ l hl
          simp [hNil] at hl'
        · have hEmpty := hNil c' (by simp only [actDenial]; omega) hLt
          simp [hEmpty] at hStart
    · simp [Finished, hUnrun] at hFinished

/-- While a plugin can be handed out from a list that is not exclusive, no exclusive
plugin runs. -/
theorem SchedInv.none_running {start mid : Sched n} (h : SchedInv table start mid)
    (hApart : KeptApart table start) {c : Nat} {l : Fin n} (hc : exclusiveCategory c = false)
    (hl : l ∈ mid.list c) (hEarly : ∀ c' < c, c' ≤ actSettings → mid.list c' = []) {x : Fin n}
    (hx : mid.state x = .running) : exclusiveCategory (table.category x) = false := by
  by_contra hp
  have hp : exclusiveCategory (table.category x) = true := by simpa using hp
  obtain ⟨c₁, l₁, hc₁, hl₁, -, hEarly₁, hBarrier₁⟩ := h.origin hApart x hx hp
  have hIndex := h.indexed c l hl
  have hList : ∀ {c' : Nat} {q : Fin n}, q ∈ mid.list c' → mid.list c' ≠ [] := by
    intro c' q hq hNil
    simp [hNil] at hq
  have hc' := mt exclusiveCategory_iff.mpr (by simpa using hc)
  simp only [actLast, actEnd, actSettings, actDenial] at hIndex hEarly hEarly₁ hBarrier₁
  rcases exclusiveCategory_iff.mp hc₁ with rfl | hDenial
  · -- the scanners' list was visited, so the list of INIT is empty and c lies above
    rcases Nat.lt_or_ge c 1 with hLt | hGe
    · exact hList hl (hEarly₁ c hLt (by omega))
    · exact hList hl₁ (hEarly 1 (by omega) (by omega))
  · rcases Nat.lt_or_ge c 7 with hLt | hGe
    · exact hList hl (hBarrier₁ (by omega) c hLt)
    · have hEnd : c = actEnd := by simp only [actEnd]; omega
      subst hEnd
      rcases hApart.ends with hNil | hNil
      · have hStart := h.subset _ l hl
        simp [hNil] at hStart
      · have hStart := h.subset c₁ l₁ hl₁
        rw [hNil c₁ (by simp only [actDenial]; omega) (by simp only [actEnd]; omega)] at hStart
        simp at hStart

/-- A plugin is handed out and keeps the invariant. -/
theorem SchedInv.start {start mid : Sched n} (h : SchedInv table start mid) {c : Nat} {l p : Fin n}
    (hUnrun : mid.state p = .unrun) (hReady : Ready table mid p) (hl : l ∈ mid.list c)
    (hPath : ReflTransGen table.Depends l p)
    (hEarly : ∀ c' < c, c' ≤ actSettings → mid.list c' = [])
    (hBarrier : actDenial ≤ c → ∀ c' < actDenial, mid.list c' = []) :
    SchedInv table start (startPlugin table mid p) := by
  have hFinished {d : Fin n} (hd : Finished (mid.state d)) :
      Finished ((startPlugin table mid p).state d) := by
    have hdp : d ≠ p := by
      rintro rfl
      simp [Finished, hUnrun] at hd
    simpa [hdp] using hd
  refine ⟨by simpa [Indexed] using h.indexed, by simpa using h.subset, fun c q hq => ?_,
    fun q hq d hd => ?_, fun hApart x hx hExclusive => ?_⟩
  · rcases h.removed c q hq with hq | hq
    · exact Or.inl (by simpa using hq)
    · exact Or.inr (hFinished hq)
  · rcases eq_or_ne q p with rfl | hqp
    · exact hFinished (hReady d hd)
    · exact hFinished (h.closed q (by simpa [hqp] using hq) d hd)
  · rcases eq_or_ne x p with rfl | hxp
    · refine ⟨c, l, ?_, by simpa using hl, hPath, by simpa using hEarly, by simpa using hBarrier⟩
      by_contra hc
      have hNot := h.handed_out hApart (by simpa using hc) hl hPath hUnrun hEarly
      simp [hExclusive] at hNot
    · simpa [Origin] using h.origin hApart x (by simpa [hxp] using hx) hExclusive

/-- The invariant of the host loop that a call of the scheduler keeps until it
hands out a plugin. -/
structure Between (table : PluginTable n) (start : Sched n) (maxChecks : Int)
    (w : ProcessWorld n) (s : Sched n) : Prop where
  consistent : Consistent w.table s.state
  oldMax : w.table.oldMaxRunningProcesses = maxChecks
  exclusive : Exclusive table w.table
  sched : SchedInv table start s

theorem Exclusive.freed {x x' : Launching n} (h : Exclusive table x.1) (hFreed : Freed x x') :
    Exclusive table x'.1 := by
  intro i p hi hp hExclusive j hj
  obtain ⟨hi', hPlugin⟩ := hFreed.slot i hi
  exact h i p hi' (hPlugin.symm.trans hp) hExclusive j (hFreed.slot j hj).1

theorem Freed.elapsed {t t' : Processes n} {s : Sched n} {state : Fin n → RunningState}
    (h : Freed (t, s.state) (t', state)) : Elapsed s { s with state := state } := by
  refine ⟨fun p => ?_, fun _ => List.Sublist.refl _, fun _ _ hq => Or.inl hq⟩
  rcases h.state p with hp | ⟨hp, hp'⟩
  · exact Or.inl hp
  · exact Or.inr (Or.inl ⟨hp, Or.inl hp'⟩)

theorem Between.freed {start s : Sched n} {maxChecks : Int} {w w' : ProcessWorld n}
    {state : Fin n → RunningState} (h : Between table start maxChecks w s)
    (hFreed : Freed (w.table, s.state) (w'.table, state)) :
    Between table start maxChecks w' { s with state := state } :=
  ⟨hFreed.consistent, hFreed.oldMax.trans h.oldMax, h.exclusive.freed hFreed,
    h.sched.elapsed hFreed.elapsed⟩

theorem between_kept (start : Sched n) (maxChecks : Int) :
    Kept (pluginlaunch n) (Between table start maxChecks) where
  inv _ _ h := h.consistent
  disable w s h := ⟨(pluginlaunch n).disable_inv w s.state h.consistent, h.oldMax, h.exclusive, h.sched⟩
  enable w s h := ⟨(pluginlaunch n).enable_inv w s.state h.consistent, h.oldMax, h.exclusive, h.sched⟩
  walk w s s' hCleaned h :=
    ⟨(pluginlaunch n).inv_mono w s.state s'.state h.consistent hCleaned.running, h.oldMax,
      h.exclusive, h.sched.elapsed hCleaned.toElapsed⟩
  wait _ _ _ _ h hWait := h.freed (freed_pushDoWhile h.consistent hWait).1

/-- The invariant of the host loop: a plugin that is to be launched runs in no slot
yet, and it will be alone or among plugins that are not exclusive. -/
structure HostInv (table : PluginTable n) (start : Sched n) (maxChecks : Int) (h : Host n) : Prop
    extends Between table start maxChecks h.world h.sched where
  waiting : ∀ p, h.pending = some p → h.sched.state p = .running ∧
    ∀ i, h.world.table.Occupied i → (h.world.table.processes i).plugin ≠ some p
  limit : ∀ p, h.pending = some p → h.world.table.maxRunningProcesses ≤ 1 ∨
    ∀ x, h.sched.state x = .running → exclusiveCategory (table.category x) = false

theorem HostInv.of_between {start s : Sched n} {maxChecks : Int} {w : ProcessWorld n}
    (h : Between table start maxChecks w s) : HostInv table start maxChecks ⟨w, s, none⟩ :=
  ⟨h, by simp, by simp⟩

/-- The limit on parallel processes after the visit of a category. -/
theorem setFor_max {w w' : ProcessWorld n} {c : Nat} (h : w' = (pluginlaunch n).setFor c w) :
    w'.table.maxRunningProcesses =
      if exclusiveCategory c then 1 else w'.table.oldMaxRunningProcesses := by
  subst h
  unfold Launcher.setFor
  split <;> rfl

theorem HostInv.next {start s : Sched n} {maxChecks : Int} {w : ProcessWorld n}
    (hCondition : maxChecks ≤ 1 ∨ KeptApart table start)
    (h : Between table start maxChecks w s) {fuel : Nat} {answer : Answer n}
    {w' : ProcessWorld n} {s' : Sched n}
    (hNext : pluginsSchedulerNext table (pluginlaunch n) fuel w s = .ok (answer, w', s')) :
    HostInv table start maxChecks ⟨w', s', answer.plugin?⟩ := by
  have hResult := pluginsSchedulerNext_result (between_kept start maxChecks) h.sched.indexed h hNext
  cases answer with
  | null => exact HostInv.of_between hResult.2.1
  | plugRunning => exact HostInv.of_between hResult.2
  | plugin p c =>
      obtain ⟨mid, w₀, l, -, hMid, hSet, rfl, hUnrun, hReady, -, hl, -, hPath, hEarly, hBarrier⟩ :=
        hResult
      have hRunning : ∀ q, mid.state q = .running →
          q ≠ p ∧ (startPlugin table mid p).state q = .running := by
        intro q hq
        have hqp : q ≠ p := by
          rintro rfl
          simp [hUnrun] at hq
        exact ⟨hqp, by simpa [hqp] using hq⟩
      have hSched := hMid.sched.start hUnrun hReady hl hPath hEarly hBarrier
      refine ⟨⟨?_, hMid.oldMax, hMid.exclusive, hSched⟩, fun q hq => ?_, fun q hq => ?_⟩
      · exact (pluginlaunch n).inv_mono _ _ _ hMid.consistent fun q hq => (hRunning q hq).2
      · obtain rfl : p = q := by simpa [Answer.plugin?] using hq
        refine ⟨by simp, fun i hi hPlugin => ?_⟩
        obtain ⟨r, hr, hState⟩ := hMid.consistent.running i hi
        obtain rfl : p = r := Option.some.inj (hPlugin.symm.trans hr)
        simp [hUnrun] at hState
      · have hLimit := setFor_max hSet
        rw [hMid.oldMax] at hLimit
        rcases Bool.eq_false_or_eq_true (exclusiveCategory c) with hc | hc
        · exact Or.inl (by simp [hLimit, hc])
        · rcases hCondition with hMax | hApart
          · exact Or.inl (by simpa [hLimit, hc] using hMax)
          · refine Or.inr fun x hx => ?_
            rcases eq_or_ne x p with rfl | hxp
            · exact hMid.sched.handed_out hApart hc hl hPath hUnrun hEarly
            · exact hMid.sched.none_running hApart hc hl hEarly (by simpa [hxp] using hx)

theorem HostInv.launch {start : Sched n} {maxChecks : Int} {h : Host n}
    (hInv : HostInv table start maxChecks h) {config : LaunchConfig n} {p : Fin n}
    (hp : h.pending = some p) {pid time : Int} (hPid : 0 < pid) {w' : ProcessWorld n}
    {state : Fin n → RunningState}
    (hLaunch : pluginLaunch table config p pid time h.world h.sched.state = .ok (w', state)) :
    Between table start maxChecks w' { h.sched with state := state } := by
  obtain ⟨hRunning, hAbsent⟩ := hInv.waiting p hp
  obtain ⟨t, r, hLaunched⟩ := pluginLaunch_launched hInv.consistent hPid hLaunch
  have hConsistent := hLaunched.consistent hAbsent hRunning
  refine ⟨hConsistent, ?_, ?_, hInv.sched.elapsed hLaunched.freed.elapsed⟩
  · exact hLaunched.oldMax.trans (hLaunched.freed.oldMax.trans hInv.oldMax)
  · intro i q hi hq hExclusive j hj
    rcases hInv.limit p hp with hMax | hNone
    · have hOnly : ∀ k, w'.table.Occupied k → k = r := by
        intro k hk
        by_contra hkr
        refine hLaunched.alone hMax k ?_
        simpa [Processes.Occupied, hLaunched.other k hkr] using hk
      exact (hOnly j hj).trans (hOnly i hi).symm
    · obtain ⟨x, hx, hState⟩ := hConsistent.running i hi
      obtain rfl : q = x := Option.some.inj (hq.symm.trans hx)
      have hBefore := (hLaunched.freed.elapsed.later q).running hState
      simp [hNone q hBefore] at hExclusive

theorem HostInv.skip {start : Sched n} {maxChecks : Int} {h : Host n}
    (hInv : HostInv table start maxChecks h) {p : Fin n} (hp : h.pending = some p) :
    Between table start maxChecks h.world (pluginSetRunningState h.sched p .done) := by
  obtain ⟨hRunning, hAbsent⟩ := hInv.waiting p hp
  refine ⟨⟨fun i hi => ?_, hInv.consistent.single, hInv.consistent.count⟩, hInv.oldMax,
    hInv.exclusive, hInv.sched.elapsed ⟨fun q => ?_, fun _ => List.Sublist.refl _,
      fun _ _ hq => Or.inl hq⟩⟩
  · obtain ⟨q, hq, hState⟩ := hInv.consistent.running i hi
    have hqp : q ≠ p := by
      rintro rfl
      exact hAbsent i hi hq
    exact ⟨q, hq, by simpa [pluginSetRunningState, hqp] using hState⟩
  · rcases eq_or_ne q p with rfl | hqp
    · exact Or.inr (Or.inl ⟨hRunning, Or.inl (by simp [pluginSetRunningState])⟩)
    · exact Or.inl (by simp [pluginSetRunningState, hqp])

theorem HostInv.after {start : Sched n} {maxChecks : Int} {h : Host n}
    (hInv : HostInv table start maxChecks h) (hNone : h.pending = none)
    {go : Processes n → Bool} :
    HostInv table start maxChecks (h.after (pushDoWhile go h.world h.sched.state)) := by
  unfold Host.after
  split
  case h_1 world state hWait =>
    have hBetween := hInv.toBetween.freed (freed_pushDoWhile hInv.consistent hWait).1
    exact ⟨hBetween, by simp [hNone], by simp [hNone]⟩
  case h_2 => exact hInv

/-- Every step of the host loop whose fork succeeds keeps the invariant. -/
theorem HostInv.step {start : Sched n} {maxChecks : Int} {config : LaunchConfig n} {h : Host n}
    (hCondition : maxChecks ≤ 1 ∨ KeptApart table start)
    (hInv : HostInv table start maxChecks h) {event : HostEvent} (hForks : event.Forks) :
    HostInv table start maxChecks (hostStep table config h event) := by
  cases event with
  | next fuel =>
      rw [hostStep]
      split
      case h_1 => exact hInv
      case h_2 =>
        split
        case h_1 answer world sched hNext => exact HostInv.next hCondition hInv.toBetween hNext
        case h_2 => exact hInv
  | launch pid time =>
      rw [hostStep]
      split
      case h_1 => exact hInv
      case h_2 p hp =>
        split
        case h_1 world state hLaunch =>
          have hPid : 0 < pid := hForks
          rw [if_pos hPid]
          exact HostInv.of_between (hInv.launch hp hPid hLaunch)
        case h_2 => exact hInv
  | skip =>
      rw [hostStep]
      split
      case h_1 => exact hInv
      case h_2 p hp => exact HostInv.of_between (hInv.skip hp)
  | wait =>
      rw [hostStep]
      split
      case h_1 => exact hInv
      case h_2 hNone => exact hInv.after hNone
  | pause =>
      rw [hostStep]
      split
      case h_1 => exact hInv
      case h_2 hNone => exact hInv.after hNone

/-- The host loop just after `pluginlaunch_init`. -/
def hostInit (maxChecks : Int) (rounds : List Round) (living : List Bool) (start : Sched n) :
    Host n :=
  ⟨pluginlaunchInit maxChecks rounds living, start, none⟩

theorem hostInv_init {maxChecks : Int} {rounds : List Round} {living : List Bool} {start : Sched n}
    (hUnrun : ∀ p, start.state p = .unrun) (hIndexed : Indexed table start) :
    HostInv table start maxChecks (hostInit maxChecks rounds living start) := by
  have hFree : ∀ i, ¬ (pluginlaunchInit maxChecks rounds living : ProcessWorld n).table.Occupied i := by
    intro i
    simp [pluginlaunchInit, Processes.Occupied, Running.zero]
  refine HostInv.of_between ⟨⟨fun i hi => absurd hi (hFree i), fun i j hi => absurd hi (hFree i),
    ?_⟩, rfl, fun i p hi => absurd hi (hFree i), ⟨hIndexed, fun _ _ hq => hq, fun _ _ hq => Or.inl hq,
      fun q hq => absurd (hUnrun q) hq, fun _ x hx => ?_⟩⟩
  · rw [Finset.filter_false_of_mem fun i _ => hFree i]
    rfl
  · simp [hUnrun x] at hx

/-- A scanner, a plugin that depends on it, and a denial-of-service plugin. -/
def scannerInfoDenial : List PluginArg :=
  [{ name := lit "scan.nasl", oid := some (lit "1"), category := 1, dependencies := none,
     requiredPorts := none, launch := launchRun },
   { name := lit "info.nasl", oid := some (lit "2"), category := 3,
     dependencies := some (lit "scan.nasl"), requiredPorts := none, launch := launchRun },
   { name := lit "dos.nasl", oid := some (lit "3"), category := 7, dependencies := none,
     requiredPorts := none, launch := launchRun }]

def scannerInfoDenialStart : Sched scannerInfoDenial.length :=
  (pluginsSchedulerInit scannerInfoDenial 4 true false).get (by decide +kernel)

theorem scannerInfoDenialStart_eq :
    pluginsSchedulerInit scannerInfoDenial 4 true false = some scannerInfoDenialStart :=
  (Option.some_get _).symm

theorem scannerInfoDenial_keptApart :
    KeptApart (pluginTable scannerInfoDenial) scannerInfoDenialStart := by
  have hIndexed := (pluginsSchedulerInit_spec scannerInfoDenialStart_eq).2
  refine ⟨fun c hc l hl x hPath hx => ?_, Or.inl (by decide +kernel)⟩
  have hLess := Acyclic.rank_lt (fun p => p.val) (by decide +kernel) hPath
  have hCategory : ∀ l : Fin scannerInfoDenial.length,
      exclusiveCategory (min ((pluginTable scannerInfoDenial).category l) actLast) = false →
      l.val = 1 ∧ min ((pluginTable scannerInfoDenial).category l) actLast = 3 := by
    decide +kernel
  have hIndex := hIndexed c l hl
  rw [hIndex] at hc
  obtain ⟨hOne, hThree⟩ := hCategory l hc
  have hZero : x = ⟨0, by decide⟩ := Fin.ext (by simp only; omega)
  subst hZero
  exact ⟨actScanner, by rw [hIndex, hThree]; decide, by decide +kernel⟩

/-- A denial-of-service plugin and a plugin of the last category. -/
def denialAndEnd : List PluginArg :=
  [{ name := lit "dos.nasl", oid := some (lit "1"), category := 7, dependencies := none,
     requiredPorts := none, launch := launchRun },
   { name := lit "end.nasl", oid := some (lit "2"), category := 10, dependencies := none,
     requiredPorts := none, launch := launchRun }]

def denialAndEndStart : Sched denialAndEnd.length :=
  (pluginsSchedulerInit denialAndEnd 3 true false).get (by decide +kernel)

/-- No preferences about ports and timeouts. -/
def plainConfig (n : Nat) : LaunchConfig n :=
  { nonSimultPorts := [], pluginTimeout := fun _ => 0, timeout := fun _ => 0, pluginsTimeout := 320 }

/-- In every run of the host loop in which the forks succeed, nothing runs beside an
exclusive plugin, if at most one check may run at a time or the lists keep the
exclusive plugins apart. -/
theorem exclusive_along {plugins : List PluginArg} {fuel : Nat} {autoload onlyNetwork : Bool}
    {start : Sched plugins.length}
    (hInit : pluginsSchedulerInit plugins fuel autoload onlyNetwork = some start)
    (config : LaunchConfig plugins.length) (maxChecks : Int) (rounds : List Round)
    (living : List Bool) (hCondition : maxChecks ≤ 1 ∨ KeptApart (pluginTable plugins) start)
    (events : List HostEvent) (hForks : ∀ event ∈ events, event.Forks) :
    Run.AllStates (hostStep (pluginTable plugins) config)
      (fun h => Exclusive (pluginTable plugins) h.world.table)
      (hostInit maxChecks rounds living start) events := by
  obtain ⟨hUnrun, hIndexed⟩ := pluginsSchedulerInit_spec hInit
  exact Run.AllStates.of_invariant (HostInv (pluginTable plugins) start maxChecks)
    (fun _ event hInv (hFork : event.Forks) => hInv.step hCondition hFork)
    (fun _ hInv => hInv.exclusive) (hostInv_init hUnrun hIndexed) events hForks

theorem exclusive_along_scanner_info_denial :
    KeptApart (pluginTable scannerInfoDenial) scannerInfoDenialStart ∧
    Run.AllStates (hostStep (pluginTable scannerInfoDenial) (plainConfig _))
      (fun h => Exclusive (pluginTable scannerInfoDenial) h.world.table)
      (hostInit 4 [] [] scannerInfoDenialStart) [.next 20, .launch 100 0, .next 20] :=
  ⟨scannerInfoDenial_keptApart, exclusive_along scannerInfoDenialStart_eq (plainConfig _) 4 [] []
    (Or.inr scannerInfoDenial_keptApart) [.next 20, .launch 100 0, .next 20]
    (by simp [HostEvent.Forks])⟩

/-- While the denial-of-service plugin runs, the visit of the last list allows
parallel checks again, and its plugin is launched beside it. -/
theorem end_beside_denial :
    ¬ Run.AllStates (hostStep (pluginTable denialAndEnd) (plainConfig _))
      (fun h => Exclusive (pluginTable denialAndEnd) h.world.table)
      (hostInit 2 [] [] denialAndEndStart)
      [.next 20, .launch 100 0, .next 20, .launch 101 0] := by
  intro hAll
  have hExclusive := hAll.final 0 ⟨0, by decide⟩ (by decide +kernel) (by decide +kernel)
    (by decide +kernel) 1 (by decide +kernel)
  exact absurd hExclusive (by decide)

end Scheduler
