import OpenVAS.Scheduler.Launch

/-! The running states and the process table agree. Between two calls of the
scheduler the running plugins are those that occupy a slot; a plugin that was
handed out runs in no slot until it is launched. -/
namespace Scheduler

open CString Relation

variable {n : Nat} {table : PluginTable n}

/-- The running plugins occupy slots, apart from one that is to be launched, which
occupies none. -/
structure Covered (pending : Option (Fin n)) (x : Launching n) : Prop where
  consistent : Consistent x.1 x.2
  covered : ∀ p, x.2 p = .running → pending = some p ∨
    ∃ i, x.1.Occupied i ∧ (x.1.processes i).plugin = some p
  absent : ∀ p, pending = some p → ∀ i, x.1.Occupied i → (x.1.processes i).plugin ≠ some p

/-- Only the occupied slots, their plugins and the count matter. -/
theorem Covered.congr {pending : Option (Fin n)} {t t' : Processes n}
    {state : Fin n → RunningState} (h : Covered pending (t, state))
    (hOccupied : ∀ i, t'.Occupied i ↔ t.Occupied i)
    (hPlugin : ∀ i, t.Occupied i → (t'.processes i).plugin = (t.processes i).plugin)
    (hNum : t'.numRunningProcesses = t.numRunningProcesses) : Covered pending (t', state) := by
  refine ⟨⟨fun i hi => ?_, fun i j hi hj hij => ?_, Counted.congr h.consistent.count hOccupied hNum⟩,
    fun p hp => ?_, fun p hp i hi => ?_⟩
  · rw [hOccupied] at hi
    rw [hPlugin i hi]
    exact h.consistent.running i hi
  · rw [hOccupied] at hi hj
    rw [hPlugin i hi, hPlugin j hj] at hij
    exact h.consistent.single i j hi hj hij
  · rcases h.covered p hp with hPending | ⟨i, hi, hSlot⟩
    · exact Or.inl hPending
    · exact Or.inr ⟨i, (hOccupied i).mpr hi, by rw [hPlugin i hi, hSlot]⟩
  · rw [hOccupied] at hi
    rw [hPlugin i hi]
    exact h.absent p hp i hi

/-- Of the running states only RUNNING matters. -/
theorem Covered.congr_state {pending : Option (Fin n)} {t : Processes n}
    {state state' : Fin n → RunningState} (h : Covered pending (t, state))
    (hState : ∀ p, state' p = .running ↔ state p = .running) : Covered pending (t, state') := by
  refine ⟨⟨fun i hi => ?_, h.consistent.single, h.consistent.count⟩,
    fun p hp => h.covered p ((hState p).mp hp), h.absent⟩
  obtain ⟨p, hp, hRunning⟩ := h.consistent.running i hi
  exact ⟨p, hp, (hState p).mpr hRunning⟩

theorem pushInv_covered (pending : Option (Fin n)) : PushInv (Covered pending) where
  read round x h :=
    h.congr (occupied_readRunningProcesses round x.1) (by simp)
      (num_readRunningProcesses round h.consistent.count)
  slot now x i h := by
    rcases updateSlot_cases now x i with hSame | ⟨hi, hEnd⟩
    · rwa [hSame]
    · rw [hEnd]
      obtain ⟨p, hp, -⟩ := h.consistent.running i hi
      have hState : (endProcess x i).2 = Function.update x.2 p .done := by simp [endProcess, hp]
      have hSlot {j : Fin maxProcesses} (hj : j ≠ i) :
          (endProcess x i).1.processes j = x.1.processes j := Function.update_of_ne hj _ _
      refine ⟨(freed_endProcess h.consistent hi).consistent, fun q hq => ?_, fun q hq j hj => ?_⟩
      · have hqp : q ≠ p := by
          rintro rfl
          simp [hState] at hq
        rcases h.covered q (by simpa [hState, hqp] using hq) with hPending | ⟨j, hj, hPlugin⟩
        · exact Or.inl hPending
        · have hji : j ≠ i := by
            rintro rfl
            exact hqp (Option.some.inj (hPlugin.symm.trans hp))
          exact Or.inr ⟨j, (occupied_endProcess x i j).mpr ⟨hji, hj⟩, by rw [hSlot hji, hPlugin]⟩
      · obtain ⟨hji, hOccupied⟩ := (occupied_endProcess x i j).mp hj
        rw [hSlot hji]
        exact h.absent q hq j hOccupied

/-- The plugin to be launched may change its state. -/
theorem Covered.setPending {p : Fin n} {t : Processes n} {state : Fin n → RunningState}
    (h : Covered (some p) (t, state)) (value : RunningState) :
    Covered (some p) (t, Function.update state p value) := by
  refine ⟨⟨fun i hi => ?_, h.consistent.single, h.consistent.count⟩, fun q hq => ?_, h.absent⟩
  · obtain ⟨q, hq, hState⟩ := h.consistent.running i hi
    have hqp : q ≠ p := by
      rintro rfl
      exact h.absent q rfl i hi hq
    exact ⟨q, hq, by simpa [hqp] using hState⟩
  · rcases eq_or_ne q p with rfl | hqp
    · exact Or.inl rfl
    · exact h.covered q (by simpa [hqp] using hq)

/-- A plugin that is not running need not be launched. -/
theorem Covered.settle {p : Fin n} {x : Launching n} (h : Covered (some p) x)
    (hState : x.2 p ≠ .running) : Covered none x := by
  refine ⟨h.consistent, fun q hq => ?_, fun q hq => nomatch hq⟩
  rcases h.covered q hq with hPending | hSlot
  · cases hPending
    exact absurd hq hState
  · exact Or.inr hSlot

/-- The scheduler hands out an unrun plugin. -/
theorem Covered.start {p : Fin n} {t : Processes n} {s : Sched n}
    (h : Covered none (t, s.state)) (hUnrun : s.state p = .unrun) :
    Covered (some p) (t, (startPlugin table s p).state) := by
  rw [startPlugin_state]
  refine Covered.setPending ⟨h.consistent, fun q hq => ?_, fun q hq i hi hPlugin => ?_⟩ _
  · rcases h.covered q hq with hPending | hSlot
    · cases hPending
    · exact Or.inr hSlot
  · cases hq
    obtain ⟨q, hq, hState⟩ := h.consistent.running i hi
    obtain rfl : q = p := Option.some.inj (hq.symm.trans hPlugin)
    exact absurd (hState.symm.trans hUnrun) (by decide)

section Launch
variable {config : LaunchConfig n} {p : Fin n} {pid time : Int} {r : Fin maxProcesses}
  {y : Launching n}

theorem processes_launchInto {i : Fin maxProcesses} (hi : i ≠ r) :
    (launchInto table config p pid time r y).1.processes i = y.1.processes i := by
  unfold launchInto
  by_cases hPid : 0 < pid <;> simp [hPid, hi]

theorem plugin_launchInto :
    ((launchInto table config p pid time r y).1.processes r).plugin = some p := by
  unfold launchInto
  by_cases hPid : 0 < pid <;> simp [hPid]

/-- A failed fork leaves the table as it is and resets the plugin. -/
theorem Covered.launch_failed (h : Covered (some p) y) (hFree : ¬ y.1.Occupied r)
    (hPid : ¬ 0 < pid) : Covered (some p) (launchInto table config p pid time r y) := by
  have hState : launchInto table config p pid time r y =
      ((launchInto table config p pid time r y).1, Function.update y.2 p .unrun) := by
    simp [launchInto, hPid]
  have hSlot {i : Fin maxProcesses} (hi : y.1.Occupied i) : i ≠ r := by
    rintro rfl
    exact hFree hi
  rw [hState]
  refine Covered.setPending (Covered.congr h (fun i => ?_) (fun i hi => ?_) ?_) _
  · rw [occupied_launchInto]
    rcases eq_or_ne i r with rfl | hi
    · simp [hPid, hFree]
    · simp [hi]
  · rw [processes_launchInto (hSlot hi)]
  · simp [launchInto, hPid]

/-- After a successful fork the plugin, which is running, occupies the slot. -/
theorem Covered.launch (h : Covered (some p) y) (hFree : ¬ y.1.Occupied r) (hPid : 0 < pid)
    (hRunning : y.2 p = .running) : Covered none (launchInto table config p pid time r y) := by
  set x := launchInto table config p pid time r y with hx
  have hState : x.2 = y.2 := by simp [hx, launchInto, hPid]
  have hSelf : x.1.Occupied r := by simp [hx, occupied_launchInto, hPid]
  have hOther {i : Fin maxProcesses} (hi : i ≠ r) : x.1.processes i = y.1.processes i :=
    processes_launchInto hi
  have hOccupied {i : Fin maxProcesses} (hi : x.1.Occupied i) (hir : i ≠ r) : y.1.Occupied i := by
    simpa [hx, occupied_launchInto, hir] using hi
  refine ⟨⟨fun i hi => ?_, fun i j hi hj hij => ?_, counted_launchInto h.consistent.count hFree⟩,
    fun q hq => ?_, fun q hq => by cases hq⟩
  · rw [hState]
    rcases eq_or_ne i r with rfl | hir
    · exact ⟨p, plugin_launchInto, hRunning⟩
    · rw [hOther hir]
      exact h.consistent.running i (hOccupied hi hir)
  · -- the new plugin occupies no other slot, the others are in their slots as before
    have hPlugin : (x.1.processes r).plugin = some p := plugin_launchInto
    by_cases hir : i = r <;> by_cases hjr : j = r
    · exact hir.trans hjr.symm
    · rw [hir, hPlugin, hOther hjr] at hij
      exact absurd hij.symm (h.absent p rfl j (hOccupied hj hjr))
    · rw [hOther hir, hjr, hPlugin] at hij
      exact absurd hij (h.absent p rfl i (hOccupied hi hir))
    · rw [hOther hir, hOther hjr] at hij
      exact h.consistent.single i j (hOccupied hi hir) (hOccupied hj hjr) hij
  · rw [hState] at hq
    rcases h.covered q hq with hPending | ⟨i, hi, hPlugin⟩
    · cases hPending
      exact Or.inr ⟨r, hSelf, plugin_launchInto⟩
    · have hir : i ≠ r := by
        rintro rfl
        exact hFree hi
      refine Or.inr ⟨i, ?_, by rw [hOther hir, hPlugin]⟩
      simpa [hx, occupied_launchInto, hir] using hi

end Launch

/-- How a launch ends when the limit is at most the number of slots. -/
theorem pluginLaunch_covered (table : PluginTable n) (config : LaunchConfig n) {p : Fin n}
    (pid time : Int) {w : ProcessWorld n} {state : Fin n → RunningState}
    (h : Covered (some p) (w.table, state))
    (hMax : w.table.maxRunningProcesses ≤ maxProcesses) :
    pluginLaunch table config p pid time w state = .error .waiting ∨
    ∃ y r rounds living, pluginLaunch table config p pid time w state =
        .ok (⟨(launchInto table config p pid time r y).1, rounds, living⟩,
          (launchInto table config p pid time r y).2) ∧
      Covered (some p) y ∧ ¬ y.1.Occupied r ∧ Freed (w.table, state) y ∧ y.2 p = state p := by
  rcases pluginLaunch_cases table config p pid time w state with
    hWait | ⟨rounds, x, living, rounds', y, hPush, hNext, hEq⟩
  · exact Or.inl hWait
  · have hCovered : Covered (some p) y :=
      ((pushInv_covered _).nextFree ((pushInv_covered _).while h hPush).1 hNext).1
    have hFreed : Freed (w.table, state) y :=
      ((pushInv_freed _).nextFree ((pushInv_freed _).while (Freed.refl h.consistent) hPush).1
        hNext).1
    cases hSlot : firstFreeSlot y.1 with
    | none =>
        rw [hSlot] at hEq
        rcases pluginLaunch_slot table config p pid time state h.consistent.count hMax with
          hWait | ⟨w', state', hOk, -⟩
        · exact Or.inl hWait
        · rw [hEq] at hOk
          cases hOk
    | some r =>
        rw [hSlot] at hEq
        have hFree : ¬ y.1.Occupied r := by simpa using List.find?_some hSlot
        exact Or.inr ⟨y, r, rounds', living, hEq, hCovered, hFree, hFreed,
          hFreed.absent p (h.absent p rfl)⟩

/-- A search that answers `PLUG_RUNNING` has seen a running plugin. -/
theorem dependenciesLoop_running {search : Sched n → List (Fin n) → Option (Found n × Sched n)}
    (hSearch : ∀ s depsPtr s', search s depsPtr = some (.plugRunning, s') →
      ∃ p, s'.state p = .running)
    (depsPtr : List (Fin n)) (s : Sched n) (flag : Bool) (s' : Sched n)
    (hFlag : flag = true → ∃ p, s.state p = .running)
    (h : dependenciesLoop table search s flag depsPtr = some (.plugRunning, s')) :
    ∃ p, s'.state p = .running := by
  induction depsPtr generalizing s flag with
  | nil =>
      obtain ⟨hFound, rfl⟩ : (if flag then Found.plugRunning else .null) = .plugRunning ∧ s = s' := by
        simpa only [dependenciesLoop, Option.some.injEq, Prod.mk.injEq] using h
      cases flag with
      | true => exact hFlag rfl
      | false => cases hFound
  | cons plugin next ih =>
      rw [dependenciesLoop] at h
      split at h
      case h_1 hState =>
        split at h
        case h_1 => simp at h
        case h_2 ptr hPtr =>
          split at h
          case h_1 => simp at h
          case h_2 => simp at h
          case h_3 mid hFound => exact ih mid true (fun _ => hSearch _ _ _ hFound) h
          case h_4 => simp at h
      case h_2 hState => exact ih s true (fun _ => ⟨plugin, hState⟩) h
      case h_3 hState =>
        refine ih _ flag (fun hTrue => ?_) h
        obtain ⟨p, hp⟩ := hFlag hTrue
        exact ⟨p, (cleaned_cleanUp hState).running p hp⟩
      case h_4 => exact ih s flag hFlag h

theorem pluginNextUnrunDependencie_running {fuel : Nat} {s : Sched n} {depsPtr : List (Fin n)}
    {s' : Sched n}
    (h : pluginNextUnrunDependencie table fuel s depsPtr = some (.plugRunning, s')) :
    ∃ p, s'.state p = .running := by
  induction fuel generalizing s depsPtr s' with
  | zero => simp [pluginNextUnrunDependencie] at h
  | succ fuel ih =>
      exact dependenciesLoop_running (fun _ _ _ => ih) depsPtr s false s' (by simp) h

/-- A walk raises the flag only for a running plugin. -/
theorem listWalk_running {fuel category : Nat} {rest : List (Fin n)} {s : Sched n}
    {flag runningCategory : Nat} {kept : List (Fin n)} {flag' runningCategory' : Nat}
    {s' : Sched n}
    (h : listWalk table fuel category s flag runningCategory kept rest =
      some (.exhausted flag' runningCategory' s')) :
    flag' = flag ∨ ∃ p, s'.state p = .running := by
  induction rest generalizing s flag runningCategory kept with
  | nil =>
      rw [listWalk] at h
      cases h
      exact Or.inl rfl
  | cons l rest ih =>
      have hWait {mid : Sched n} (hMid : ∃ p, mid.state p = .running)
          (hWalk : listWalk table fuel category mid (flag + 1)
            (min (table.category l) runningCategory) (kept ++ [l]) rest =
              some (.exhausted flag' runningCategory' s')) :
          flag' = flag ∨ ∃ p, s'.state p = .running := by
        obtain ⟨p, hp⟩ := hMid
        obtain ⟨hCleaned, -⟩ := listWalk_result hWalk
        exact Or.inr ⟨p, hCleaned.running p hp⟩
      rw [listWalk] at h
      dsimp only at h
      split at h
      case h_1 hState =>
        split at h
        case h_1 depsPtr hPtr =>
          split at h
          case h_1 => simp at h
          case h_2 => simp at h
          case h_3 mid hSearch => exact hWait (pluginNextUnrunDependencie_running hSearch) h
          case h_4 => simp at h
        case h_2 => simp at h
      case h_2 hState => exact hWait ⟨l, hState⟩ h
      case h_3 => exact ih h
      case h_4 => exact ih h

/-- The states in which the loop of `plugins_scheduler_next` enters the wait for a
process. -/
def schedulerWaits (table : PluginTable n) (L : Launcher n) (fuel : Nat) :
    Nat → Nat → Nat → Nat → L.World → Sched n → List (L.World × Sched n)
  | 0, _, _, _, _, _ => []
  | steps + 1, category, flag, runningCategory, w, s =>
      if category ≤ actLast then
        let w := L.setFor category w
        match listWalk table fuel category s flag runningCategory [] (s.list category) with
        | some (.exhausted flag runningCategory s) =>
            if (category = actScanner ∨ category = actInit ∨ category = actSettings) ∧ flag ≠ 0 then
              (w, s) :: match L.waitForFreeProcess w s.state with
                | none => []
                | some (w, state) =>
                    schedulerWaits table L fuel steps category 0 runningCategory w
                      { s with state := state }
            else if category + 1 ≥ actDenial ∧ flag ≠ 0 ∧ runningCategory < actDenial then []
            else schedulerWaits table L fuel steps (category + 1) flag runningCategory w s
        | _ => []
      else []

/-- A call without an answer that does not lack fuel is inside one of these waits. -/
theorem schedulerWaits_of_waiting {L : Launcher n} {fuel steps category flag runningCategory : Nat}
    {w : L.World} {s : Sched n}
    (h : schedulerLoop table L fuel steps category flag runningCategory w s = .error .waiting) :
    ∃ entry ∈ schedulerWaits table L fuel steps category flag runningCategory w s,
      L.waitForFreeProcess entry.1 entry.2.state = none := by
  induction steps generalizing category flag runningCategory w s with
  | zero => simp [schedulerLoop] at h
  | succ steps ih =>
      rw [schedulerLoop] at h
      rw [schedulerWaits]
      split at h
      case isFalse => simp at h
      case isTrue hCategory =>
        rw [if_pos hCategory]
        dsimp only at h ⊢
        split at h
        case h_1 => simp at h
        case h_2 => simp at h
        case h_3 flag' runningCategory' mid hWalk =>
          simp only [hWalk]
          split at h
          case isTrue hWaits =>
            rw [if_pos hWaits]
            split at h
            case h_1 hNone => exact ⟨(L.setFor category w, mid), by simp, hNone⟩
            case h_2 w₁ state hWait =>
              obtain ⟨entry, hMem, hNone⟩ := ih h
              exact ⟨entry, List.mem_cons_of_mem _ (by simpa only [hWait] using hMem), hNone⟩
          case isFalse hNoWait =>
            rw [if_neg hNoWait]
            split at h
            case isTrue => simp at h
            case isFalse hNoAnswer =>
              rw [if_neg hNoAnswer]
              exact ih h

/-- A wait is entered only while a plugin runs. -/
theorem schedulerWaits_running {L : Launcher n} {J : L.World → Sched n → Prop} (hJ : Kept L J)
    {fuel steps category flag runningCategory : Nat} {w : L.World} {s : Sched n}
    (hIndexed : Indexed table s) (hVisiting : Visiting category flag runningCategory s)
    (hInv : J w s) {entry : L.World × Sched n}
    (h : entry ∈ schedulerWaits table L fuel steps category flag runningCategory w s) :
    J entry.1 entry.2 ∧ ∃ p, entry.2.state p = .running := by
  induction steps generalizing category flag runningCategory w s with
  | zero => simp [schedulerWaits] at h
  | succ steps ih =>
      rw [schedulerWaits] at h
      split at h
      case isFalse => simp at h
      case isTrue hCategory =>
        dsimp only at h
        have hSet : J (L.setFor category w) s := hJ.setFor hInv
        split at h
        case h_1 flag' runningCategory' mid hOver =>
          have hWalk := listWalk_result hOver
          rw [List.nil_append, withList_list] at hWalk
          have hMid : J (L.setFor category w) mid := hJ.walk _ _ _ hWalk.1 hSet
          split at h
          case isTrue hWaits =>
            have hEarly : category ≤ actSettings := by
              simp only [actScanner, actInit, actSettings] at hWaits ⊢
              omega
            rcases List.mem_cons.mp h with rfl | h
            · refine ⟨hMid, (listWalk_running hOver).resolve_left fun hFlag => hWaits.2 ?_⟩
              rw [hFlag]
              exact hVisiting.first (by simp only [actSettings, actGatherInfo] at *; omega)
            · split at h
              case h_1 => simp at h
              case h_2 w₁ state hWait =>
                have hLater : Elapsed s { mid with state := state } :=
                  hWalk.1.toElapsed.trans (elapsed_wait (hJ.inv _ _ hMid) hWait)
                exact ih (hIndexed.elapsed hLater) (hVisiting.again hLater hEarly _)
                  (hJ.wait _ _ _ _ hMid hWait) h
          case isFalse hNoWait =>
            split at h
            case isTrue => simp at h
            case isFalse hNoAnswer =>
              have hNext := hVisiting.next hIndexed hWalk
                (fun hle => by
                  simp only [actScanner, actInit, actSettings] at hNoWait hle
                  omega)
                (fun hDenial hFlag => by
                  by_contra hLt
                  exact hNoAnswer ⟨hDenial, hFlag, not_le.mp hLt⟩)
              exact ih (hIndexed.elapsed hWalk.1.toElapsed) hNext hMid h
        case h_2 => simp at h

/-- The invariant of the host loop. -/
structure Tracked (table : PluginTable n) (h : Host n) : Prop where
  covered : Covered h.pending (h.world.table, h.sched.state)
  indexed : Indexed table h.sched
  limit : h.world.table.maxRunningProcesses ≤ maxProcesses
  oldLimit : h.world.table.oldMaxRunningProcesses ≤ maxProcesses

/-- The invariant between two plugins is kept by the scheduler until it answers. -/
theorem tracked_kept : Kept (pluginlaunch n) fun w s => Tracked table ⟨w, s, none⟩ where
  inv _ _ h := h.covered.consistent
  disable w s h :=
    { covered := h.covered.congr (fun _ => Iff.rfl) (fun _ _ => rfl) rfl
      indexed := h.indexed
      limit := by simp [pluginlaunch, pluginlaunchDisableParrallelChecks]
      oldLimit := h.oldLimit }
  enable w s h :=
    { covered := h.covered.congr (fun _ => Iff.rfl) (fun _ _ => rfl) rfl
      indexed := h.indexed
      limit := h.oldLimit
      oldLimit := h.oldLimit }
  walk w s s' hCleaned h :=
    { covered := h.covered.congr_state fun p =>
        ⟨(hCleaned.later p).running, hCleaned.running p⟩
      indexed := h.indexed.elapsed hCleaned.toElapsed
      limit := h.limit
      oldLimit := h.oldLimit }
  wait w s w' state h hWait := by
    have hFreed := (freed_pushDoWhile h.covered.consistent hWait).1
    exact
      { covered := ((pushInv_covered none).doWhile h.covered hWait).1
        indexed := h.indexed
        limit := hFreed.max.le.trans h.limit
        oldLimit := hFreed.oldMax.le.trans h.oldLimit }

theorem Tracked.next {w : ProcessWorld n} {s : Sched n} (h : Tracked table ⟨w, s, none⟩)
    {fuel : Nat} {answer : Answer n} {w' : ProcessWorld n} {s' : Sched n}
    (hNext : pluginsSchedulerNext table (pluginlaunch n) fuel w s = .ok (answer, w', s')) :
    Tracked table ⟨w', s', answer.plugin?⟩ := by
  have hResult := pluginsSchedulerNext_result tracked_kept h.indexed h hNext
  cases answer with
  | null => exact hResult.2.1
  | plugRunning => exact hResult.2
  | plugin p c =>
      obtain ⟨mid, w₀, l, -, hMid, -, rfl, hUnrun, -⟩ := hResult
      exact
        { covered := hMid.covered.start hUnrun
          indexed := by simpa [Indexed] using hMid.indexed
          limit := hMid.limit
          oldLimit := hMid.oldLimit }

/-- A launch that does not put a plugin into a slot which is not running. -/
def HostEvent.Proper (h : Host n) : HostEvent → Prop
  | .launch pid _ => 0 < pid → ∀ p, h.pending = some p → h.sched.state p = .running
  | _ => True

theorem Tracked.launch {h : Host n} (hInv : Tracked table h) {config : LaunchConfig n}
    {pid time : Int} (hProper : HostEvent.Proper h (.launch pid time)) :
    Tracked table (hostStep table config h (.launch pid time)) := by
  obtain ⟨world, sched, pending⟩ := h
  cases pending with
  | none => exact hInv
  | some p =>
      rw [hostStep]
      rcases pluginLaunch_covered table config pid time hInv.covered hInv.limit with
        hWait | ⟨y, r, rounds, living, hOk, hCovered, hFree, hFreed, hSame⟩
      · simpa [hWait] using hInv
      · simp only [hOk]
        refine ⟨?_, hInv.indexed, ?_, ?_⟩
        · by_cases hPid : 0 < pid
          · rw [if_pos hPid]
            exact hCovered.launch hFree hPid (hSame.trans (hProper hPid p rfl))
          · rw [if_neg hPid]
            exact hCovered.launch_failed hFree hPid
        · simp only [max_launchInto]
          exact hFreed.max.le.trans hInv.limit
        · simp only [oldMax_launchInto]
          exact hFreed.oldMax.le.trans hInv.oldLimit

theorem Tracked.after {h : Host n} (hInv : Tracked table h)
    {go : Processes n → Bool} :
    Tracked table (h.after (pushDoWhile go h.world h.sched.state)) := by
  unfold Host.after
  split
  case h_1 world state hWait =>
    have hFreed := (freed_pushDoWhile hInv.covered.consistent hWait).1
    exact
      { covered := ((pushInv_covered _).doWhile hInv.covered hWait).1
        indexed := hInv.indexed
        limit := hFreed.max.le.trans hInv.limit
        oldLimit := hFreed.oldMax.le.trans hInv.oldLimit }
  case h_2 => exact hInv

/-- Every step of the host loop keeps the invariant. -/
theorem Tracked.step {h : Host n} (hInv : Tracked table h) {config : LaunchConfig n}
    {event : HostEvent} (hProper : event.Proper h) :
    Tracked table (hostStep table config h event) := by
  obtain ⟨world, sched, pending⟩ := h
  cases event with
  | next fuel =>
      rw [hostStep]
      split
      case h_1 => exact hInv
      case h_2 hNone =>
        obtain rfl : pending = none := hNone
        split
        case h_1 answer world' sched' hNext => exact hInv.next hNext
        case h_2 => exact hInv
  | launch pid time => exact hInv.launch hProper
  | skip =>
      rw [hostStep]
      split
      case h_1 => exact hInv
      case h_2 p hp =>
        obtain rfl : pending = some p := hp
        exact
          { covered := (hInv.covered.setPending .done).settle (by simp)
            indexed := hInv.indexed
            limit := hInv.limit
            oldLimit := hInv.oldLimit }
  | wait =>
      rw [hostStep]
      split
      case h_1 => exact hInv
      case h_2 => exact hInv.after
  | pause =>
      rw [hostStep]
      split
      case h_1 => exact hInv
      case h_2 => exact hInv.after

/-- The count of processes is the number of slots in use, and the running plugins
are exactly those in these slots, each in one of them only. -/
structure SlotsAgree (t : Processes n) (state : Fin n → RunningState) : Prop where
  count : t.numRunningProcesses = (Finset.univ.filter t.Occupied).card
  slot : ∀ i, t.Occupied i → ∃ p, (t.processes i).plugin = some p ∧ state p = .running
  running : ∀ p, state p = .running → ∃! i, t.Occupied i ∧ (t.processes i).plugin = some p

theorem Covered.slotsAgree {t : Processes n} {state : Fin n → RunningState}
    (h : Covered none (t, state)) : SlotsAgree t state where
  count := h.consistent.count
  slot := h.consistent.running
  running p hp := by
    rcases h.covered p hp with hPending | ⟨i, hi, hPlugin⟩
    · cases hPending
    · refine ⟨i, ⟨hi, hPlugin⟩, fun j hj => ?_⟩
      exact h.consistent.single j i hj.1 hi (hj.2.trans hPlugin.symm)

/-- The waits that one call of `plugins_scheduler_next` enters. -/
def nextWaits (table : PluginTable n) (fuel : Nat) (w : ProcessWorld n) (s : Sched n) :
    List (ProcessWorld n × Sched n) :=
  schedulerWaits table (pluginlaunch n) fuel fuel actFirst 0 actLast w s

theorem Tracked.nextWaits {w : ProcessWorld n} {s : Sched n} (h : Tracked table ⟨w, s, none⟩)
    {fuel : Nat} {entry : ProcessWorld n × Sched n} (hEntry : entry ∈ nextWaits table fuel w s) :
    0 < entry.1.table.numRunningProcesses := by
  obtain ⟨hInv, p, hp⟩ :=
    schedulerWaits_running tracked_kept h.indexed (Visiting.start s) h hEntry
  rcases hInv.covered.covered p hp with hPending | ⟨i, hi, -⟩
  · cases hPending
  · exact Counted.pos hInv.covered.consistent.count hi

/-- Before a call of the scheduler the process table and the running states agree,
and the call waits for a process only while there is one; no launch has written in
front of the slots. -/
def AttackHost.Agrees (table : PluginTable n) (a : AttackHost n) : Prop :=
  a.status ≠ .outOfBounds ∧ (a.status = .looping → a.host.pending = none →
    SlotsAgree a.host.world.table a.host.sched.state ∧
    ∀ fuel, ∀ entry ∈ nextWaits table fuel a.host.world a.host.sched,
      0 < entry.1.table.numRunningProcesses)

/-- A launch whose fork succeeds is the first try for its plugin: an earlier failed
fork would have reset it. -/
def AttackEvent.Proper (table : PluginTable n) (a : AttackHost n) : AttackEvent → Prop
  | .launch inputs => ∀ p, a.host.pending = some p → inputs.Launches (table.category p) →
      0 < inputs.fork.pid → a.host.sched.state p = .running
  | _ => True

/-- The invariant of the loop of `attack_host`. -/
def AttackHost.Tracked (table : PluginTable n) (a : AttackHost n) : Prop :=
  a.status ≠ .outOfBounds ∧ (a.status = .looping → Scheduler.Tracked table a.host)

theorem AttackHost.Tracked.agrees {a : AttackHost n} (h : a.Tracked table) : a.Agrees table := by
  refine ⟨h.1, fun hLooping hNone => ?_⟩
  have hInv := h.2 hLooping
  obtain ⟨⟨world, sched, pending⟩, forksRetry, status⟩ := a
  obtain rfl : pending = none := hNone
  exact ⟨hInv.covered.slotsAgree, fun fuel entry hEntry => hInv.nextWaits hEntry⟩

theorem AttackHost.Tracked.step {config : LaunchConfig n} {oid : Fin n → Option CString}
    (hOid : ∀ p, oid p ≠ none) {a : AttackHost n} {event : AttackEvent} (h : a.Tracked table)
    (hProper : event.Proper table a) :
    (attackHostStep table config oid a event).Tracked table := by
  by_cases hLooping : a.status = .looping
  · have hInv := h.2 hLooping
    refine ⟨fun hBounds => ?_, fun hNext => ?_⟩
    · obtain ⟨inputs, p, -, hLaunch⟩ := attackHostStep_bounds hOid hLooping hBounds
      rcases pluginLaunch_slot table config p inputs.fork.pid inputs.start a.host.sched.state
        hInv.covered.consistent.count hInv.limit with hWait | ⟨w', state', hOk, -⟩
      · rw [hLaunch] at hWait
        cases hWait
      · rw [hLaunch] at hOk
        cases hOk
    · rcases attackHostStep_host hOid a event hNext with hSame | ⟨step, hStep, hLaunch⟩
      · rwa [hSame]
      · rw [hStep]
        refine hInv.step ?_
        cases step with
        | launch pid time =>
            obtain ⟨inputs, p, rfl, hPending, hLaunches, rfl⟩ := hLaunch pid time rfl
            intro hPid q hq
            obtain rfl : p = q := Option.some.inj (hPending.symm.trans hq)
            exact hProper p hPending hLaunches hPid
        | next fuel => trivial
        | skip => trivial
        | wait => trivial
        | pause => trivial
  · have hSame : attackHostStep table config oid a event = a := if_neg hLooping
    rwa [hSame]

theorem tracked_init {maxChecks : Int} (hMax : maxChecks < maxProcesses) {rounds : List Round}
    {living : List Bool} {start : Sched n} (hUnrun : ∀ p, start.state p = .unrun)
    (hIndexed : Indexed table start) :
    (attackHostInit maxChecks rounds living start).Tracked table := by
  have hFree : ∀ i, ¬ (pluginlaunchInit maxChecks rounds living : ProcessWorld n).table.Occupied i := by
    intro i
    simp [pluginlaunchInit, Processes.Occupied, Running.zero]
  have hStart : ∀ p, start.state p ≠ .running := by simp [hUnrun]
  refine ⟨by simp [attackHostInit], fun _ => ⟨⟨⟨fun i hi => absurd hi (hFree i),
    fun i j hi => absurd hi (hFree i), counted_of_free rfl hFree⟩, fun p hp => absurd hp (hStart p),
    fun p hp => by cases hp⟩, hIndexed, ?_, ?_⟩⟩
  · simp only [attackHostInit, hostInit, pluginlaunchInit]
    split <;> omega
  · exact hMax.le

theorem oid_ne_none {plugins : List PluginArg} {fuel : Nat} {autoload onlyNetwork : Bool}
    {start : Sched plugins.length}
    (hInit : pluginsSchedulerInit plugins fuel autoload onlyNetwork = some start)
    (p : Fin plugins.length) : (plugins.get p).oid ≠ none := by
  unfold pluginsSchedulerInit at hInit
  split at hInit
  case isFalse => cases hInit
  case isTrue hLoadable =>
    have hSome := (hLoadable (plugins.get p) (List.get_mem plugins p)).1
    intro hNone
    rw [hNone] at hSome
    cases hSome

/-- In every run of the loop of `attack_host` in which no plugin is launched by a
retry after a failed fork, the process table and the running states agree before
each call of the scheduler. -/
theorem tables_agree_along {plugins : List PluginArg} {fuel : Nat} {autoload onlyNetwork : Bool}
    {start : Sched plugins.length}
    (hInit : pluginsSchedulerInit plugins fuel autoload onlyNetwork = some start)
    (config : LaunchConfig plugins.length) (maxChecks : Int) (hMax : maxChecks < maxProcesses)
    (rounds : List Round) (living : List Bool) (events : List AttackEvent)
    (hEvents : Run.AllSteps (attackHostStep (pluginTable plugins) config fun p => plugins[p].oid)
      (AttackEvent.Proper (pluginTable plugins)) (attackHostInit maxChecks rounds living start)
      events) :
    Run.AllStates (attackHostStep (pluginTable plugins) config fun p => plugins[p].oid)
      (AttackHost.Agrees (pluginTable plugins)) (attackHostInit maxChecks rounds living start)
      events := by
  obtain ⟨hUnrun, hIndexed⟩ := pluginsSchedulerInit_spec hInit
  exact Run.AllStates.of_allSteps (AttackHost.Tracked (pluginTable plugins))
    (fun _ _ hInv hProper => hInv.step (oid_ne_none hInit) hProper) (fun _ hInv => hInv.agrees)
    (tracked_init hMax hUnrun hIndexed) events hEvents

/-- Nothing keeps a plugin from being launched, and `fork` gives this answer. -/
def plainInputs (pid : Int) (hPid : pid ≠ 0) : LaunchInputs :=
  { launch := launchRun, safeChecks := false, statusLost := false, networkScan := false,
    launchedBefore := false, mandatoryMet := true, optimize := false, requirementsMet := true,
    fork := ⟨pid, hPid⟩, start := 0, hostDead := false }

theorem tables_agree_along_scanner :
    Run.AllStates (attackHostStep (pluginTable scannerInfoDenial) (plainConfig _)
        fun p => scannerInfoDenial[p].oid)
      (AttackHost.Agrees (pluginTable scannerInfoDenial))
      (attackHostInit 4 [] [] scannerInfoDenialStart)
      [.next 20, .launch (plainInputs 100 (by decide)), .next 20] := by
  refine tables_agree_along scannerInfoDenialStart_eq (plainConfig _) 4 (by decide) [] [] _ ?_
  refine ⟨trivial, fun p hp _ _ => ?_, trivial, trivial⟩
  revert p
  decide +kernel

/-- The first fork for the scanner fails and resets it; the retry puts it into a
slot although it counts as unrun. -/
theorem retried_launch_unrun :
    ¬ Run.AllStates (attackHostStep (pluginTable scannerInfoDenial) (plainConfig _)
        fun p => scannerInfoDenial[p].oid)
      (AttackHost.Agrees (pluginTable scannerInfoDenial))
      (attackHostInit 4 [] [] scannerInfoDenialStart)
      [.next 20, .launch (plainInputs (-1) (by decide)), .launch (plainInputs 100 (by decide))] := by
  intro hAll
  obtain ⟨hAgree, -⟩ := hAll.final.2 (by decide +kernel) (by decide +kernel)
  have hNone : ¬ ∃ p, (([.next 20, .launch (plainInputs (-1) (by decide)),
      .launch (plainInputs 100 (by decide))].foldl
        (attackHostStep (pluginTable scannerInfoDenial) (plainConfig _)
          fun p => scannerInfoDenial[p].oid)
        (attackHostInit 4 [] [] scannerInfoDenialStart)).host.sched.state p = .running) := by
    decide +kernel
  obtain ⟨p, -, hRunning⟩ := hAgree.slot 0 (by decide +kernel)
  exact hNone ⟨p, hRunning⟩

end Scheduler
