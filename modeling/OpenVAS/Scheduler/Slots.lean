import OpenVAS.Scheduler.Processes

/-! Free slots at a launch. `pluginlaunch_init` keeps the limit on parallel checks
twice and clamps one copy only; the other one comes into force when parallel
checks are enabled again. -/
namespace Scheduler

variable {n : Nat}

/-- A call of a function of `pluginlaunch.c`. A launch comes with the answers of
the operating system while it waits, a push with those of one pass of reading and
updating, in which processes end. -/
inductive LaunchCall (n : Nat) where
  | init
  | enable
  | disable
  | launch (p : Fin n) (pid start : Int) (rounds : List Round) (living : List Bool)
  | push (round : Round)

/-- The effect of a call. After a launch that does not return, or that writes in
front of the slots, there is nothing to say about further calls. -/
def launchCall (table : PluginTable n) (config : LaunchConfig n) (maxChecks : Int) :
    Except LaunchStop (Launching n) → LaunchCall n → Except LaunchStop (Launching n)
  | .error stop, _ => .error stop
  | .ok x, .init => .ok ((pluginlaunchInit maxChecks [] []).table, x.2)
  | .ok x, .enable => .ok ((pluginlaunchEnableParrallelChecks ⟨x.1, [], []⟩).table, x.2)
  | .ok x, .disable => .ok ((pluginlaunchDisableParrallelChecks ⟨x.1, [], []⟩).table, x.2)
  | .ok x, .launch p pid start rounds living =>
      (pluginLaunch table config p pid start ⟨x.1, rounds, living⟩ x.2).map fun y => (y.1.table, y.2)
  | .ok x, .push round => .ok (pushProcesses round x)

/-- The static variables when the program starts. -/
def Processes.static : Processes n := ⟨fun _ => .zero, 0, 0, 0⟩

/-- Between two process tables some processes have ended. -/
structure Thinned (t : Processes n) (x : Launching n) : Prop where
  counted : Counted x.1
  slot : ∀ i, x.1.Occupied i → t.Occupied i
  max : x.1.maxRunningProcesses = t.maxRunningProcesses
  oldMax : x.1.oldMaxRunningProcesses = t.oldMaxRunningProcesses

theorem pushInv_thinned (t : Processes n) : PushInv (Thinned t) where
  read round x h :=
    { counted := counted_readRunningProcesses round h.counted
      slot := fun i hi => h.slot i (by simpa using hi)
      max := by simpa using h.max
      oldMax := by simpa using h.oldMax }
  slot now x i h := by
    rcases updateSlot_cases now x i with hSame | ⟨hi, hEnd⟩
    · rwa [hSame]
    · rw [hEnd]
      exact
        { counted := counted_endProcess h.counted hi
          slot := fun j hj => h.slot j ((occupied_endProcess x i j).mp hj).2
          max := h.max
          oldMax := h.oldMax }

theorem Counted.thinned {t : Processes n} (h : Counted t) (state : Fin n → RunningState) :
    Thinned t (t, state) :=
  ⟨h, fun _ hi => hi, rfl, rfl⟩

theorem firstFreeSlot_eq_none {t : Processes n} : firstFreeSlot t = none ↔ ∀ i, t.Occupied i := by
  simp [firstFreeSlot]

/-- There is no free slot exactly when as many processes run as there are slots. -/
theorem Counted.firstFreeSlot_eq_none {t : Processes n} (h : Counted t) :
    firstFreeSlot t = none ↔ t.numRunningProcesses = maxProcesses := by
  rw [Scheduler.firstFreeSlot_eq_none, h]
  constructor
  · intro hAll
    rw [Finset.filter_true_of_mem fun i _ => hAll i]
    simp
  · intro hCard i
    have hEq : Finset.univ.filter t.Occupied = Finset.univ := by
      rw [← Finset.card_eq_iff_eq_univ, Fintype.card_fin]
      exact_mod_cast hCard
    exact (Finset.mem_filter.mp (hEq ▸ Finset.mem_univ i)).2

/-- A launch under a limit of at most the number of slots finds a free one. -/
theorem pluginLaunch_slot (table : PluginTable n) (config : LaunchConfig n) (p : Fin n)
    (pid start : Int) {w : ProcessWorld n} (state : Fin n → RunningState) (h : Counted w.table)
    (hMax : w.table.maxRunningProcesses ≤ maxProcesses) :
    pluginLaunch table config p pid start w state = .error .waiting ∨
    ∃ w' state', pluginLaunch table config p pid start w state = .ok (w', state') ∧
      Counted w'.table ∧ w'.table.maxRunningProcesses = w.table.maxRunningProcesses ∧
      w'.table.oldMaxRunningProcesses = w.table.oldMaxRunningProcesses := by
  rcases pluginLaunch_cases table config p pid start w state with
    hWait | ⟨rounds, x, living, rounds', y, hPush, hNext, hEq⟩
  · exact Or.inl hWait
  · obtain ⟨hRoom, hStop⟩ := (pushInv_thinned w.table).while (h.thinned state) hPush
    obtain ⟨hFound, -⟩ := (pushInv_thinned x.1).nextFree (hRoom.counted.thinned x.2) hNext
    have hLess : x.1.numRunningProcesses < x.1.maxRunningProcesses := by simpa using hStop
    have hLimit := hRoom.max
    have hSome : firstFreeSlot x.1 ≠ none := by
      rw [Ne, hRoom.counted.firstFreeSlot_eq_none]
      omega
    cases hSlot : firstFreeSlot y.1 with
    | none =>
        rw [firstFreeSlot_eq_none] at hSlot
        exact absurd (firstFreeSlot_eq_none.mpr fun i => hFound.slot i (hSlot i)) hSome
    | some r =>
        have hFree : ¬ y.1.Occupied r := by simpa using List.find?_some hSlot
        rw [hSlot] at hEq
        refine Or.inr ⟨_, _, hEq, counted_launchInto hFound.counted hFree, ?_, ?_⟩
        · simp only [max_launchInto]
          exact hFound.max.trans hRoom.max
        · simp only [oldMax_launchInto]
          exact hFound.oldMax.trans hRoom.oldMax

/-- What every sequence of calls keeps, if parallel checks are enabled only under
a limit of at most the number of slots. -/
def SlotInv (maxChecks : Int) : Except LaunchStop (Launching n) → Prop
  | .error stop => stop ≠ .outOfBounds
  | .ok x => Counted x.1 ∧ x.1.maxRunningProcesses ≤ maxProcesses ∧
      (x.1.oldMaxRunningProcesses = 0 ∨ x.1.oldMaxRunningProcesses = maxChecks)

theorem counted_of_free {t : Processes n} (hNum : t.numRunningProcesses = 0)
    (hFree : ∀ i, ¬ t.Occupied i) : Counted t := by
  rw [Counted, hNum, Finset.filter_false_of_mem fun i _ => hFree i]
  rfl

theorem slotInv_static (maxChecks : Int) (state : Fin n → RunningState) :
    SlotInv maxChecks (.ok (.static, state)) :=
  ⟨counted_of_free rfl (by simp [Processes.static, Processes.Occupied, Running.zero]),
    by simp [Processes.static], Or.inl rfl⟩

theorem slotInv_launchCall {table : PluginTable n} {config : LaunchConfig n} {maxChecks : Int}
    {result : Except LaunchStop (Launching n)} {call : LaunchCall n}
    (h : SlotInv maxChecks result) (hCall : call = .enable → maxChecks ≤ maxProcesses) :
    SlotInv maxChecks (launchCall table config maxChecks result call) := by
  cases result with
  | error stop => exact h
  | ok x =>
      obtain ⟨hCounted, hMax, hOld⟩ := h
      cases call with
      | init =>
          refine ⟨counted_of_free rfl ?_, ?_, Or.inr rfl⟩
          · simp [pluginlaunchInit, Processes.Occupied, Running.zero]
          · simp only [pluginlaunchInit]
            split <;> omega
      | enable =>
          refine ⟨hCounted, ?_, hOld⟩
          have hLimit := hCall rfl
          change x.1.oldMaxRunningProcesses ≤ maxProcesses
          omega
      | disable => exact ⟨hCounted, by simp [pluginlaunchDisableParrallelChecks], hOld⟩
      | launch p pid start rounds living =>
          have hCounted' : Counted (⟨x.1, rounds, living⟩ : ProcessWorld n).table := hCounted
          rw [launchCall]
          rcases pluginLaunch_slot table config p pid start x.2 hCounted' hMax with
            hWait | ⟨w', state', hOk, hDone, hMax', hOld'⟩
          · rw [hWait]
            intro hStop
            cases hStop
          · rw [hOk]
            exact ⟨hDone, hMax'.le.trans hMax, by simpa only [hOld'] using hOld⟩
      | push round =>
          have hThinned := (pushInv_thinned x.1).push round (hCounted.thinned x.2)
          exact ⟨hThinned.counted, by rw [hThinned.max]; exact hMax,
            by rw [hThinned.oldMax]; exact hOld⟩

theorem SlotInv.ne_outOfBounds {maxChecks : Int} {result : Except LaunchStop (Launching n)}
    (h : SlotInv maxChecks result) : result ≠ .error .outOfBounds := by
  rintro rfl
  exact h rfl

/-- Without ports that must not be used simultaneously a launch waits for nobody. -/
theorem nextFreeProcess_plain {table : PluginTable n} {config : LaunchConfig n}
    (hConfig : config.nonSimultPorts = []) (p : Fin n)
    (x : List Bool × List Round × Launching n) :
    nextFreeProcess table config p x = some (firstFreeSlot x.2.2.1, x) := by
  have hStep : ∀ r, conflictStep table config p x r = some x := by
    intro r
    have hConflict : ∀ q, portsConflict table config q p = false := by
      intro q
      simp [portsConflict, hConfig]
    cases hPlugin : (x.2.2.1.processes r).plugin with
    | none => simp [conflictStep, hPlugin]
    | some q => simp [conflictStep, hPlugin, hConflict]
  have hFold : ∀ slots : List (Fin maxProcesses),
      slots.foldlM (conflictStep table config p) x = some x := by
    intro slots
    induction slots with
    | nil => rfl
    | cons r slots ih => simp [List.foldlM_cons, hStep, ih]
  simp [nextFreeProcess, hFold]

theorem launchCall_plain {table : PluginTable n} {config : LaunchConfig n}
    (hConfig : config.nonSimultPorts = []) (maxChecks : Int) (p : Fin n) {x : Launching n}
    (hRoom : x.1.numRunningProcesses < x.1.maxRunningProcesses) :
    launchCall table config maxChecks (.ok x) (.launch p 1 0 [] []) =
      match firstFreeSlot x.1 with
      | none => .error .outOfBounds
      | some r => .ok (launchInto table config p 1 0 r x) := by
  have hPush : pushWhile (fun t => t.numRunningProcesses ≥ t.maxRunningProcesses) [] (x.1, x.2) =
      some ([], x) := by
    simp [pushWhile, hRoom]
  simp only [launchCall, pluginLaunch, hPush, nextFreeProcess_plain hConfig]
  cases firstFreeSlot x.1 with
  | none => rfl
  | some r => rfl

/-- A launch below the limit, with a process that is created at once, while there
are free slots. -/
theorem launchCall_room (table : PluginTable n) {config : LaunchConfig n}
    (hConfig : config.nonSimultPorts = []) (maxChecks : Int) (p : Fin n) {x : Launching n}
    (hCounted : Counted x.1) (hRoom : x.1.numRunningProcesses < x.1.maxRunningProcesses)
    (hLess : x.1.numRunningProcesses < maxProcesses) :
    ∃ y, launchCall table config maxChecks (.ok x) (.launch p 1 0 [] []) = .ok y ∧
      Counted y.1 ∧ y.1.numRunningProcesses = x.1.numRunningProcesses + 1 ∧
      y.1.maxRunningProcesses = x.1.maxRunningProcesses := by
  rw [launchCall_plain hConfig maxChecks p hRoom]
  cases hSlot : firstFreeSlot x.1 with
  | none =>
      rw [hCounted.firstFreeSlot_eq_none] at hSlot
      omega
  | some r =>
      have hFree : ¬ x.1.Occupied r := by simpa using List.find?_some hSlot
      exact ⟨_, rfl, counted_launchInto hCounted hFree, by simp [launchInto], by simp⟩

theorem launchCalls_room (table : PluginTable n) {config : LaunchConfig n}
    (hConfig : config.nonSimultPorts = []) (maxChecks : Int) (p : Fin n) (count : Nat)
    {x : Launching n} (hCounted : Counted x.1)
    (hMax : maxProcesses < x.1.maxRunningProcesses)
    (hCount : x.1.numRunningProcesses + count ≤ maxProcesses) :
    ∃ y, (List.replicate count (.launch p 1 0 [] [])).foldl (launchCall table config maxChecks)
        (.ok x) = .ok y ∧
      Counted y.1 ∧ y.1.numRunningProcesses = x.1.numRunningProcesses + count ∧
      y.1.maxRunningProcesses = x.1.maxRunningProcesses := by
  induction count generalizing x with
  | zero => exact ⟨x, rfl, hCounted, by simp, rfl⟩
  | succ count ih =>
      obtain ⟨y, hCall, hCounted', hNum, hSame⟩ :=
        launchCall_room table hConfig maxChecks p hCounted (by omega) (by omega)
      obtain ⟨z, hRest, hDone, hNum', hSame'⟩ := ih hCounted' (by omega) (by omega)
      refine ⟨z, ?_, hDone, by omega, by omega⟩
      rw [List.replicate_succ, List.foldl_cons, hCall, hRest]

/-- The calls that use up the slots: the clamped limit is replaced by the other
one, and no process ends. -/
def exhaustingCalls (p : Fin n) : List (LaunchCall n) :=
  .init :: .enable :: List.replicate (maxProcesses + 1) (.launch p 1 0 [] [])

theorem exhaustingCalls_outOfBounds (table : PluginTable n) {config : LaunchConfig n}
    (hConfig : config.nonSimultPorts = []) {maxChecks : Int} (hMax : maxProcesses < maxChecks)
    (p : Fin n) (state : Fin n → RunningState) :
    (exhaustingCalls p).foldl (launchCall table config maxChecks) (.ok (.static, state)) =
      .error .outOfBounds := by
  set x : Launching n :=
    ((pluginlaunchEnableParrallelChecks (pluginlaunchInit maxChecks [] [])).table, state) with hx
  have hCounted : Counted x.1 :=
    counted_of_free rfl (by simp [hx, pluginlaunchEnableParrallelChecks, pluginlaunchInit,
      Processes.Occupied, Running.zero])
  have hLimit : x.1.maxRunningProcesses = maxChecks := rfl
  have hNone : x.1.numRunningProcesses = 0 := rfl
  obtain ⟨y, hCalls, hDone, hNum, hSame⟩ :=
    launchCalls_room table hConfig maxChecks p maxProcesses hCounted (by omega) (by omega)
  have hFull : firstFreeSlot y.1 = none := by
    rw [hDone.firstFreeSlot_eq_none]
    omega
  have hStart : (exhaustingCalls p).foldl (launchCall table config maxChecks)
      (.ok (.static, state)) =
      (List.replicate (maxProcesses + 1) (.launch p 1 0 [] [])).foldl
        (launchCall table config maxChecks) (.ok x) := rfl
  rw [hStart, List.replicate_succ', List.foldl_append, hCalls, List.foldl_cons, List.foldl_nil,
    launchCall_plain hConfig maxChecks p (by omega), hFull]

/-- A launch never uses an index outside the slots in a run that enables parallel
checks only under a limit of at most `MAX_PROCESSES`; under any higher limit some
run does. -/
theorem launch_index_in_bounds (maxChecks : Int) :
    (∀ (n : Nat) (table : PluginTable n) (config : LaunchConfig n) (state : Fin n → RunningState)
      (calls : List (LaunchCall n)),
      (∀ call ∈ calls, call = .enable → maxChecks ≤ maxProcesses) →
      Run.AllStates (launchCall table config maxChecks) (· ≠ .error .outOfBounds)
        (.ok (.static, state)) calls) ∧
    (maxProcesses < maxChecks → ∃ (n : Nat) (table : PluginTable n) (config : LaunchConfig n)
      (state : Fin n → RunningState) (calls : List (LaunchCall n)),
      ¬ Run.AllStates (launchCall table config maxChecks) (· ≠ .error .outOfBounds)
        (.ok (.static, state)) calls) := by
  refine ⟨fun n table config state calls hCalls => ?_, fun hMax => ?_⟩
  · exact Run.AllStates.of_invariant (SlotInv maxChecks)
      (fun _ call hInv (hCall : call = .enable → maxChecks ≤ maxProcesses) =>
        slotInv_launchCall hInv hCall)
      (fun _ hInv => hInv.ne_outOfBounds) (slotInv_static maxChecks state) calls hCalls
  · refine ⟨1, ⟨fun _ => 0, fun _ => none, fun _ => none⟩, ⟨[], fun _ => 0, fun _ => 0, 0⟩,
      fun _ => .unrun, exhaustingCalls 0, fun hAll => ?_⟩
    exact hAll.final (exhaustingCalls_outOfBounds _ rfl hMax 0 _)

/-- With 33 checks in parallel, the launch beside 32 processes writes in front of
the slots. -/
theorem launch_index_minus_one :
    ¬ Run.AllStates (launchCall (n := 1) ⟨fun _ => 0, fun _ => none, fun _ => none⟩
        ⟨[], fun _ => 0, fun _ => 0, 0⟩ 33) (· ≠ .error .outOfBounds)
      (.ok (.static, fun _ => .unrun)) (exhaustingCalls 0) :=
  fun hAll => hAll.final (exhaustingCalls_outOfBounds _ rfl (by decide) 0 _)

end Scheduler
