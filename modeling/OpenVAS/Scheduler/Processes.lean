import OpenVAS.Lib.Run
import OpenVAS.Scheduler.Basic
import Mathlib.Data.Fintype.Card
import Mathlib.Data.Fintype.Basic
import Mathlib.Data.List.FinRange

/-! The process table of `pluginlaunch.c`. What the plugin processes, the clock and
the operating system answer is taken from lists of rounds and of answers; a wait
that uses them up does not return. -/
namespace Scheduler

open CString

/-- `MAX_PROCESSES`. -/
abbrev maxProcesses : Nat := 32

/-- `struct running`: the fields that decide what happens to a process. -/
structure Running (n : Nat) where
  pid : Int
  plugin : Option (Fin n)
  start : Int
  timeout : Int
  alive : Bool
  deriving DecidableEq, Repr

/-- A slot after `bzero`. -/
def Running.zero {n : Nat} : Running n := ⟨0, none, 0, 0, false⟩

/-- The static variables of `pluginlaunch.c`. -/
structure Processes (n : Nat) where
  processes : Fin maxProcesses → Running n
  numRunningProcesses : Int
  maxRunningProcesses : Int
  oldMaxRunningProcesses : Int

/-- One pass of reading and updating: whether `select` reports a socket, for which
slots the message or its absence says that the process is over, and the time. -/
structure Round where
  selected : Bool
  ended : Fin maxProcesses → Bool
  now : Int

variable {n : Nat}

/-- A process occupies a slot. -/
def Processes.Occupied (t : Processes n) (i : Fin maxProcesses) : Prop := 0 < (t.processes i).pid

instance (t : Processes n) : DecidablePred t.Occupied := fun i =>
  inferInstanceAs (Decidable (0 < (t.processes i).pid))

def readRunningProcesses (round : Round) (t : Processes n) : Processes n :=
  if t.numRunningProcesses = 0 then t
  else if round.selected then
    { t with
      processes := fun i =>
        if t.Occupied i ∧ round.ended i then { t.processes i with alive := false } else t.processes i
      numRunningProcesses := if ∃ i, t.Occupied i then t.numRunningProcesses else 0 }
  else t

/-- The process table with the running states of the plugins. -/
abbrev Launching (n : Nat) : Type := Processes n × (Fin n → RunningState)

/-- The body of the loop of `update_running_processes`. -/
def updateSlot (now : Int) (x : Launching n) (i : Fin maxProcesses) : Launching n :=
  let r := x.1.processes i
  if 0 < r.pid ∧ (r.alive = false ∨ (0 < r.timeout ∧ now - r.start > r.timeout)) then
    ({ x.1 with
       processes := Function.update x.1.processes i .zero
       numRunningProcesses := x.1.numRunningProcesses - 1 },
     match r.plugin with
     | some p => Function.update x.2 p .done
     | none => x.2)
  else x

def updateRunningProcesses (now : Int) (x : Launching n) : Launching n :=
  if x.1.numRunningProcesses = 0 then x
  else (List.finRange maxProcesses).foldl (updateSlot now) x

/-- A read followed by an update. -/
def pushProcesses (round : Round) (x : Launching n) : Launching n :=
  updateRunningProcesses round.now (readRunningProcesses round x.1, x.2)

/-- Reads and updates while a condition holds. -/
def pushWhile (go : Processes n → Bool) :
    List Round → Launching n → Option (List Round × Launching n)
  | [], x => if go x.1 then none else some ([], x)
  | round :: rounds, x =>
      if go x.1 then pushWhile go rounds (pushProcesses round x) else some (round :: rounds, x)

/-- The process table with the rounds and the answers of `kill` to come. -/
structure ProcessWorld (n : Nat) where
  table : Processes n
  rounds : List Round
  living : List Bool

def pluginlaunchDisableParrallelChecks (w : ProcessWorld n) : ProcessWorld n :=
  { w with table := { w.table with maxRunningProcesses := 1 } }

def pluginlaunchEnableParrallelChecks (w : ProcessWorld n) : ProcessWorld n :=
  { w with table := { w.table with maxRunningProcesses := w.table.oldMaxRunningProcesses } }

/-- A read and an update, again and again while a condition holds after them. -/
def pushDoWhile (go : Processes n → Bool) (w : ProcessWorld n) (state : Fin n → RunningState) :
    Option (ProcessWorld n × (Fin n → RunningState)) :=
  match w.rounds with
  | [] => none
  | round :: rounds =>
      (pushWhile go rounds (pushProcesses round (w.table, state))).map fun (rounds, x) =>
        ({ w with table := x.1, rounds := rounds }, x.2)

def pluginlaunchWaitForFreeProcess (w : ProcessWorld n) (state : Fin n → RunningState) :
    Option (ProcessWorld n × (Fin n → RunningState)) :=
  pushDoWhile (fun t => t.numRunningProcesses = w.table.numRunningProcesses) w state

def pluginlaunchWait (w : ProcessWorld n) (state : Fin n → RunningState) :
    Option (ProcessWorld n × (Fin n → RunningState)) :=
  pushDoWhile (fun t => t.numRunningProcesses ≠ 0) w state

/-- What `plugin_launch` reads of the preferences and of the plugins. -/
structure LaunchConfig (n : Nat) where
  nonSimultPorts : List CString
  pluginTimeout : Fin n → Int
  timeout : Fin n → Int
  pluginsTimeout : Int

/-- Two plugins require a port in common that must not be used simultaneously. -/
def portsConflict (table : PluginTable n) (config : LaunchConfig n) (p q : Fin n) : Bool :=
  ((table.ports p).getD []).any fun name =>
    name ∈ (table.ports q).getD [] ∧ name ∈ config.nonSimultPorts

/-- The wait of `next_free_process` for the process of one slot. -/
def conflictWait (r : Fin maxProcesses) : List Bool → List Round → Launching n →
    Option (List Bool × List Round × Launching n)
  | [], rounds, x => if (x.1.processes r).pid = 0 then some ([], rounds, x) else none
  | answer :: living, rounds, x =>
      if (x.1.processes r).pid = 0 then some (answer :: living, rounds, x)
      else if answer then
        match rounds with
        | [] => none
        | round :: rounds => conflictWait r living rounds (pushProcesses round x)
      else some (living, rounds, x)

/-- The body of the first loop of `next_free_process`. -/
def conflictStep (table : PluginTable n) (config : LaunchConfig n) (upcoming : Fin n)
    (x : List Bool × List Round × Launching n) (r : Fin maxProcesses) :
    Option (List Bool × List Round × Launching n) :=
  let slot := x.2.2.1.processes r
  if 0 < slot.pid ∧ (slot.plugin.any fun q => portsConflict table config q upcoming) then
    conflictWait r x.1 x.2.1 x.2.2
  else some x

/-- The first slot without a process; NULL stands for the index -1. -/
def firstFreeSlot (t : Processes n) : Option (Fin maxProcesses) :=
  (List.finRange maxProcesses).find? fun r => ¬ t.Occupied r

/-- The index of a free slot, after all port conflicts are over. -/
def nextFreeProcess (table : PluginTable n) (config : LaunchConfig n) (upcoming : Fin n)
    (x : List Bool × List Round × Launching n) :
    Option (Option (Fin maxProcesses) × List Bool × List Round × Launching n) :=
  ((List.finRange maxProcesses).foldlM (conflictStep table config upcoming) x).map fun x =>
    (firstFreeSlot x.2.2.1, x)

/-- The timeout of a plugin: its preference, its own, or that of all plugins, which
a scanner does not have. -/
def launchTimeout (table : PluginTable n) (config : LaunchConfig n) (p : Fin n) : Int :=
  if config.pluginTimeout p ≠ 0 then config.pluginTimeout p
  else if config.timeout p ≠ 0 then config.timeout p
  else if table.category p = actScanner then -1
  else config.pluginsTimeout

/-- Why a launch has no result: it waits for a process, or it writes to the slot
before the first one. -/
inductive LaunchStop where
  | waiting
  | outOfBounds
  deriving DecidableEq, Repr

/-- `plugin_launch`, given the process id that `nasl_plugin_launch` returns and the
time of the launch. -/
def pluginLaunch (table : PluginTable n) (config : LaunchConfig n) (p : Fin n) (pid start : Int)
    (w : ProcessWorld n) (state : Fin n → RunningState) :
    Except LaunchStop (ProcessWorld n × (Fin n → RunningState)) :=
  match pushWhile (fun t => t.numRunningProcesses ≥ t.maxRunningProcesses) w.rounds
      (w.table, state) with
  | none => .error .waiting
  | some (rounds, x) =>
      match nextFreeProcess table config p (w.living, rounds, x) with
      | none => .error .waiting
      | some (none, _) => .error .outOfBounds
      | some (some r, living, rounds, t, state) =>
          let slot : Running n :=
            { pid := pid, plugin := some p, start := start,
              timeout := launchTimeout table config p, alive := true }
          let t : Processes n := { t with processes := Function.update t.processes r slot }
          if 0 < pid then
            .ok (⟨{ t with numRunningProcesses := t.numRunningProcesses + 1 }, rounds, living⟩, state)
          else .ok (⟨t, rounds, living⟩, Function.update state p .unrun)

/-- `pluginlaunch_init` with the value of `get_max_checks_number`. -/
def pluginlaunchInit (maxChecks : Int) (rounds : List Round) (living : List Bool) :
    ProcessWorld n :=
  { table :=
      { processes := fun _ => .zero
        numRunningProcesses := 0
        maxRunningProcesses := if maxChecks ≥ maxProcesses then maxProcesses - 1 else maxChecks
        oldMaxRunningProcesses := maxChecks }
    rounds := rounds
    living := living }

/-- A property of the process table and the running states that reads and updates
keep, one slot at a time. -/
structure PushInv (good : Launching n → Prop) : Prop where
  read : ∀ round x, good x → good (readRunningProcesses round x.1, x.2)
  slot : ∀ now x i, good x → good (updateSlot now x i)

section PushInv
variable {good : Launching n → Prop}

theorem PushInv.push (hGood : PushInv good) (round : Round) {x : Launching n} (h : good x) :
    good (pushProcesses round x) := by
  have hRead := hGood.read round x h
  unfold pushProcesses updateRunningProcesses
  split
  · exact hRead
  · exact Run.foldl_invariant good (hGood.slot round.now) hRead _

theorem PushInv.while (hGood : PushInv good) {go : Processes n → Bool}
    {rounds rounds' : List Round} {x x' : Launching n} (h : good x)
    (hPush : pushWhile go rounds x = some (rounds', x')) : good x' ∧ go x'.1 = false := by
  induction rounds generalizing x with
  | nil =>
      rw [pushWhile] at hPush
      split at hPush
      case isTrue => simp at hPush
      case isFalse hStop =>
        obtain ⟨-, rfl⟩ : [] = rounds' ∧ x = x' := by simpa using hPush
        exact ⟨h, by simpa using hStop⟩
  | cons round rounds ih =>
      rw [pushWhile] at hPush
      split at hPush
      case isTrue => exact ih (hGood.push round h) hPush
      case isFalse hStop =>
        obtain ⟨-, rfl⟩ : round :: rounds = rounds' ∧ x = x' := by simpa using hPush
        exact ⟨h, by simpa using hStop⟩

theorem PushInv.doWhile (hGood : PushInv good) {go : Processes n → Bool} {w w' : ProcessWorld n}
    {state state' : Fin n → RunningState} (h : good (w.table, state))
    (hPush : pushDoWhile go w state = some (w', state')) :
    good (w'.table, state') ∧ go w'.table = false := by
  unfold pushDoWhile at hPush
  split at hPush
  case h_1 => simp at hPush
  case h_2 round rounds hRounds =>
    obtain ⟨⟨rounds', x⟩, hWhile, hEq⟩ := Option.map_eq_some_iff.mp hPush
    obtain ⟨rfl, rfl⟩ : { w with table := x.1, rounds := rounds' } = w' ∧ x.2 = state' := by
      simpa using hEq
    exact hGood.while (hGood.push round h) hWhile

theorem PushInv.conflict (hGood : PushInv good) {r : Fin maxProcesses}
    {living living' : List Bool} {rounds rounds' : List Round} {x x' : Launching n} (h : good x)
    (hWait : conflictWait r living rounds x = some (living', rounds', x')) : good x' := by
  induction living generalizing rounds x with
  | nil =>
      rw [conflictWait] at hWait
      split at hWait
      case isTrue =>
        obtain ⟨-, -, rfl⟩ : [] = living' ∧ rounds = rounds' ∧ x = x' := by simpa using hWait
        exact h
      case isFalse => simp at hWait
  | cons answer living ih =>
      rw [conflictWait.eq_def] at hWait
      dsimp only at hWait
      split at hWait
      case isTrue =>
        obtain ⟨-, -, rfl⟩ : answer :: living = living' ∧ rounds = rounds' ∧ x = x' := by
          simpa using hWait
        exact h
      case isFalse =>
        split at hWait
        case isTrue =>
          split at hWait
          case h_1 => simp at hWait
          case h_2 round rounds => exact ih (hGood.push round h) hWait
        case isFalse =>
          obtain ⟨-, -, rfl⟩ : living = living' ∧ rounds = rounds' ∧ x = x' := by simpa using hWait
          exact h

theorem PushInv.nextFree (hGood : PushInv good) {table : PluginTable n}
    {config : LaunchConfig n} {p : Fin n} {x y : List Bool × List Round × Launching n}
    {r : Option (Fin maxProcesses)} (h : good x.2.2)
    (hNext : nextFreeProcess table config p x = some (r, y)) :
    good y.2.2 ∧ r = firstFreeSlot y.2.2.1 := by
  have hFold : ∀ (slots : List (Fin maxProcesses)) (x : List Bool × List Round × Launching n),
      good x.2.2 → slots.foldlM (conflictStep table config p) x = some y → good y.2.2 := by
    intro slots
    induction slots with
    | nil =>
        intro x hx hEq
        obtain rfl : x = y := by simpa using hEq
        exact hx
    | cons i slots ih =>
        intro x hx hEq
        rw [List.foldlM_cons] at hEq
        obtain ⟨mid, hMid, hRest⟩ := Option.bind_eq_some_iff.mp hEq
        refine ih mid ?_ hRest
        unfold conflictStep at hMid
        dsimp only at hMid
        split at hMid
        case isTrue => exact hGood.conflict hx hMid
        case isFalse =>
          obtain rfl := Option.some.inj hMid
          exact hx
  obtain ⟨z, hz, hEq⟩ := Option.map_eq_some_iff.mp hNext
  obtain ⟨rfl, rfl⟩ : firstFreeSlot z.2.2.1 = r ∧ z = y := by simpa using hEq
  exact ⟨hFold _ x h hz, rfl⟩

end PushInv

/-- The process table and the running states after a launch into a slot. -/
def launchInto (table : PluginTable n) (config : LaunchConfig n) (p : Fin n) (pid start : Int)
    (r : Fin maxProcesses) (x : Launching n) : Launching n :=
  let slot : Running n :=
    { pid := pid, plugin := some p, start := start,
      timeout := launchTimeout table config p, alive := true }
  let t : Processes n := { x.1 with processes := Function.update x.1.processes r slot }
  if 0 < pid then ({ t with numRunningProcesses := t.numRunningProcesses + 1 }, x.2)
  else (t, Function.update x.2 p .unrun)

/-- What a launch can do: it waits for room and for conflicting plugins, and it
takes the first slot that is free then. -/
theorem pluginLaunch_cases (table : PluginTable n) (config : LaunchConfig n) (p : Fin n)
    (pid start : Int) (w : ProcessWorld n) (state : Fin n → RunningState) :
    pluginLaunch table config p pid start w state = .error .waiting ∨
    ∃ rounds x living rounds' y,
      pushWhile (fun t => t.numRunningProcesses ≥ t.maxRunningProcesses) w.rounds
        (w.table, state) = some (rounds, x) ∧
      nextFreeProcess table config p (w.living, rounds, x) =
        some (firstFreeSlot y.1, living, rounds', y) ∧
      pluginLaunch table config p pid start w state =
        match firstFreeSlot y.1 with
        | none => .error .outOfBounds
        | some r =>
            let z := launchInto table config p pid start r y
            .ok (⟨z.1, rounds', living⟩, z.2) := by
  rw [pluginLaunch]
  cases hPush : pushWhile (fun t => t.numRunningProcesses ≥ t.maxRunningProcesses) w.rounds
      (w.table, state) with
  | none => exact Or.inl rfl
  | some pushed =>
      obtain ⟨rounds, x⟩ := pushed
      cases hNext : nextFreeProcess table config p (w.living, rounds, x) with
      | none => exact Or.inl (by simp only [hNext])
      | some found =>
          obtain ⟨r, living, rounds', y⟩ := found
          have hSlot : r = firstFreeSlot y.1 := by
            obtain ⟨z, -, hEq⟩ := Option.map_eq_some_iff.mp hNext
            obtain ⟨rfl, rfl⟩ : firstFreeSlot z.2.2.1 = r ∧ z = (living, rounds', y) := by
              simpa using hEq
            rfl
          subst hSlot
          refine Or.inr ⟨rounds, x, living, rounds', y, rfl, hNext, ?_⟩
          simp only [hNext]
          cases firstFreeSlot y.1 with
          | none => rfl
          | some r =>
              by_cases hPid : 0 < pid
              · simp [launchInto, hPid]
              · simp [launchInto, hPid]

/-- The count of processes is the number of occupied slots. -/
def Counted (t : Processes n) : Prop :=
  t.numRunningProcesses = (Finset.univ.filter t.Occupied).card

theorem Counted.congr {t t' : Processes n} (h : Counted t)
    (hOccupied : ∀ i, t'.Occupied i ↔ t.Occupied i)
    (hNum : t'.numRunningProcesses = t.numRunningProcesses) : Counted t' := by
  rw [Counted, hNum, h, Finset.filter_congr fun i _ => hOccupied i]

theorem Counted.pos {t : Processes n} (h : Counted t) {i : Fin maxProcesses} (hi : t.Occupied i) :
    0 < t.numRunningProcesses := by
  have hMem : i ∈ Finset.univ.filter t.Occupied := Finset.mem_filter.mpr ⟨Finset.mem_univ i, hi⟩
  have hCard := Finset.card_pos.mpr ⟨i, hMem⟩
  rw [h]
  omega

@[simp] theorem pid_readRunningProcesses (round : Round) (t : Processes n) (i : Fin maxProcesses) :
    ((readRunningProcesses round t).processes i).pid = (t.processes i).pid := by
  unfold readRunningProcesses
  split
  · rfl
  · split
    · dsimp only
      split <;> rfl
    · rfl

@[simp] theorem plugin_readRunningProcesses (round : Round) (t : Processes n)
    (i : Fin maxProcesses) :
    ((readRunningProcesses round t).processes i).plugin = (t.processes i).plugin := by
  unfold readRunningProcesses
  split
  · rfl
  · split
    · dsimp only
      split <;> rfl
    · rfl

@[simp] theorem max_readRunningProcesses (round : Round) (t : Processes n) :
    (readRunningProcesses round t).maxRunningProcesses = t.maxRunningProcesses := by
  unfold readRunningProcesses
  split
  · rfl
  · split <;> rfl

@[simp] theorem oldMax_readRunningProcesses (round : Round) (t : Processes n) :
    (readRunningProcesses round t).oldMaxRunningProcesses = t.oldMaxRunningProcesses := by
  unfold readRunningProcesses
  split
  · rfl
  · split <;> rfl

@[simp] theorem occupied_readRunningProcesses (round : Round) (t : Processes n)
    (i : Fin maxProcesses) : (readRunningProcesses round t).Occupied i ↔ t.Occupied i := by
  simp [Processes.Occupied]

/-- A read resets the count only where it is wrong. -/
theorem num_readRunningProcesses (round : Round) {t : Processes n} (h : Counted t) :
    (readRunningProcesses round t).numRunningProcesses = t.numRunningProcesses := by
  unfold readRunningProcesses
  split
  case isTrue => rfl
  case isFalse hNum =>
    split
    case isTrue =>
      have hSome : ∃ i, t.Occupied i := by
        by_contra hNone
        simp only [not_exists] at hNone
        rw [Counted] at h
        exact hNum (by simp [h, hNone])
      exact if_pos hSome
    case isFalse => rfl

theorem counted_readRunningProcesses (round : Round) {t : Processes n} (h : Counted t) :
    Counted (readRunningProcesses round t) :=
  h.congr (occupied_readRunningProcesses round t) (num_readRunningProcesses round h)

/-- A process that is dead or timed out leaves its slot. -/
def endProcess (x : Launching n) (i : Fin maxProcesses) : Launching n :=
  ({ x.1 with
     processes := Function.update x.1.processes i .zero
     numRunningProcesses := x.1.numRunningProcesses - 1 },
   match (x.1.processes i).plugin with
   | some p => Function.update x.2 p .done
   | none => x.2)

theorem updateSlot_cases (now : Int) (x : Launching n) (i : Fin maxProcesses) :
    updateSlot now x i = x ∨ (x.1.Occupied i ∧ updateSlot now x i = endProcess x i) := by
  unfold updateSlot
  dsimp only
  split
  case isTrue hEnd => exact Or.inr ⟨hEnd.1, rfl⟩
  case isFalse => exact Or.inl rfl

theorem occupied_endProcess (x : Launching n) (i j : Fin maxProcesses) :
    (endProcess x i).1.Occupied j ↔ j ≠ i ∧ x.1.Occupied j := by
  rcases eq_or_ne j i with rfl | hj
  · simp [endProcess, Processes.Occupied, Running.zero]
  · simp [endProcess, Processes.Occupied, hj]

theorem counted_endProcess {x : Launching n} {i : Fin maxProcesses} (h : Counted x.1)
    (hi : x.1.Occupied i) : Counted (endProcess x i).1 := by
  have hErase : Finset.univ.filter (endProcess x i).1.Occupied =
      (Finset.univ.filter x.1.Occupied).erase i := by
    ext j
    simp only [Finset.mem_filter, Finset.mem_univ, true_and, Finset.mem_erase,
      occupied_endProcess]
  have hMem : i ∈ Finset.univ.filter x.1.Occupied :=
    Finset.mem_filter.mpr ⟨Finset.mem_univ i, hi⟩
  have hPos : 0 < (Finset.univ.filter x.1.Occupied).card := Finset.card_pos.mpr ⟨i, hMem⟩
  have hNum : (endProcess x i).1.numRunningProcesses = x.1.numRunningProcesses - 1 := rfl
  rw [Counted, hErase, Finset.card_erase_of_mem hMem, hNum, h]
  omega

theorem occupied_launchInto (table : PluginTable n) (config : LaunchConfig n) (p : Fin n)
    (pid start : Int) (r : Fin maxProcesses) (x : Launching n) (i : Fin maxProcesses) :
    (launchInto table config p pid start r x).1.Occupied i ↔
      if i = r then 0 < pid else x.1.Occupied i := by
  unfold launchInto Processes.Occupied
  by_cases hPid : 0 < pid <;> by_cases hi : i = r <;> simp [hPid, hi]

@[simp] theorem max_launchInto (table : PluginTable n) (config : LaunchConfig n) (p : Fin n)
    (pid start : Int) (r : Fin maxProcesses) (x : Launching n) :
    (launchInto table config p pid start r x).1.maxRunningProcesses = x.1.maxRunningProcesses := by
  unfold launchInto
  by_cases hPid : 0 < pid <;> simp [hPid]

@[simp] theorem oldMax_launchInto (table : PluginTable n) (config : LaunchConfig n) (p : Fin n)
    (pid start : Int) (r : Fin maxProcesses) (x : Launching n) :
    (launchInto table config p pid start r x).1.oldMaxRunningProcesses =
      x.1.oldMaxRunningProcesses := by
  unfold launchInto
  by_cases hPid : 0 < pid <;> simp [hPid]

theorem counted_launchInto {table : PluginTable n} {config : LaunchConfig n} {p : Fin n}
    {pid start : Int} {r : Fin maxProcesses} {x : Launching n} (h : Counted x.1)
    (hFree : ¬ x.1.Occupied r) : Counted (launchInto table config p pid start r x).1 := by
  by_cases hPid : 0 < pid
  · have hInsert : Finset.univ.filter (launchInto table config p pid start r x).1.Occupied =
        insert r (Finset.univ.filter x.1.Occupied) := by
      ext i
      simp only [Finset.mem_filter, Finset.mem_univ, true_and, Finset.mem_insert,
        occupied_launchInto]
      by_cases hi : i = r <;> simp [hi, hPid]
    have hNum : (launchInto table config p pid start r x).1.numRunningProcesses =
        x.1.numRunningProcesses + 1 := by
      simp [launchInto, hPid]
    rw [Counted, hInsert, Finset.card_insert_of_notMem (by simpa using hFree), hNum, h]
    omega
  · refine h.congr (fun i => ?_) (by simp [launchInto, hPid])
    rw [occupied_launchInto]
    by_cases hi : i = r
    · subst hi
      simp [hPid, hFree]
    · simp [hi]

/-- Every process runs a plugin of its own that is in the state RUNNING, and the
count of processes is right. -/
structure Consistent (t : Processes n) (state : Fin n → RunningState) : Prop where
  running : ∀ i, t.Occupied i → ∃ p, (t.processes i).plugin = some p ∧ state p = .running
  single : ∀ i j, t.Occupied i → t.Occupied j → (t.processes i).plugin = (t.processes j).plugin →
    i = j
  count : t.numRunningProcesses = (Finset.univ.filter t.Occupied).card

/-- Between two process tables some processes have ended, and nothing else
happened to the plugins. -/
structure Freed (x x' : Launching n) : Prop where
  slot : ∀ i, x'.1.Occupied i → x.1.Occupied i ∧
    (x'.1.processes i).plugin = (x.1.processes i).plugin
  state : ∀ p, x'.2 p = x.2 p ∨ (x.2 p = .running ∧ x'.2 p = .done)
  absent : ∀ p, (∀ i, x.1.Occupied i → (x.1.processes i).plugin ≠ some p) → x'.2 p = x.2 p
  progress : x'.1.numRunningProcesses = x.1.numRunningProcesses ∨
    ∃ p, x.2 p = .running ∧ x'.2 p = .done
  oldMax : x'.1.oldMaxRunningProcesses = x.1.oldMaxRunningProcesses
  max : x'.1.maxRunningProcesses = x.1.maxRunningProcesses
  consistent : Consistent x'.1 x'.2

theorem Freed.refl {x : Launching n} (h : Consistent x.1 x.2) : Freed x x :=
  ⟨fun _ hi => ⟨hi, rfl⟩, fun _ => Or.inl rfl, fun _ _ => rfl, Or.inl rfl, rfl, rfl, h⟩

theorem Freed.trans {x y z : Launching n} (hxy : Freed x y) (hyz : Freed y z) : Freed x z where
  slot i hi := by
    obtain ⟨hy, hPlugin⟩ := hyz.slot i hi
    obtain ⟨hx, hPlugin'⟩ := hxy.slot i hy
    exact ⟨hx, hPlugin.trans hPlugin'⟩
  state p := by
    rcases hxy.state p with h | ⟨h, h'⟩
    · simpa only [h] using hyz.state p
    · rcases hyz.state p with k | ⟨k, -⟩
      · exact Or.inr ⟨h, k.trans h'⟩
      · simp [h'] at k
  absent p hp := by
    refine (hyz.absent p fun i hi => ?_).trans (hxy.absent p hp)
    obtain ⟨hx, hPlugin⟩ := hxy.slot i hi
    rw [hPlugin]
    exact hp i hx
  progress := by
    rcases hyz.progress with h | ⟨p, h, h'⟩
    · rcases hxy.progress with k | ⟨p, k, k'⟩
      · exact Or.inl (h.trans k)
      · refine Or.inr ⟨p, k, ?_⟩
        rcases hyz.state p with e | ⟨e, -⟩
        · exact e.trans k'
        · simp [k'] at e
    · refine Or.inr ⟨p, ?_, h'⟩
      rcases hxy.state p with e | ⟨-, e⟩
      · exact e.symm.trans h
      · simp [e] at h
  oldMax := hyz.oldMax.trans hxy.oldMax
  max := hyz.max.trans hxy.max
  consistent := hyz.consistent

/-- Only the pids, the plugins and the count matter. -/
theorem Consistent.congr {t t' : Processes n} {state : Fin n → RunningState}
    (h : Consistent t state) (hPid : ∀ i, (t'.processes i).pid = (t.processes i).pid)
    (hPlugin : ∀ i, (t'.processes i).plugin = (t.processes i).plugin)
    (hNum : t'.numRunningProcesses = t.numRunningProcesses) : Consistent t' state := by
  have hOccupied : t'.Occupied = t.Occupied := by
    funext i
    simp only [Processes.Occupied, hPid]
  refine ⟨fun i hi => ?_, fun i j hi hj hij => ?_, ?_⟩
  · rw [hOccupied] at hi
    rw [hPlugin]
    exact h.running i hi
  · rw [hOccupied] at hi hj
    exact h.single i j hi hj (by rwa [hPlugin, hPlugin] at hij)
  · simp only [hNum, h.count, hOccupied]

theorem freed_readRunningProcesses (round : Round) {t : Processes n} {state : Fin n → RunningState}
    (h : Consistent t state) : Freed (t, state) (readRunningProcesses round t, state) where
  slot i hi := by simpa using hi
  state _ := Or.inl rfl
  absent _ _ := rfl
  progress := Or.inl (num_readRunningProcesses round h.count)
  oldMax := oldMax_readRunningProcesses round t
  max := max_readRunningProcesses round t
  consistent := h.congr (by simp) (by simp) (num_readRunningProcesses round h.count)

theorem freed_endProcess {x : Launching n} (h : Consistent x.1 x.2) {i : Fin maxProcesses}
    (hi : x.1.Occupied i) : Freed x (endProcess x i) := by
  obtain ⟨p, hp, hRunning⟩ := h.running i hi
  have hState : (endProcess x i).2 = Function.update x.2 p .done := by simp [endProcess, hp]
  have hOther {j : Fin maxProcesses} (hj : (endProcess x i).1.Occupied j) :
      j ≠ i ∧ x.1.Occupied j ∧ (endProcess x i).1.processes j = x.1.processes j := by
    obtain ⟨hji, hOccupied⟩ := (occupied_endProcess x i j).mp hj
    exact ⟨hji, hOccupied, Function.update_of_ne hji _ _⟩
  refine ⟨fun j hj => ?_, fun q => ?_, fun q hq => ?_, Or.inr ⟨p, hRunning, by simp [hState]⟩, rfl,
    rfl, ⟨fun j hj => ?_, fun j k hj hk hjk => ?_, counted_endProcess h.count hi⟩⟩
  · obtain ⟨-, hOccupied, hSame⟩ := hOther hj
    exact ⟨hOccupied, by rw [hSame]⟩
  · rw [hState]
    rcases eq_or_ne q p with rfl | hq
    · exact Or.inr ⟨hRunning, by simp⟩
    · exact Or.inl (by simp [hq])
  · have hqp : q ≠ p := by
      rintro rfl
      exact hq i hi hp
    simp [hState, hqp]
  · obtain ⟨hji, hOccupied, hSame⟩ := hOther hj
    obtain ⟨q, hq, hRun⟩ := h.running j hOccupied
    have hqp : q ≠ p := by
      rintro rfl
      exact hji (h.single j i hOccupied hi (hq.trans hp.symm))
    exact ⟨q, by rw [hSame, hq], by simpa [hState, hqp] using hRun⟩
  · obtain ⟨-, hOccupied, hSame⟩ := hOther hj
    obtain ⟨-, hOccupied', hSame'⟩ := hOther hk
    rw [hSame, hSame'] at hjk
    exact h.single j k hOccupied hOccupied' hjk

theorem freed_updateSlot (now : Int) {x : Launching n} (h : Consistent x.1 x.2)
    (i : Fin maxProcesses) : Freed x (updateSlot now x i) := by
  rcases updateSlot_cases now x i with hSame | ⟨hi, hEnd⟩
  · rw [hSame]
    exact Freed.refl h
  · rw [hEnd]
    exact freed_endProcess h hi

theorem pushInv_freed (x : Launching n) : PushInv (Freed x) where
  read round _ h := h.trans (freed_readRunningProcesses round h.consistent)
  slot now _ i h := h.trans (freed_updateSlot now h.consistent i)

theorem freed_pushDoWhile {go : Processes n → Bool} {w w' : ProcessWorld n}
    {state state' : Fin n → RunningState} (h : Consistent w.table state)
    (hPush : pushDoWhile go w state = some (w', state')) :
    Freed (w.table, state) (w'.table, state') ∧ go w'.table = false :=
  (pushInv_freed (w.table, state)).doWhile (Freed.refl h) hPush

/-- A launch that put a process into a free slot of a process table. -/
structure Launched (w : ProcessWorld n) (state : Fin n → RunningState) (p : Fin n)
    (w' : ProcessWorld n) (state' : Fin n → RunningState) (t : Processes n)
    (r : Fin maxProcesses) : Prop where
  freed : Freed (w.table, state) (t, state')
  free : ¬ t.Occupied r
  alone : w.table.maxRunningProcesses ≤ 1 → ∀ i, ¬ t.Occupied i
  self : w'.table.Occupied r ∧ (w'.table.processes r).plugin = some p
  other : ∀ i, i ≠ r → w'.table.processes i = t.processes i
  num : w'.table.numRunningProcesses = t.numRunningProcesses + 1
  oldMax : w'.table.oldMaxRunningProcesses = t.oldMaxRunningProcesses

theorem pluginLaunch_launched {table : PluginTable n} {config : LaunchConfig n} {p : Fin n}
    {pid start : Int} {w w' : ProcessWorld n} {state state' : Fin n → RunningState}
    (h : Consistent w.table state) (hPid : 0 < pid)
    (hLaunch : pluginLaunch table config p pid start w state = .ok (w', state')) :
    ∃ t r, Launched w state p w' state' t r := by
  rcases pluginLaunch_cases table config p pid start w state with
    hWait | ⟨rounds, x, living, rounds', y, hPush, hNext, hEq⟩
  · simp [hWait] at hLaunch
  · obtain ⟨hFreed, hRoom⟩ := (pushInv_freed _).while (Freed.refl h) hPush
    obtain ⟨hFreed', -⟩ := (pushInv_freed x).nextFree (Freed.refl hFreed.consistent) hNext
    rw [hEq] at hLaunch
    split at hLaunch
    case h_1 => simp at hLaunch
    case h_2 r hSlot =>
      simp only [launchInto, if_pos hPid] at hLaunch
      obtain ⟨rfl, rfl⟩ := Prod.mk.inj (Except.ok.inj hLaunch)
      have hFree : ¬ y.1.Occupied r := by
        simpa using List.find?_some hSlot
      refine ⟨y.1, r, hFreed.trans hFreed', hFree, fun hMax i hi => ?_, ?_, fun i hi => ?_, rfl,
        rfl⟩
      · have hOccupied : x.1.Occupied i := (hFreed'.slot i hi).1
        have hCard : 0 < (Finset.univ.filter x.1.Occupied).card :=
          Finset.card_pos.mpr ⟨i, Finset.mem_filter.mpr ⟨Finset.mem_univ i, hOccupied⟩⟩
        have hCount := hFreed.consistent.count
        have hLimit := hFreed.max
        have hLess : x.1.numRunningProcesses < x.1.maxRunningProcesses := by simpa using hRoom
        simp only at hLimit
        omega
      · exact ⟨by simpa [Processes.Occupied] using hPid, by simp⟩
      · simp [hi]

/-- After a launch the process table is consistent with the running states. -/
theorem Launched.consistent {w w' : ProcessWorld n} {state state' : Fin n → RunningState}
    {p : Fin n} {t : Processes n} {r : Fin maxProcesses} (h : Launched w state p w' state' t r)
    (hAbsent : ∀ i, w.table.Occupied i → (w.table.processes i).plugin ≠ some p)
    (hRunning : state p = .running) : Consistent w'.table state' := by
  have hOther {i : Fin maxProcesses} (hi : w'.table.Occupied i) (hir : i ≠ r) : t.Occupied i := by
    simpa [Processes.Occupied, h.other i hir] using hi
  have hSlot {i : Fin maxProcesses} (hi : t.Occupied i) : (t.processes i).plugin ≠ some p := by
    obtain ⟨hOccupied, hPlugin⟩ := h.freed.slot i hi
    exact fun hp => hAbsent i hOccupied (hPlugin.symm.trans hp)
  refine ⟨fun i hi => ?_, fun i j hi hj hij => ?_, ?_⟩
  · rcases eq_or_ne i r with rfl | hir
    · exact ⟨p, h.self.2, (h.freed.absent p hAbsent).trans hRunning⟩
    · rw [h.other i hir]
      exact h.freed.consistent.running i (hOther hi hir)
  · rcases eq_or_ne i r with rfl | hir <;> rcases eq_or_ne j i with rfl | hji
    · rfl
    · rw [h.self.2, h.other j hji] at hij
      exact absurd hij.symm (hSlot (hOther hj hji))
    · rfl
    · rcases eq_or_ne j r with rfl | hjr
      · rw [h.self.2, h.other i hir] at hij
        exact absurd hij (hSlot (hOther hi hir))
      · rw [h.other i hir, h.other j hjr] at hij
        exact h.freed.consistent.single i j (hOther hi hir) (hOther hj hjr) hij
  · have hInsert : Finset.univ.filter w'.table.Occupied =
        insert r (Finset.univ.filter t.Occupied) := by
      ext i
      simp only [Finset.mem_filter, Finset.mem_univ, true_and, Finset.mem_insert]
      rcases eq_or_ne i r with rfl | hir
      · simp [h.self.1]
      · simp [hir, Processes.Occupied, h.other i hir]
    have hCount : t.numRunningProcesses = (Finset.univ.filter t.Occupied).card :=
      h.freed.consistent.count
    rw [hInsert, Finset.card_insert_of_notMem (by simpa using h.free), h.num, hCount]
    omega

/-- `pluginlaunch.c` as the scheduler uses it. -/
def pluginlaunch (n : Nat) : Launcher n where
  World := ProcessWorld n
  disableParrallelChecks := pluginlaunchDisableParrallelChecks
  enableParrallelChecks := pluginlaunchEnableParrallelChecks
  waitForFreeProcess := pluginlaunchWaitForFreeProcess
  Inv w state := Consistent w.table state
  disable_inv _ _ h := ⟨h.running, h.single, h.count⟩
  enable_inv _ _ h := ⟨h.running, h.single, h.count⟩
  inv_mono w state state' h hRunning := by
    refine ⟨fun i hi => ?_, h.single, h.count⟩
    obtain ⟨p, hp, hState⟩ := h.running i hi
    exact ⟨p, hp, hRunning p hState⟩
  wait_inv _ _ _ _ h hWait := (freed_pushDoWhile h hWait).1.consistent
  wait_finishes _ _ _ _ h hWait := (freed_pushDoWhile h hWait).1.state
  wait_progress w state w' state' h hWait := by
    obtain ⟨hFreed, hStop⟩ := freed_pushDoWhile h hWait
    rcases hFreed.progress with hNum | hSome
    · exact absurd hNum (by simpa using hStop)
    · exact hSome

end Scheduler
