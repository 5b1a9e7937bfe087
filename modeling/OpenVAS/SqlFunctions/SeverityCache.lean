import OpenVAS.Lib.CString
import Mathlib.Data.List.Induction

/-! The cache of task severities in `sql.c`. One statement can call the functions that use it
at several places; each place gets the cache from SQLite once it has been set there, and
SQLite may drop it at any time, which clears it for all of them. -/
namespace SqlFunctions

open CString

/-- The two entries, for severities without and with overrides. -/
structure Cache where
  task : Nat
  severity : Option CString
  overridesTask : Nat
  overridesSeverity : Option CString
  deriving DecidableEq

def clearCache : Cache := ⟨0, none, 0, none⟩

section Calls

-- The severities of tasks, without and with overrides.
variable (taskSeverity : Nat → Bool → Option CString)

/-- The severity that is returned, and the cache behind. `installed` tells whether SQLite has
the cache for the place of the call. -/
def cachedTaskSeverity (cache : Cache) (installed : Bool) (task : Nat) (overrides : Bool) :
    Option CString × Cache :=
  if installed then
    if overrides then
      if cache.overridesTask = task then (cache.overridesSeverity, cache)
      else
        -- Replace the cached severity.
        let cache := { cache with
          overridesTask := task, overridesSeverity := taskSeverity task true }
        (cache.severity, cache)
    else if cache.task = task then (cache.severity, cache)
    else
      -- Replace the cached severity.
      let cache := { cache with task := task, severity := taskSeverity task false }
      (cache.severity, cache)
  else
    let severity := taskSeverity task overrides
    -- Setup the cached severity.
    if overrides then
      (severity, { cache with overridesTask := task, overridesSeverity := severity })
    else (severity, { cache with task := task, severity := severity })

/-- What happens within a statement. -/
inductive Event where
  | call (place task : Nat) (overrides : Bool)
  | drop (place : Nat)
  deriving DecidableEq

/-- The cache, and the places for which SQLite has it. -/
structure State where
  cache : Cache
  places : List Nat
  deriving DecidableEq

/-- The beginning of a statement. The statements before have cleared the cache. -/
def State.start : State := ⟨clearCache, []⟩

def State.next (state : State) : Event → State
  | .call place task overrides =>
      ⟨(cachedTaskSeverity taskSeverity state.cache (place ∈ state.places) task overrides).2,
        place :: state.places⟩
  | .drop place =>
      if place ∈ state.places then ⟨clearCache, state.places.filter (· ≠ place)⟩ else state

def run (events : List Event) : State := events.foldl (State.next taskSeverity) State.start

/-- A call gets the severity of its task. -/
def Transparent (state : State) : Event → Prop
  | .call place task overrides =>
      (cachedTaskSeverity taskSeverity state.cache (place ∈ state.places) task overrides).1 =
        taskSeverity task overrides
  | .drop _ => True

/-- A call with overrides that replaces the cached severity finds the same severity in the
entry without overrides, which it returns. -/
def Lucky (state : State) : Event → Prop
  | .call place task overrides =>
      overrides = true → place ∈ state.places → state.cache.overridesTask ≠ task →
        state.cache.severity = taskSeverity task true
  | .drop _ => True

/-- An entry is empty or holds the severity of its task. -/
structure Cache.Right (cache : Cache) : Prop where
  plain : cache.task ≠ 0 → cache.severity = taskSeverity cache.task false
  overrides : cache.overridesTask ≠ 0 → cache.overridesSeverity = taskSeverity cache.overridesTask true

variable {taskSeverity}

theorem clearCache_right : clearCache.Right taskSeverity := ⟨fun h => absurd rfl h, fun h => absurd rfl h⟩

/-- The cache is right after every call, also when the answer is not. -/
theorem cachedTaskSeverity_right {cache : Cache} (h : cache.Right taskSeverity) (installed : Bool)
    (task : Nat) (overrides : Bool) :
    (cachedTaskSeverity taskSeverity cache installed task overrides).2.Right taskSeverity := by
  cases installed with
  | false =>
      cases overrides with
      | false => exact ⟨fun _ => rfl, h.overrides⟩
      | true => exact ⟨h.plain, fun _ => rfl⟩
  | true =>
      cases overrides with
      | false =>
          by_cases hTask : cache.task = task
          · simp [cachedTaskSeverity, hTask, h]
          · simp only [cachedTaskSeverity, hTask, if_true, if_false]
            exact ⟨fun _ => rfl, h.overrides⟩
      | true =>
          by_cases hTask : cache.overridesTask = task
          · simp [cachedTaskSeverity, hTask, h]
          · simp only [cachedTaskSeverity, hTask, if_true, if_false]
            exact ⟨h.plain, fun _ => rfl⟩

theorem next_right {state : State} (h : state.cache.Right taskSeverity) (event : Event) :
    (state.next taskSeverity event).cache.Right taskSeverity := by
  cases event with
  | call place task overrides => exact cachedTaskSeverity_right h _ task overrides
  | drop place =>
      rw [State.next]
      split
      · exact clearCache_right
      · exact h

theorem run_right (events : List Event) : (run taskSeverity events).cache.Right taskSeverity := by
  induction events using List.reverseRecOn with
  | nil => exact clearCache_right
  | append_singleton events event ih =>
      rw [run, List.foldl_append]
      exact next_right ih event

/-- With a right cache, a call fails only on the path that returns the other entry. -/
theorem transparent_iff_lucky {state : State} (h : state.cache.Right taskSeverity)
    {place task : Nat} (hTask : task ≠ 0) (overrides : Bool) :
    Transparent taskSeverity state (.call place task overrides) ↔
      Lucky taskSeverity state (.call place task overrides) := by
  rw [Transparent, Lucky]
  by_cases hPlace : place ∈ state.places
  · cases overrides with
    | false =>
        have hRight : (cachedTaskSeverity taskSeverity state.cache true task false).1 =
            taskSeverity task false := by
          by_cases hSame : state.cache.task = task
          · have hSeverity := h.plain (hSame ▸ hTask)
            simp [cachedTaskSeverity, hSame, hSeverity]
          · simp [cachedTaskSeverity, hSame]
        simp [hPlace, hRight]
    | true =>
        by_cases hSame : state.cache.overridesTask = task
        · have hSeverity := h.overrides (hSame ▸ hTask)
          simp [cachedTaskSeverity, hPlace, hSame, hSeverity]
        · simp [cachedTaskSeverity, hPlace, hSame]
  · cases overrides with
    | false => simp [cachedTaskSeverity, hPlace]
    | true => simp [cachedTaskSeverity, hPlace]

/-- A call for a task that there can be. -/
def Event.Named : Event → Prop
  | .call _ task _ => task ≠ 0
  | .drop _ => True

/-- In a statement, all calls get the severities of their tasks exactly when none replaces an
entry for overrides by bad luck. -/
theorem statement_transparent_iff {events : List Event} (hNamed : ∀ event ∈ events, event.Named) :
    (∀ before event after, events = before ++ event :: after →
      Transparent taskSeverity (run taskSeverity before) event) ↔
    ∀ before event after, events = before ++ event :: after →
      Lucky taskSeverity (run taskSeverity before) event := by
  have hStep : ∀ before event after, events = before ++ event :: after →
      (Transparent taskSeverity (run taskSeverity before) event ↔
        Lucky taskSeverity (run taskSeverity before) event) := by
    intro before event after hEvents
    have hEvent := hNamed event (hEvents ▸ List.mem_append_right before List.mem_cons_self)
    cases event with
    | call place task overrides => exact transparent_iff_lucky (run_right before) hEvent overrides
    | drop place => exact Iff.rfl
  constructor
  · intro h before event after hEvents
    exact (hStep before event after hEvents).mp (h before event after hEvents)
  · intro h before event after hEvents
    exact (hStep before event after hEvents).mpr (h before event after hEvents)

end Calls

/-- Two tasks that have severities with overrides only. -/
def overridden (task : Nat) (overrides : Bool) : Option CString :=
  if overrides then some (if task = 1 then lit "5.0" else lit "7.0") else none

/-- Two rows with a column of severities and one with overrides, which is asked for elsewhere
first in the second row. -/
def twoRows : List Event :=
  [.call 0 1 false, .call 1 1 true, .call 0 2 false, .call 2 2 true, .call 1 2 true]

theorem statement_transparent_twoRows :
    (∀ before event after, twoRows = before ++ event :: after →
      Lucky overridden (run overridden before) event) ∧
    ∀ before event after, twoRows = before ++ event :: after →
      Transparent overridden (run overridden before) event := by
  have hNamed : ∀ event ∈ twoRows, event.Named := by simp [twoRows, Event.Named]
  refine (and_iff_left_of_imp (statement_transparent_iff hNamed).mpr).mpr ?_
  rintro (_ | ⟨_, _ | ⟨_, _ | ⟨_, _ | ⟨_, _ | ⟨_, before⟩⟩⟩⟩⟩) event after hEvents
  · cases hEvents
    exact fun hOverrides => nomatch hOverrides
  · cases hEvents
    exact fun _ hPlace => absurd hPlace (by decide)
  · cases hEvents
    exact fun hOverrides => nomatch hOverrides
  · cases hEvents
    exact fun _ hPlace => absurd hPlace (by decide)
  · cases hEvents
    exact fun _ _ hOther => absurd rfl hOther
  · simp [twoRows] at hEvents

/-- The second row of a list of tasks with overrides gets no severity. -/
theorem not_statement_transparent :
    ¬ ∀ before event after, [Event.call 0 1 true, .call 0 2 true] = before ++ event :: after →
      Transparent overridden (run overridden before) event := by
  intro h
  have hSecond : none = some (lit "7.0") := h [.call 0 1 true] (.call 0 2 true) [] rfl
  cases hSecond

end SqlFunctions
