import Mathlib.Data.List.Basic

/-! Runs of a deterministic step function over a list of operations. A property
of states is compared with a condition on the steps, so that one step lemma
decides it along the whole run, including every intermediate state. -/
namespace Run

variable {State Op : Type*} (step : State → Op → State)

/-- Every state of the run, the first and the last one included, satisfies `good`. -/
def AllStates (good : State → Prop) : State → List Op → Prop
  | start, [] => good start
  | start, op :: ops => good start ∧ AllStates good (step start op) ops

/-- Every operation of the run meets `safe` in the state it is applied to. -/
def AllSteps (safe : State → Op → Prop) : State → List Op → Prop
  | _, [] => True
  | start, op :: ops => safe start op ∧ AllSteps safe (step start op) ops

variable {step}

theorem AllStates.start {good : State → Prop} {start : State} {ops : List Op}
    (h : AllStates step good start ops) : good start := by
  cases ops with
  | nil => exact h
  | cons op ops => exact h.1

theorem AllStates.final {good : State → Prop} {start : State} {ops : List Op}
    (h : AllStates step good start ops) : good (ops.foldl step start) := by
  induction ops generalizing start with
  | nil => exact h
  | cons op ops ih => exact ih h.2

/-- What holds in every state holds at the start and after every step. -/
theorem allStates_iff {good : State → Prop} {start : State} {ops : List Op} :
    AllStates step good start ops ↔
      good start ∧ AllSteps step (fun state op => good (step state op)) start ops := by
  induction ops generalizing start with
  | nil => exact ⟨fun h => ⟨h, trivial⟩, fun h => h.1⟩
  | cons op ops ih => exact and_congr_right fun _ => ih

theorem allSteps_and {safe safe' : State → Op → Prop} {start : State} {ops : List Op} :
    AllSteps step (fun state op => safe state op ∧ safe' state op) start ops ↔
      AllSteps step safe start ops ∧ AllSteps step safe' start ops := by
  induction ops generalizing start with
  | nil => exact ⟨fun _ => ⟨trivial, trivial⟩, fun _ => trivial⟩
  | cons op ops ih => exact (and_congr_right fun _ => ih).trans and_and_and_comm

/-- Two properties that agree wherever an invariant of the steps holds agree
along every run that starts in it. -/
theorem AllStates.congr (inv : State → Prop) {good good' : State → Prop}
    (hInv : ∀ state op, inv state → inv (step state op))
    (hAgree : ∀ state, inv state → (good state ↔ good' state))
    {start : State} (hStart : inv start) (ops : List Op) :
    AllStates step good start ops ↔ AllStates step good' start ops := by
  induction ops generalizing start with
  | nil => exact hAgree start hStart
  | cons op ops ih => exact and_congr (hAgree start hStart) (ih (hInv start op hStart))

/-- An invariant that each step keeps exactly under its condition holds in
every state of a run exactly when every step of the run meets that condition. -/
theorem allStates_iff_allSteps {good : State → Prop} {safe : State → Op → Prop}
    (hStep : ∀ state op, good state → (good (step state op) ↔ safe state op))
    {start : State} (hStart : good start) (ops : List Op) :
    AllStates step good start ops ↔ AllSteps step safe start ops := by
  induction ops generalizing start with
  | nil => exact ⟨fun _ => trivial, fun _ => hStart⟩
  | cons op ops ih =>
      constructor
      · intro h
        have hNext : good (step start op) := h.2.start
        exact ⟨(hStep start op hStart).mp hNext, (ih hNext).mp h.2⟩
      · intro h
        have hNext : good (step start op) := (hStep start op hStart).mpr h.1
        exact ⟨hStart, (ih hNext).mpr h.2⟩

/-- Two conditions on the steps that agree wherever an invariant holds, which the steps
that meet one of them keep. -/
theorem AllSteps.congr (inv : State → Prop) {safe safe' : State → Op → Prop}
    (hInv : ∀ state op, inv state → safe state op → inv (step state op))
    (hAgree : ∀ state op, inv state → (safe state op ↔ safe' state op))
    {start : State} (hStart : inv start) (ops : List Op) :
    AllSteps step safe start ops ↔ AllSteps step safe' start ops := by
  induction ops generalizing start with
  | nil => exact Iff.rfl
  | cons op ops ih =>
      constructor
      · intro h
        exact ⟨(hAgree start op hStart).mp h.1, (ih (hInv start op hStart h.1)).mp h.2⟩
      · intro h
        have hSafe : safe start op := (hAgree start op hStart).mpr h.1
        exact ⟨hSafe, (ih (hInv start op hStart hSafe)).mpr h.2⟩

/-- An invariant that the steps meeting a condition keep holds in every state of
a run of such steps, and so does what it implies. -/
theorem AllStates.of_invariant (inv : State → Prop) {good : State → Prop} {safe : Op → Prop}
    (hStep : ∀ state op, inv state → safe op → inv (step state op))
    (hGood : ∀ state, inv state → good state) {start : State} (hStart : inv start)
    (ops : List Op) (hOps : ∀ op ∈ ops, safe op) : AllStates step good start ops := by
  induction ops generalizing start with
  | nil => exact hGood start hStart
  | cons op ops ih =>
      have hNext : inv (step start op) := hStep start op hStart (hOps op (by simp))
      exact ⟨hGood start hStart, ih hNext fun op' h => hOps op' (List.mem_cons_of_mem op h)⟩

/-- The steps from states of an invariant have what the invariant gives them. -/
theorem AllSteps.of_invariant (inv : State → Prop) {good : State → Op → Prop} {safe : Op → Prop}
    (hStep : ∀ state op, inv state → safe op → inv (step state op))
    (hGood : ∀ state op, inv state → good state op) {start : State} (hStart : inv start)
    (ops : List Op) (hOps : ∀ op ∈ ops, safe op) : AllSteps step good start ops := by
  induction ops generalizing start with
  | nil => trivial
  | cons op ops ih =>
      have hNext : inv (step start op) := hStep start op hStart (hOps op List.mem_cons_self)
      exact ⟨hGood start op hStart, ih hNext fun op' h => hOps op' (List.mem_cons_of_mem op h)⟩

/-- The same with a condition that may depend on the state before the step. -/
theorem AllStates.of_allSteps (inv : State → Prop) {good : State → Prop}
    {safe : State → Op → Prop}
    (hStep : ∀ state op, inv state → safe state op → inv (step state op))
    (hGood : ∀ state, inv state → good state) {start : State} (hStart : inv start)
    (ops : List Op) (hOps : AllSteps step safe start ops) : AllStates step good start ops := by
  induction ops generalizing start with
  | nil => exact hGood start hStart
  | cons op ops ih => exact ⟨hGood start hStart, ih (hStep start op hStart hOps.1) hOps.2⟩

/-- The plain induction rule: what each step keeps, a whole run keeps. -/
theorem foldl_invariant (good : State → Prop)
    (hStep : ∀ state op, good state → good (step state op))
    {start : State} (hStart : good start) (ops : List Op) :
    good (ops.foldl step start) := by
  induction ops generalizing start with
  | nil => exact hStart
  | cons op ops ih => exact ih (hStep start op hStart)

end Run
