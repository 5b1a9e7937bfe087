import Mathlib.Logic.Basic

/-! Computations on a state that may end without a result, as one does that runs out of fuel. The
state reached so far is kept in either case. -/
namespace StateComp

/-- A computation: the result, if there is one, and the state in which it ends. -/
def Comp (State α : Type) := State → Option α × State

variable {State α β : Type}

instance : Monad (Comp State) where
  pure a := fun s => (some a, s)
  bind m f := fun s =>
    match m s with
    | (some a, t) => f a t
    | (none, t) => (none, t)

/-- The state. -/
def get : Comp State State := fun s => (some s, s)

def modify (f : State → State) : Comp State Unit := fun s => (some (), f s)

/-- A computation that does not return. -/
def stuck : Comp State α := fun s => (none, s)

@[simp] theorem pure_apply (a : α) (s : State) : (pure a : Comp State α) s = (some a, s) := rfl

@[simp] theorem get_apply (s : State) : get s = (some s, s) := rfl

@[simp] theorem modify_apply (f : State → State) (s : State) : modify f s = (some (), f s) := rfl

@[simp] theorem stuck_apply (s : State) : (stuck : Comp State α) s = (none, s) := rfl

theorem bind_of_some {m : Comp State α} {f : α → Comp State β} {s t : State} {a : α}
    (h : m s = (some a, t)) : (m >>= f) s = f a t := by
  change (match m s with | (some a, t) => f a t | (none, t) => (none, t)) = f a t
  rw [h]

theorem bind_of_none {m : Comp State α} {f : α → Comp State β} {s t : State}
    (h : m s = (none, t)) : (m >>= f) s = (none, t) := by
  change (match m s with | (some a, t) => f a t | (none, t) => (none, t)) = (none, t)
  rw [h]

/-- A sequence returns exactly if its parts do. -/
theorem bind_eq_some {m : Comp State α} {f : α → Comp State β} {s u : State} {b : β} :
    (m >>= f) s = (some b, u) ↔ ∃ a t, m s = (some a, t) ∧ f a t = (some b, u) := by
  change (match m s with | (some a, t) => f a t | (none, t) => (none, t)) = (some b, u) ↔ _
  rcases hm : m s with ⟨_ | a, t⟩
  · simp
  · constructor
    · intro h
      exact ⟨a, t, rfl, h⟩
    · rintro ⟨_, _, ⟨⟩, h⟩
      exact h

/-! What holds between the states before and after. -/

/-- The state in which the computation returns is related by `R` to a state `s`, and a state in which it
ends without a result by `Q`. -/
def Outcome (R Q : State → State → Prop) (s : State) : Option α × State → Prop
  | (some _, t) => R s t
  | (none, t) => Q s t

/-- The computation ends so from any state on. -/
def Ensures (R Q : State → State → Prop) (m : Comp State α) : Prop := ∀ s, Outcome R Q s (m s)

/-- Relations that computations can be put in sequence with. -/
structure Chained (R Q : State → State → Prop) : Prop where
  refl : ∀ s, R s s
  weaken : ∀ s t, R s t → Q s t
  trans : ∀ s t u, R s t → R t u → R s u
  transQ : ∀ s t u, R s t → Q t u → Q s u

section Ensures

variable {R Q : State → State → Prop} {m : Comp State α}

theorem Ensures.of_some (h : Ensures R Q m) {s t : State} {a : α} (hm : m s = (some a, t)) : R s t := by
  have hs := h s
  rwa [hm] at hs

theorem Ensures.of_none (h : Ensures R Q m) {s t : State} (hm : m s = (none, t)) : Q s t := by
  have hs := h s
  rwa [hm] at hs

/-- In either case the weaker relation holds. -/
theorem Ensures.weak (hRel : Chained R Q) (h : Ensures R Q m) (s : State) : Q s (m s).2 := by
  rcases hm : m s with ⟨_ | a, t⟩
  · exact h.of_none hm
  · exact hRel.weaken s t (h.of_some hm)

variable (hRel : Chained R Q)

include hRel

theorem Chained.pure (a : α) : Ensures R Q (pure a : Comp State α) := fun s => hRel.refl s

theorem Chained.get : Ensures R Q (get : Comp State State) := fun s => hRel.refl s

theorem Chained.stuck : Ensures R Q (stuck : Comp State α) := fun s => hRel.weaken s s (hRel.refl s)

/-- A sequence from one state on: the first part may be looked at in that state only. -/
theorem Chained.bindAt {f : α → Comp State β} {s : State} (hm : Outcome R Q s (m s))
    (hf : ∀ a t, m s = (some a, t) → Outcome R Q t (f a t)) : Outcome R Q s ((m >>= f) s) := by
  rcases hs : m s with ⟨_ | a, t⟩
  · rw [hs] at hm
    rwa [bind_of_none hs]
  · rw [hs] at hm
    rw [bind_of_some hs]
    have hRest := hf a t hs
    rcases hLast : f a t with ⟨_ | b, u⟩
    · rw [hLast] at hRest
      exact hRel.transQ s t u hm hRest
    · rw [hLast] at hRest
      exact hRel.trans s t u hm hRest

theorem Chained.bind {f : α → Comp State β} (hm : Ensures R Q m) (hf : ∀ a, Ensures R Q (f a)) :
    Ensures R Q (m >>= f) :=
  fun s => hRel.bindAt (hm s) fun a t _ => hf a t

/-- What holds after a step holds before it. -/
theorem Chained.after {s t : State} {r : Option α × State} (hStep : R s t) (h : Outcome R Q t r) :
    Outcome R Q s r := by
  rcases r with ⟨_ | a, u⟩
  · exact hRel.transQ s t u hStep h
  · exact hRel.trans s t u hStep h

end Ensures

theorem Ensures.modify {R Q : State → State → Prop} {f : State → State} (h : ∀ s, R s (f s)) :
    Ensures R Q (modify f) := h

/-! More results. -/

/-- Where the first computation returns, the second one returns the same. -/
def Le (m m' : Comp State α) : Prop := ∀ s a t, m s = (some a, t) → m' s = (some a, t)

theorem Le.refl (m : Comp State α) : Le m m := fun _ _ _ h => h

theorem Le.trans {m m' m'' : Comp State α} (h : Le m m') (h' : Le m' m'') : Le m m'' :=
  fun s a t hm => h' s a t (h s a t hm)

theorem Le.stuck (m : Comp State α) : Le stuck m := fun _ _ _ h => by cases h

theorem Le.bind {m m' : Comp State α} {f f' : α → Comp State β} (hm : Le m m')
    (hf : ∀ a, Le (f a) (f' a)) : Le (m >>= f) (m' >>= f') := by
  intro s b u h
  obtain ⟨a, t, hFirst, hRest⟩ := bind_eq_some.mp h
  exact bind_eq_some.mpr ⟨a, t, hm s a t hFirst, hf a t b u hRest⟩

/-! Computations with two bounds, on the depth of calls and on the rounds of loops. -/

/-- With bounds that are large enough, the computation returns this. -/
def Converges (m : Nat → Nat → Comp State α) (s : State) (a : α) (t : State) : Prop :=
  ∃ n, ∀ k ≥ n, ∀ j ≥ n, m k j s = (some a, t)

theorem Converges.of_eq {m : Nat → Nat → Comp State α} {s t : State} {a : α}
    (h : ∀ k j, m k j s = (some a, t)) : Converges m s a t := ⟨0, fun k _ j _ => h k j⟩

/-- What returns for some bounds converges if larger ones give no other result. -/
theorem Converges.of_le {m : Nat → Nat → Comp State α} {s t : State} {a : α} {k j : Nat}
    (hMono : ∀ k k' j j', k ≤ k' → j ≤ j' → Le (m k j) (m k' j')) (h : m k j s = (some a, t)) :
    Converges m s a t := by
  refine ⟨max k j, fun k' hk j' hj => ?_⟩
  exact hMono k k' j j' (by omega) (by omega) s a t h

theorem Converges.bind {m : Nat → Nat → Comp State α} {f : Nat → Nat → α → Comp State β}
    {s t u : State} {a : α} {b : β} (hm : Converges m s a t)
    (hf : Converges (fun k j => f k j a) t b u) : Converges (fun k j => m k j >>= f k j) s b u := by
  obtain ⟨n, hm⟩ := hm
  obtain ⟨n', hf⟩ := hf
  refine ⟨max n n', fun k hk j hj => ?_⟩
  exact (bind_of_some (hm k (by omega) j (by omega))).trans (hf k (by omega) j (by omega))

/-- One more round. -/
theorem Converges.succ {m : Nat → Nat → Comp State α} {s t : State} {a : α}
    (h : Converges (fun k j => m k (j + 1)) s a t) : Converges m s a t := by
  obtain ⟨n, h⟩ := h
  refine ⟨n + 1, fun k hk j hj => ?_⟩
  obtain ⟨j, rfl⟩ := Nat.exists_eq_succ_of_ne_zero (show j ≠ 0 by omega)
  exact h k (by omega) j (by omega)

end StateComp
