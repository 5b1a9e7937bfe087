import Mathlib.Logic.Relation
import Mathlib.Data.List.Basic

/-! Readers that take one token after another off the front of their input. A
token is recognised by a prefix of the input alone, so what a reader does does
not depend on how much of the rest has arrived. -/
namespace Incremental

open Relation

/-- The tokens of each state, and the leading symbols that mean nothing in it. -/
structure Reader (State Symbol : Type*) where
  token : State → List Symbol → Option (State × List Symbol)
  trim : State → List Symbol → List Symbol
  token_append : ∀ {state next a rest} (b : List Symbol),
    token state a = some (next, rest) → token state (a ++ b) = some (next, rest ++ b)
  token_length : ∀ {state next a rest}, token state a = some (next, rest) → rest.length < a.length
  token_trim : ∀ state a, token state (trim state a) = token state a
  trim_append : ∀ state a b, trim state (trim state a ++ b) = trim state (a ++ b)

variable {State Symbol : Type*} (reader : Reader State Symbol)

/-- One token is read. -/
def Reads (p q : State × List Symbol) : Prop := reader.token p.1 p.2 = some q

/-- Some number of tokens are read. -/
abbrev ReadsAll : State × List Symbol → State × List Symbol → Prop := ReflTransGen (Reads reader)

/-- Inputs that differ in leading symbols without meaning. -/
def SameInput (state : State) (a b : List Symbol) : Prop := reader.trim state a = reader.trim state b

variable {reader}

theorem SameInput.token {state : State} {a b : List Symbol} (h : SameInput reader state a b) :
    reader.token state a = reader.token state b := by
  rw [← reader.token_trim state a, h, reader.token_trim]

theorem SameInput.append {state : State} {a b : List Symbol} (h : SameInput reader state a b)
    (c : List Symbol) : SameInput reader state (a ++ c) (b ++ c) := by
  unfold SameInput
  rw [← reader.trim_append state a, h, reader.trim_append]

theorem rightUnique_reads : Relator.RightUnique (Reads reader) := by
  intro p q q' h h'
  exact Option.some.inj (h.symm.trans h')

theorem ReadsAll.append {p q : State × List Symbol} (h : ReadsAll reader p q) (b : List Symbol) :
    ReadsAll reader (p.1, p.2 ++ b) (q.1, q.2 ++ b) := by
  induction h with
  | refl => exact ReflTransGen.refl
  | tail _ hLast ih => exact ih.tail (reader.token_append b hLast)

theorem ReadsAll.length_le {p q : State × List Symbol} (h : ReadsAll reader p q) :
    q.2.length ≤ p.2.length := by
  induction h with
  | refl => exact Nat.le_refl _
  | tail _ hLast ih => exact Nat.le_trans (Nat.le_of_lt (reader.token_length hLast)) ih

/-- A reader that has consumed nothing has not moved. -/
theorem ReadsAll.eq_of_length {p q : State × List Symbol} (h : ReadsAll reader p q)
    (hLength : q.2.length = p.2.length) : q = p := by
  cases ReflTransGen.cases_head h with
  | inl hEq => exact hEq.symm
  | inr hStep =>
      obtain ⟨middle, hFirst, hRest⟩ := hStep
      have hShort : middle.2.length < p.2.length := reader.token_length hFirst
      have hLe : q.2.length ≤ middle.2.length := ReadsAll.length_le hRest
      omega

/-- Where no token is left, everything that can be read has been read. -/
theorem ReadsAll.of_stuck {p q q' : State × List Symbol} (h : ReadsAll reader p q)
    (h' : ReadsAll reader p q') (hStuck : reader.token q.1 q.2 = none) : ReadsAll reader q' q := by
  cases ReflTransGen.total_of_right_unique rightUnique_reads h h' with
  | inr hBack => exact hBack
  | inl hOn =>
      cases ReflTransGen.cases_head hOn with
      | inl hEq => rw [hEq]
      | inr hStep =>
          obtain ⟨middle, hFirst, _⟩ := hStep
          rw [Reads, hStuck] at hFirst
          cases hFirst

theorem ReadsAll.eq_of_stuck {p q q' : State × List Symbol} (h : ReadsAll reader p q)
    (h' : ReadsAll reader p q') (hStuck : reader.token q.1 q.2 = none)
    (hStuck' : reader.token q'.1 q'.2 = none) : q = q' := by
  cases ReflTransGen.cases_head (h.of_stuck h' hStuck) with
  | inl hEq => exact hEq.symm
  | inr hStep =>
      obtain ⟨middle, hFirst, _⟩ := hStep
      rw [Reads, hStuck'] at hFirst
      cases hFirst

/-- Leading symbols without meaning do not change where reading ends. -/
theorem ReadsAll.of_sameInput {state next : State} {a b rest : List Symbol}
    (hSame : SameInput reader state a b) (h : ReadsAll reader (state, a) (next, rest))
    (hStuck : reader.token next rest = none) :
    ∃ last, ReadsAll reader (state, b) (next, last) ∧ reader.token next last = none ∧
      (last = rest ∨ last = b ∧ rest = a) := by
  cases ReflTransGen.cases_head h with
  | inl hEq =>
      obtain ⟨rfl, rfl⟩ := Prod.mk.inj hEq
      exact ⟨b, ReflTransGen.refl, hSame.token.symm.trans hStuck, Or.inr ⟨rfl, rfl⟩⟩
  | inr hStep =>
      obtain ⟨middle, hFirst, hRest⟩ := hStep
      have hFirst' : reader.token state b = some middle := hSame.token.symm.trans hFirst
      exact ⟨rest, ReflTransGen.head hFirst' hRest, hStuck, Or.inl rfl⟩

variable (reader) in
/-- A property of every point that reading from some input comes to. -/
def Guarded (good : State → List Symbol → Prop) (state : State) (input : List Symbol) : Prop :=
  ∀ next rest, ReadsAll reader (state, input) (next, rest) → good next rest

theorem Guarded.here {good : State → List Symbol → Prop} {state : State} {input : List Symbol}
    (h : Guarded reader good state input) : good state input :=
  h state input ReflTransGen.refl

theorem Guarded.next {good : State → List Symbol → Prop} {state next : State}
    {input rest : List Symbol} (h : Guarded reader good state input)
    (hToken : reader.token state input = some (next, rest)) : Guarded reader good next rest :=
  fun last remaining hReads => h last remaining (ReflTransGen.head hToken hReads)

theorem guarded_of_stuck {good : State → List Symbol → Prop} {state : State} {input : List Symbol}
    (hStuck : reader.token state input = none) (hHere : good state input) :
    Guarded reader good state input := by
  intro next rest hReads
  cases ReflTransGen.cases_head hReads with
  | inl hEq =>
      obtain ⟨rfl, rfl⟩ := Prod.mk.inj hEq
      exact hHere
  | inr hStep =>
      obtain ⟨middle, hFirst, _⟩ := hStep
      rw [Reads, hStuck] at hFirst
      cases hFirst

theorem guarded_of_token {good : State → List Symbol → Prop} {state next : State}
    {input rest : List Symbol} (hToken : reader.token state input = some (next, rest))
    (hHere : good state input) (hNext : Guarded reader good next rest) :
    Guarded reader good state input := by
  intro last remaining hReads
  cases ReflTransGen.cases_head hReads with
  | inl hEq =>
      obtain ⟨rfl, rfl⟩ := Prod.mk.inj hEq
      exact hHere
  | inr hStep =>
      obtain ⟨middle, hFirst, hRest⟩ := hStep
      obtain rfl := rightUnique_reads hFirst hToken
      exact hNext last remaining hRest

/-- Leading symbols without meaning change nothing but the first point. -/
theorem guarded_of_sameInput {good : State → List Symbol → Prop} {state : State}
    {a b : List Symbol} (hSame : SameInput reader state a b) (hHere : good state b)
    (h : Guarded reader good state a) : Guarded reader good state b := by
  cases hToken : reader.token state b with
  | none => exact guarded_of_stuck hToken hHere
  | some next =>
      have hA : reader.token state a = some next := by rw [hSame.token, hToken]
      exact guarded_of_token hToken hHere (h.next hA)

end Incremental
