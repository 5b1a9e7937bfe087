import Mathlib.Order.Lattice
import Mathlib.Data.List.Pairwise
import Mathlib.Tactic.ByContra

/-! Sorting with a comparison function, as in the library of C: what is promised of the function and
what of the result. -/
namespace Sorting

variable {α : Type} {κ : Type} [LinearOrder κ]

/-- The sign says how the keys are ordered. -/
structure Agrees (r : Int) (x y : κ) : Prop where
  less : r < 0 ↔ x < y
  equal : r = 0 ↔ x = y

/-- The comparisons of the elements fit together. -/
structure Consistent (cmp : α → α → Int) (l : List α) : Prop where
  swap : ∀ x ∈ l, ∀ y ∈ l, 0 < cmp x y ↔ cmp y x < 0
  trans : ∀ x ∈ l, ∀ y ∈ l, ∀ z ∈ l, cmp x y ≤ 0 → cmp y z ≤ 0 → cmp x z ≤ 0

/-- A sorting function: the elements stay the same, and they are in order if the comparisons fit
together. -/
structure Sorts (qsort : (α → α → Int) → List α → List α) : Prop where
  perm : ∀ cmp l, (qsort cmp l).Perm l
  sorted : ∀ cmp l, Consistent cmp l → (qsort cmp l).Pairwise fun x y => cmp x y ≤ 0

/-- The same elements in ascending order. -/
structure Ascending (key : α → κ) (l result : List α) : Prop where
  perm : result.Perm l
  pairwise : result.Pairwise fun x y => key x ≤ key y

theorem Agrees.le_iff {r : Int} {x y : κ} (h : Agrees r x y) : r ≤ 0 ↔ x ≤ y := by
  rw [Int.le_iff_lt_or_eq, h.less, h.equal, le_iff_lt_or_eq]

theorem consistent_of_agrees {cmp : α → α → Int} {l : List α} {key : α → κ}
    (h : ∀ x ∈ l, ∀ y ∈ l, Agrees (cmp x y) (key x) (key y)) : Consistent cmp l := by
  constructor
  · intro x hx y hy
    rw [(h y hy x hx).less, ← @not_le κ, ← (h x hx y hy).le_iff, Int.not_le]
  · intro x hx y hy z hz hFirst hSecond
    exact (h x hx z hz).le_iff.mpr
      (le_trans ((h x hx y hy).le_iff.mp hFirst) ((h y hy z hz).le_iff.mp hSecond))

/-- Comparisons that agree with the keys make the result ascending. -/
theorem Sorts.ascending {qsort : (α → α → Int) → List α → List α} (hSorts : Sorts qsort)
    {cmp : α → α → Int} {l : List α} {key : α → κ}
    (h : ∀ x ∈ l, ∀ y ∈ l, Agrees (cmp x y) (key x) (key y)) : Ascending key l (qsort cmp l) := by
  have hPerm := hSorts.perm cmp l
  refine ⟨hPerm, (hSorts.sorted cmp l (consistent_of_agrees h)).imp_of_mem ?_⟩
  intro x y hx hy hLe
  exact (h x (hPerm.mem_iff.mp hx) y (hPerm.mem_iff.mp hy)).le_iff.mp hLe

/-! Sorting functions that keep the promise. -/

/-- A stable sort of the elements of the list. -/
noncomputable def merging (cmp : α → α → Int) (l : List α) : List α :=
  (l.attach.mergeSort fun x y => decide (cmp x.1 y.1 ≤ 0)).map Subtype.val

theorem merging_sorts : Sorts (@merging α) := by
  constructor
  · intro cmp l
    have hPerm := (List.mergeSort_perm l.attach fun x y => decide (cmp x.1 y.1 ≤ 0)).map Subtype.val
    rw [List.attach_map_subtype_val] at hPerm
    exact hPerm
  · intro cmp l hConsistent
    have hSorted := @List.pairwise_mergeSort _ (fun x y : { x // x ∈ l } => decide (cmp x.1 y.1 ≤ 0))
      (fun x y z hFirst hSecond => decide_eq_true (hConsistent.trans x.1 x.2 y.1 y.2 z.1 z.2
        (of_decide_eq_true hFirst) (of_decide_eq_true hSecond)))
      (fun x y => by
        by_cases hLe : cmp x.1 y.1 ≤ 0
        · simp [hLe]
        · have hSwap := (hConsistent.swap x.1 x.2 y.1 y.2).mp (by omega)
          simp [Int.le_of_lt hSwap])
      l.attach
    refine List.pairwise_map.mpr (hSorted.imp ?_)
    intro x y hLe
    exact of_decide_eq_true hLe

/-- Where the comparisons do not fit together the result may be in any order. -/
theorem exists_sorts_eq {cmp : α → α → Int} {l result : List α} (hNot : ¬ Consistent cmp l)
    (hPerm : result.Perm l) : ∃ qsort, Sorts qsort ∧ qsort cmp l = result := by
  classical
  refine ⟨fun cmp' l' => if cmp' = cmp ∧ l' = l then result else merging cmp' l', ⟨?_, ?_⟩, if_pos ⟨rfl, rfl⟩⟩
  · intro cmp' l'
    by_cases hSame : cmp' = cmp ∧ l' = l
    · rw [if_pos hSame, hSame.2]
      exact hPerm
    · rw [if_neg hSame]
      exact merging_sorts.perm cmp' l'
  · intro cmp' l' hConsistent
    by_cases hSame : cmp' = cmp ∧ l' = l
    · rw [hSame.1, hSame.2] at hConsistent
      exact absurd hConsistent hNot
    · rw [if_neg hSame]
      exact merging_sorts.sorted cmp' l' hConsistent

omit [LinearOrder κ] in
/-- Two elements stand in one order or the other. -/
theorem pairwise_or {R : α → α → Prop} {l : List α} (h : l.Pairwise R) {x y : α} (hx : x ∈ l) (hy : y ∈ l)
    (hNe : x ≠ y) : R x y ∨ R y x := by
  have hEither : l.Pairwise fun a b => R a b ∨ R b a := h.imp Or.inl
  have hSymm : Std.Symm fun a b => R a b ∨ R b a := ⟨fun _ _ hOr => hOr.symm⟩
  exact hEither.forall hx hy hNe

/-- Two elements that the comparison orders the wrong way spoil some result. -/
theorem exists_not_ascending {cmp : α → α → Int} {l : List α} {key : α → κ} {x y : α} (hx : x ∈ l)
    (hy : y ∈ l) (hLess : key x < key y) (hWrong : 0 < cmp x y ∨ cmp y x < 0) :
    ∃ qsort, Sorts qsort ∧ ¬ Ascending key l (qsort cmp l) := by
  have hNe : x ≠ y := fun hSame => lt_irrefl _ (hSame ▸ hLess)
  by_cases hConsistent : Consistent cmp l
  · refine ⟨merging, merging_sorts, fun hAscending => ?_⟩
    have hBoth := (merging_sorts.sorted cmp l hConsistent).and hAscending.pairwise
    rcases pairwise_or hBoth (hAscending.perm.mem_iff.mpr hx) (hAscending.perm.mem_iff.mpr hy) hNe with
      hFirst | hSecond
    · have hPositive : 0 < cmp x y := hWrong.elim id (hConsistent.swap x hx y hy).mpr
      exact absurd hFirst.1 (by omega)
    · exact absurd hSecond.2 (not_le.mpr hLess)
  · have hDescending := @List.pairwise_mergeSort _ (fun a b => decide (key b ≤ key a))
      (fun a b c hFirst hSecond =>
        decide_eq_true (le_trans (of_decide_eq_true hSecond) (of_decide_eq_true hFirst)))
      (fun a b => by
        rcases le_total (key b) (key a) with hLe | hLe
        · simp [hLe]
        · simp [hLe]) l
    obtain ⟨qsort, hSorts, hResult⟩ :=
      exists_sorts_eq hConsistent (List.mergeSort_perm l fun a b => decide (key b ≤ key a))
    refine ⟨qsort, hSorts, fun hAscending => ?_⟩
    rw [hResult] at hAscending
    have hBoth := hDescending.and hAscending.pairwise
    rcases pairwise_or hBoth (hAscending.perm.mem_iff.mpr hx) (hAscending.perm.mem_iff.mpr hy) hNe with
      hFirst | hSecond
    · exact absurd (of_decide_eq_true hFirst.1) (not_le.mpr hLess)
    · exact absurd hSecond.2 (not_le.mpr hLess)

end Sorting
