import Mathlib.Data.List.Basic

/-! Reading two lists side by side. A comparison of their heads says which one is read, or
that both are. -/
namespace Merge

variable {α β : Type*}

/-- What one step reads. -/
inductive Item (α β : Type*) where
  | left (x : α)
  | right (y : β)
  | both (x : α) (y : β)
  deriving DecidableEq

def Item.first : Item α β → Option α
  | .left x => some x
  | .right _ => none
  | .both x _ => some x

def Item.second : Item α β → Option β
  | .left _ => none
  | .right y => some y
  | .both _ y => some y

/-- What is read until one list ends, and what is left of both. -/
structure Merged (α β : Type*) where
  items : List (Item α β)
  lefts : List α
  rights : List β
  deriving DecidableEq

def Merged.cons (item : Item α β) (merged : Merged α β) : Merged α β :=
  { merged with items := item :: merged.items }

/-- All that is read when the rest of the longer list follows. -/
def Merged.all (merged : Merged α β) : List (Item α β) :=
  merged.items ++ (merged.lefts.map .left ++ merged.rights.map .right)

/-- The left head is read where the comparison is negative, the right one where it is positive,
and both where it is zero. The comparison may have no value. -/
def merge (cmp : α → β → Option Int) : List α → List β → Option (Merged α β)
  | [], ys => some ⟨[], [], ys⟩
  | x :: xs, [] => some ⟨[], x :: xs, []⟩
  | x :: xs, y :: ys =>
      match cmp x y with
      | none => none
      | some r =>
          if r < 0 then (merge cmp xs (y :: ys)).map (Merged.cons (.left x))
          else if 0 < r then (merge cmp (x :: xs) ys).map (Merged.cons (.right y))
          else (merge cmp xs ys).map (Merged.cons (.both x y))
termination_by xs ys => xs.length + ys.length

variable {cmp : α → β → Option Int}

@[simp] theorem all_cons (item : Item α β) (merged : Merged α β) :
    (merged.cons item).all = item :: merged.all := rfl

theorem mem_all_of_ne {item other : Item α β} {merged : Merged α β}
    (h : other ∈ (merged.cons item).all) (hNe : other ≠ item) : other ∈ merged.all :=
  List.mem_of_ne_of_mem hNe h

/-- The induction over a merge: what ends with a list, and what a first item preserves. -/
theorem merge_induction {motive : List α → List β → Merged α β → Prop}
    (hLeft : ∀ ys, motive [] ys ⟨[], [], ys⟩) (hRight : ∀ x xs, motive (x :: xs) [] ⟨[], x :: xs, []⟩)
    (hLt : ∀ x xs y ys r merged, cmp x y = some r → r < 0 → merge cmp xs (y :: ys) = some merged →
      motive xs (y :: ys) merged → motive (x :: xs) (y :: ys) (merged.cons (.left x)))
    (hGt : ∀ x xs y ys r merged, cmp x y = some r → 0 < r → merge cmp (x :: xs) ys = some merged →
      motive (x :: xs) ys merged → motive (x :: xs) (y :: ys) (merged.cons (.right y)))
    (hEq : ∀ x xs y ys merged, cmp x y = some 0 → merge cmp xs ys = some merged →
      motive xs ys merged → motive (x :: xs) (y :: ys) (merged.cons (.both x y))) :
    ∀ {xs ys merged}, merge cmp xs ys = some merged → motive xs ys merged := by
  intro xs ys
  induction xs, ys using merge.induct cmp with
  | case1 ys =>
      rintro merged hMerge
      rw [merge] at hMerge
      exact Option.some.inj hMerge ▸ hLeft ys
  | case2 x xs =>
      rintro merged hMerge
      rw [merge] at hMerge
      exact Option.some.inj hMerge ▸ hRight x xs
  | case3 x xs y ys hNone =>
      rintro merged hMerge
      rw [merge, hNone] at hMerge
      cases hMerge
  | case4 x xs y ys r hCmp hNeg ih =>
      rintro merged hMerge
      simp only [merge, hCmp, hNeg, if_true] at hMerge
      obtain ⟨rest, hRest, rfl⟩ := Option.map_eq_some_iff.mp hMerge
      exact hLt x xs y ys r rest hCmp hNeg hRest (ih hRest)
  | case5 x xs y ys r hCmp hNeg hPos ih =>
      rintro merged hMerge
      simp only [merge, hCmp, hNeg, hPos, if_true, if_false] at hMerge
      obtain ⟨rest, hRest, rfl⟩ := Option.map_eq_some_iff.mp hMerge
      exact hGt x xs y ys r rest hCmp hPos hRest (ih hRest)
  | case6 x xs y ys r hCmp hNeg hPos ih =>
      rintro merged hMerge
      simp only [merge, hCmp, hNeg, hPos, if_false] at hMerge
      obtain ⟨rest, hRest, rfl⟩ := Option.map_eq_some_iff.mp hMerge
      obtain rfl : r = 0 := by omega
      exact hEq x xs y ys rest hCmp hRest (ih hRest)

variable {xs : List α} {ys : List β} {merged : Merged α β}

/-- Every element of the first list is read once, in the order of the list. -/
theorem filterMap_first_all (h : merge cmp xs ys = some merged) :
    merged.all.filterMap Item.first = xs := by
  refine merge_induction (motive := fun xs _ merged => merged.all.filterMap Item.first = xs)
    ?_ ?_ ?_ ?_ ?_ h
  · intro ys
    simp [Merged.all, Item.first]
  · intro x xs
    simp [Merged.all, List.filterMap_map, Function.comp_def, Item.first]
  · intro x xs y ys r merged hCmp hNeg hMerge ih
    simp only [all_cons, List.filterMap_cons, Item.first, ih]
  · intro x xs y ys r merged hCmp hPos hMerge ih
    simp only [all_cons, List.filterMap_cons, Item.first, ih]
  · intro x xs y ys merged hCmp hMerge ih
    simp only [all_cons, List.filterMap_cons, Item.first, ih]

/-- Every element of the second list is read once, in the order of the list. -/
theorem filterMap_second_all (h : merge cmp xs ys = some merged) :
    merged.all.filterMap Item.second = ys := by
  refine merge_induction (motive := fun _ ys merged => merged.all.filterMap Item.second = ys)
    ?_ ?_ ?_ ?_ ?_ h
  · intro ys
    simp [Merged.all, List.filterMap_map, Function.comp_def, Item.second]
  · intro x xs
    simp [Merged.all, Item.second]
  · intro x xs y ys r merged hCmp hNeg hMerge ih
    simp only [all_cons, List.filterMap_cons, Item.second, ih]
  · intro x xs y ys r merged hCmp hPos hMerge ih
    simp only [all_cons, List.filterMap_cons, Item.second, ih]
  · intro x xs y ys merged hCmp hMerge ih
    simp only [all_cons, List.filterMap_cons, Item.second, ih]

theorem mem_left_of_mem_all (h : merge cmp xs ys = some merged) {item : Item α β}
    (hItem : item ∈ merged.all) {x : α} (hFirst : item.first = some x) : x ∈ xs := by
  rw [← filterMap_first_all h]
  exact List.mem_filterMap.mpr ⟨item, hItem, hFirst⟩

theorem mem_right_of_mem_all (h : merge cmp xs ys = some merged) {item : Item α β}
    (hItem : item ∈ merged.all) {y : β} (hSecond : item.second = some y) : y ∈ ys := by
  rw [← filterMap_second_all h]
  exact List.mem_filterMap.mpr ⟨item, hItem, hSecond⟩

/-- Only elements that compare as equal are read together. -/
theorem cmp_of_both (h : merge cmp xs ys = some merged) {x : α} {y : β}
    (hBoth : .both x y ∈ merged.all) : cmp x y = some 0 := by
  refine merge_induction (motive := fun _ _ merged => .both x y ∈ merged.all → cmp x y = some 0)
    ?_ ?_ ?_ ?_ ?_ h hBoth
  · intro ys hMem
    simp [Merged.all] at hMem
  · intro x' xs hMem
    simp [Merged.all] at hMem
  · intro x' xs y' ys r merged hCmp hNeg hMerge ih hMem
    exact ih (mem_all_of_ne hMem nofun)
  · intro x' xs y' ys r merged hCmp hPos hMerge ih hMem
    exact ih (mem_all_of_ne hMem nofun)
  · intro x' xs y' ys merged hCmp hMerge ih hMem
    rcases List.mem_cons.mp hMem with hHead | hRest
    · obtain ⟨rfl, rfl⟩ := Item.both.inj hHead
      exact hCmp
    · exact ih hRest

/-- Where every comparison has a value, there is a merge. -/
theorem exists_merge (hCmp : ∀ x ∈ xs, ∀ y ∈ ys, ∃ r, cmp x y = some r) :
    ∃ merged, merge cmp xs ys = some merged := by
  induction xs, ys using merge.induct cmp with
  | case1 ys => exact ⟨_, by rw [merge]⟩
  | case2 x xs => exact ⟨_, by rw [merge]⟩
  | case3 x xs y ys hNone =>
      obtain ⟨r, hSome⟩ := hCmp x List.mem_cons_self y List.mem_cons_self
      rw [hNone] at hSome
      cases hSome
  | case4 x xs y ys r hHead hNeg ih =>
      obtain ⟨merged, hMerge⟩ := ih fun x' hx' => hCmp x' (List.mem_cons_of_mem x hx')
      exact ⟨merged.cons (.left x), by simp only [merge, hHead, hNeg, if_true, hMerge]; rfl⟩
  | case5 x xs y ys r hHead hNeg hPos ih =>
      obtain ⟨merged, hMerge⟩ := ih fun x' hx' y' hy' =>
        hCmp x' hx' y' (List.mem_cons_of_mem y hy')
      exact ⟨merged.cons (.right y), by
        simp only [merge, hHead, hNeg, hPos, if_true, if_false, hMerge]; rfl⟩
  | case6 x xs y ys r hHead hNeg hPos ih =>
      obtain ⟨merged, hMerge⟩ := ih fun x' hx' y' hy' =>
        hCmp x' (List.mem_cons_of_mem x hx') y' (List.mem_cons_of_mem y hy')
      exact ⟨merged.cons (.both x y), by
        simp only [merge, hHead, hNeg, hPos, if_false, hMerge]; rfl⟩

end Merge

/-! Lists in the order of the comparison. -/
namespace Merge

variable {α : Type*} {cmp : α → α → Option Int}

/-- A list in the order of the comparison. -/
def Sorted (cmp : α → α → Option Int) (xs : List α) : Prop :=
  xs.Pairwise fun x y => ∃ r ≤ 0, cmp x y = some r

/-- The comparison sees only what `same` keeps, and turns its sign with its arguments. -/
structure Compatible (cmp : α → α → Option Int) (same : α → α → Prop) : Prop where
  swap : ∀ {x y r}, cmp x y = some r → cmp y x = some (-r)
  left : ∀ {x y}, same x y → ∀ z, cmp x z = cmp y z
  right : ∀ {x y}, same x y → ∀ z, cmp z x = cmp z y

theorem Compatible.eq_zero {same : α → α → Prop} (h : Compatible cmp same) {x y : α}
    (hSame : same x y) {r : Int} (hCmp : cmp x y = some r) : r = 0 := by
  have hSwap := h.swap hCmp
  rw [h.right hSame y, ← h.left hSame y, hCmp] at hSwap
  have hNeg := Option.some.inj hSwap
  omega

/-- Nothing that is read alone from the first list is the same as something that is read alone
from the second. -/
theorem not_same_of_alone {same : α → α → Prop} (hCompatible : Compatible cmp same)
    {xs ys : List α} (hXs : Sorted cmp xs) (hYs : Sorted cmp ys) {merged : Merged α α}
    (h : merge cmp xs ys = some merged) {x y : α} (hLeft : .left x ∈ merged.all)
    (hRight : .right y ∈ merged.all) : ¬ same x y := by
  refine merge_induction (motive := fun xs ys merged => Sorted cmp xs → Sorted cmp ys →
    .left x ∈ merged.all → .right y ∈ merged.all → ¬ same x y) ?_ ?_ ?_ ?_ ?_ h hXs hYs hLeft hRight
  · intro ys hXs hYs hLeft
    simp [Merged.all] at hLeft
  · intro x' xs hXs hYs hLeft hRight
    simp [Merged.all] at hRight
  · intro x' xs y' ys r merged hCmp hNeg hMerge ih hXs hYs hLeft hRight
    have hLater := mem_all_of_ne hRight nofun
    rcases List.mem_cons.mp hLeft with hHead | hRest
    · -- The head of the second list comes behind `x`, and `y` is not in front of it.
      obtain rfl := Item.left.inj hHead
      intro hSame
      rcases List.mem_cons.mp (mem_right_of_mem_all hMerge hLater rfl) with rfl | hTail
      · have hZero := hCompatible.eq_zero hSame hCmp
        omega
      · obtain ⟨s, hSorted, hTailCmp⟩ := List.rel_of_pairwise_cons hYs hTail
        rw [← hCompatible.right hSame, hCompatible.swap hCmp] at hTailCmp
        have hValue := Option.some.inj hTailCmp
        omega
    · exact ih hXs.of_cons hYs hRest hLater
  · intro x' xs y' ys r merged hCmp hPos hMerge ih hXs hYs hLeft hRight
    have hLater := mem_all_of_ne hLeft nofun
    rcases List.mem_cons.mp hRight with hHead | hRest
    · -- The head of the first list comes behind `y`, and `x` is not in front of it.
      obtain rfl := Item.right.inj hHead
      intro hSame
      rcases List.mem_cons.mp (mem_left_of_mem_all hMerge hLater rfl) with rfl | hTail
      · have hZero := hCompatible.eq_zero hSame hCmp
        omega
      · obtain ⟨s, hSorted, hTailCmp⟩ := List.rel_of_pairwise_cons hXs hTail
        rw [hCompatible.right hSame, hCmp] at hTailCmp
        have hValue := Option.some.inj hTailCmp
        omega
    · exact ih hXs hYs.of_cons hLater hRest
  · intro x' xs y' ys merged hCmp hMerge ih hXs hYs hLeft hRight
    exact ih hXs.of_cons hYs.of_cons (mem_all_of_ne hLeft nofun)
      (mem_all_of_ne hRight nofun)

end Merge
