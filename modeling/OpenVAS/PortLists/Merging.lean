import OpenVAS.PortLists.Basic

/-! Sorting and merging ranges: no two of the resulting ranges share a port, and they hold
the same ports as before. -/
namespace PortLists

open Trashcan

/-- A port that is in one of the ranges. -/
def Covers (ranges : List Range) (type : PortProtocol) (port : Int) : Prop :=
  ∃ range ∈ ranges, range.type = type ∧ range.start ≤ port ∧ port ≤ range.stop

/-- Two ranges without a common port. -/
def Range.Apart (one two : Range) : Prop :=
  one.type = two.type → one.stop < two.start ∨ two.stop < one.start

/-- What `range_compare` sorts by. -/
theorem rangeCompare_le_iff (one two : Range) :
    rangeCompare one two ≤ 0 ↔ typeNumber one.type < typeNumber two.type ∨
      one.type = two.type ∧ one.start ≤ two.start := by
  have hType : typeNumber one.type = typeNumber two.type ↔ one.type = two.type := by
    cases one.type <;> cases two.type <;> decide
  rw [rangeCompare, ← hType]
  split
  · omega
  split
  · omega
  split
  · omega
  split
  · omega
  · omega

theorem rangeCompare_total (one two : Range) :
    rangeCompare one two ≤ 0 ∨ rangeCompare two one ≤ 0 := by
  rw [rangeCompare, rangeCompare]
  split_ifs <;> omega

theorem rangeCompare_trans {one two three : Range} (h : rangeCompare one two ≤ 0)
    (h' : rangeCompare two three ≤ 0) : rangeCompare one three ≤ 0 := by
  rw [rangeCompare_le_iff] at *
  rcases h with hType | ⟨hType, hStart⟩
  · rcases h' with hType' | ⟨hType', -⟩
    · exact .inl (Nat.lt_trans hType hType')
    · exact .inl (hType' ▸ hType)
  · rcases h' with hType' | ⟨hType', hStart'⟩
    · exact .inl (hType ▸ hType')
    · exact .inr ⟨hType.trans hType', Int.le_trans hStart hStart'⟩

/-- The last range with the end of a range that meets it. -/
def extend (last range : Range) : Range :=
  if range.stop > last.stop then { last with stop := range.stop } else last

theorem extend_type (last range : Range) : (extend last range).type = last.type := by
  rw [extend]
  split <;> rfl

theorem extend_start (last range : Range) : (extend last range).start = last.start := by
  rw [extend]
  split <;> rfl

theorem extend_stop (last range : Range) :
    (extend last range).stop = max last.stop range.stop := by
  rw [extend]
  split
  · rename_i hLonger
    exact (max_eq_right (le_of_lt hLonger)).symm
  · rename_i hShorter
    exact (max_eq_left (not_lt.mp hShorter)).symm

theorem rangeCompare_extend (last range other : Range) :
    rangeCompare (extend last range) other = rangeCompare last other := by
  rw [rangeCompare, rangeCompare, extend_type, extend_start]

section Loop

variable {last : Range} {rest : List Range}

theorem mergeRanges_cons (last range : Range) (rest : List Range) :
    mergeRanges last (range :: rest) =
      if range.type = last.type ∧ range.start ≤ last.stop then mergeRanges (extend last range) rest
      else last :: mergeRanges range rest :=
  rfl

/-- Every range that is left is not before the first one. -/
theorem rangeCompare_of_mem_mergeRanges (hSorted : (last :: rest).Pairwise (rangeCompare · · ≤ 0))
    {range : Range} (h : range ∈ mergeRanges last rest) : rangeCompare last range ≤ 0 := by
  induction rest generalizing last with
  | nil =>
      obtain rfl := List.mem_singleton.mp h
      exact (rangeCompare_total range range).elim id id
  | cons next rest ih =>
      obtain ⟨hFirst, hRest⟩ := List.pairwise_cons.mp hSorted
      rw [mergeRanges_cons] at h
      split at h
      · rw [← rangeCompare_extend last next]
        refine ih (List.pairwise_cons.mpr ⟨fun other hOther => ?_, hRest.of_cons⟩) h
        rw [rangeCompare_extend]
        exact hFirst other (List.mem_cons_of_mem _ hOther)
      · rcases List.mem_cons.mp h with rfl | hLater
        · exact (rangeCompare_total range range).elim id id
        · exact rangeCompare_trans (hFirst next List.mem_cons_self) (ih hRest hLater)

theorem sorted_extend {range : Range}
    (hSorted : (last :: range :: rest).Pairwise (rangeCompare · · ≤ 0)) :
    (extend last range :: rest).Pairwise (rangeCompare · · ≤ 0) := by
  obtain ⟨hFirst, hRest⟩ := List.pairwise_cons.mp hSorted
  refine List.pairwise_cons.mpr ⟨fun other hOther => ?_, hRest.of_cons⟩
  rw [rangeCompare_extend]
  exact hFirst other (List.mem_cons_of_mem _ hOther)

/-- The ranges that are left have no common port. -/
theorem mergeRanges_apart (hSorted : (last :: rest).Pairwise (rangeCompare · · ≤ 0)) :
    (mergeRanges last rest).Pairwise Range.Apart := by
  induction rest generalizing last with
  | nil => exact List.pairwise_singleton _ _
  | cons next rest ih =>
      rw [mergeRanges_cons]
      split
      · exact ih (sorted_extend hSorted)
      · rename_i hSplit
        obtain ⟨hFirst, hRest⟩ := List.pairwise_cons.mp hSorted
        refine List.pairwise_cons.mpr ⟨fun range hRange hType => .inl ?_, ih hRest⟩
        have hBefore := (rangeCompare_le_iff _ _).mp (hFirst next List.mem_cons_self)
        have hAfter := (rangeCompare_le_iff _ _).mp (rangeCompare_of_mem_mergeRanges hRest hRange)
        -- All ranges between two of one protocol are of that protocol.
        rw [← hType] at hAfter
        rcases hBefore with hLess | ⟨hSame, -⟩
        · rcases hAfter with hLess' | ⟨hSame', -⟩
          · omega
          · rw [hSame'] at hLess
            omega
        · rcases hAfter with hLess' | ⟨-, hStart⟩
          · rw [hSame] at hLess'
            omega
          · have hBehind : ¬ next.start ≤ last.stop := fun hMeets => hSplit ⟨hSame.symm, hMeets⟩
            omega

theorem covers_cons (range : Range) (ranges : List Range) (type : PortProtocol) (port : Int) :
    Covers (range :: ranges) type port ↔
      (range.type = type ∧ range.start ≤ port ∧ port ≤ range.stop) ∨ Covers ranges type port := by
  simp [Covers]

/-- The ranges that are left hold the same ports. -/
theorem mergeRanges_covers (hSorted : (last :: rest).Pairwise (rangeCompare · · ≤ 0))
    (type : PortProtocol) (port : Int) :
    Covers (mergeRanges last rest) type port ↔ Covers (last :: rest) type port := by
  induction rest generalizing last with
  | nil => rfl
  | cons next rest ih =>
      rw [mergeRanges_cons]
      split
      · rename_i hMeets
        rw [ih (sorted_extend hSorted), covers_cons, covers_cons, covers_cons, extend_type,
          extend_start, extend_stop, ← or_assoc]
        refine or_congr_left ?_
        have hFirst := List.pairwise_cons.mp hSorted
        have hBefore := (rangeCompare_le_iff _ _).mp (hFirst.1 next List.mem_cons_self)
        have hStart : last.start ≤ next.start := by
          rcases hBefore with hLess | ⟨-, hStart⟩
          · rw [hMeets.1] at hLess
            omega
          · exact hStart
        rw [hMeets.1, ← and_or_left]
        refine and_congr_right fun _ => ?_
        have hStop := hMeets.2
        omega
      · rw [covers_cons, ih (List.pairwise_cons.mp hSorted).2, covers_cons last]

/-- What the ranges have in common is kept, if it is kept when one is extended. -/
theorem forall_mem_mergeRanges {p : Range → Prop}
    (hExtend : ∀ last range, p last → p range → p (extend last range))
    (h : ∀ range ∈ last :: rest, p range) : ∀ range ∈ mergeRanges last rest, p range := by
  induction rest generalizing last with
  | nil => exact h
  | cons next rest ih =>
      have hLast := h last List.mem_cons_self
      have hNext := h next (List.mem_cons_of_mem _ List.mem_cons_self)
      have hRest := fun range hRange => h range (List.mem_cons_of_mem _ (List.mem_cons_of_mem _ hRange))
      rw [mergeRanges_cons]
      split
      · exact ih (List.forall_mem_cons.mpr ⟨hExtend last next hLast hNext, hRest⟩)
      · exact List.forall_mem_cons.mpr ⟨hLast, ih (List.forall_mem_cons.mpr ⟨hNext, hRest⟩)⟩

end Loop

section Whole

variable (ranges : List Range)

theorem sorted_insertionSort :
    (ranges.insertionSort fun one two => rangeCompare one two ≤ 0).Pairwise
      (rangeCompare · · ≤ 0) := by
  have : Std.Total fun one two : Range => rangeCompare one two ≤ 0 := ⟨rangeCompare_total⟩
  have : IsTrans Range fun one two => rangeCompare one two ≤ 0 :=
    ⟨fun _ _ _ => rangeCompare_trans⟩
  exact List.pairwise_insertionSort _ _

theorem rangesSortMerge_apart : (rangesSortMerge ranges).Pairwise Range.Apart := by
  have hSorted := sorted_insertionSort ranges
  rw [rangesSortMerge]
  split
  · split
    · exact List.Pairwise.nil
    · rename_i first rest hSort
      rw [hSort] at hSorted
      exact mergeRanges_apart hSorted
  · rename_i hShort
    match ranges, hShort with
    | [], _ => exact List.Pairwise.nil
    | [range], _ => exact List.pairwise_singleton _ _
    | _ :: _ :: _, hShort => simp at hShort

/-- The ports of a list are those of the given ranges. -/
theorem rangesSortMerge_covers (type : PortProtocol) (port : Int) :
    Covers (rangesSortMerge ranges) type port ↔ Covers ranges type port := by
  have hSorted := sorted_insertionSort ranges
  have hSame : Covers (ranges.insertionSort fun one two => rangeCompare one two ≤ 0) type port ↔
      Covers ranges type port := by
    simp only [Covers, List.mem_insertionSort]
  rw [rangesSortMerge]
  split
  · rw [← hSame]
    split
    · rename_i hNone
      rw [hNone]
    · rename_i first rest hSort
      rw [hSort] at hSorted ⊢
      exact mergeRanges_covers hSorted type port
  · rfl

theorem rangesSortMerge_ordered (h : ∀ range ∈ ranges, range.start ≤ range.stop) :
    ∀ range ∈ rangesSortMerge ranges, range.start ≤ range.stop := by
  rw [rangesSortMerge]
  split
  · split
    · exact fun range hRange => nomatch hRange
    · rename_i first rest hSort
      refine forall_mem_mergeRanges (fun last range hLast _ => ?_) fun range hRange => ?_
      · rw [extend_start, extend_stop]
        omega
      · rw [← hSort] at hRange
        exact h range (List.mem_insertionSort _ |>.mp hRange)
  · exact h

end Whole

end PortLists
