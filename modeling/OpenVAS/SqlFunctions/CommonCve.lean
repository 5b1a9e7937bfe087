import OpenVAS.Lib.CString
import OpenVAS.Lib.Split
import Mathlib.Data.List.Perm.Basic

/-! The function `common_cve` of `sql.c`, which searches two lists for a common element. -/
namespace SqlFunctions

open CString

/-- `g_strsplit` at commas; it answers no texts for the empty string. -/
def gStrsplit (string : CString) : List CString :=
  if string = [] then [] else string.splitOn (ch ',')

/-- The inner loop: whether it finds the element, and where it leaves the second cursor. The
elements are stripped in place, which is the same when it is done again. -/
def searchSecond (point1 : CString) : List CString → Bool × List CString
  | [] => (false, [])
  | point2 :: rest =>
      if gStrstrip point1 = gStrstrip point2 then (true, point2 :: rest)
      else searchSecond point1 rest

/-- The outer loop, from both cursors. -/
def searchFirst : List CString → List CString → Bool
  | [], _ => false
  | point1 :: rest, points2 =>
      match searchSecond point1 points2 with
      | (true, _) => true
      | (false, points2) => searchFirst rest points2

/-- The result, or the text of an error. -/
def sqlCommonCve (cve1 cve2 : Option CString) : Except CString Int :=
  match cve1, cve2 with
  | none, _ => .error (lit "Failed to get first CVE argument")
  | some _, none => .error (lit "Failed to get second CVE argument")
  | some cve1, some cve2 =>
      .ok (if searchFirst (gStrsplit cve1) (gStrsplit cve2) then 1 else 0)

/-- The elements of a list, without the blanks around them. -/
def elements (cve : CString) : List CString := (gStrsplit cve).map gStrstrip

/-- Two lists have an element in common. -/
def Common (cve1 cve2 : CString) : Prop := ∃ cve ∈ elements cve1, cve ∈ elements cve2

instance (cve1 cve2 : CString) : Decidable (Common cve1 cve2) :=
  inferInstanceAs (Decidable (∃ cve ∈ elements cve1, cve ∈ elements cve2))

/-- The first element of the first list is in the second. -/
def FirstFound (cve1 cve2 : CString) : Prop :=
  ∃ cve ∈ (elements cve1).head?, cve ∈ elements cve2

instance (cve1 cve2 : CString) : Decidable (FirstFound cve1 cve2) :=
  inferInstanceAs (Decidable (∃ cve ∈ (elements cve1).head?, cve ∈ elements cve2))

/-- The result is 1 exactly for lists with an element in common. -/
def Exact (cve1 cve2 : CString) : Prop :=
  sqlCommonCve (some cve1) (some cve2) = .ok (if Common cve1 cve2 then 1 else 0)

/-- The result is the same for the arguments in the other order and with their elements in any
order. -/
def OrderFree (cve1 cve2 : CString) : Prop :=
  ∀ cve1' cve2', (gStrsplit cve1').Perm (gStrsplit cve1) → (gStrsplit cve2').Perm (gStrsplit cve2) →
    sqlCommonCve (some cve1') (some cve2') = sqlCommonCve (some cve1) (some cve2) ∧
      sqlCommonCve (some cve2') (some cve1') = sqlCommonCve (some cve1) (some cve2)

/-! The search. -/

/-- A search that finds nothing leaves the cursor at the end. -/
theorem searchSecond_eq (point1 : CString) (points2 : List CString) :
    (gStrstrip point1 ∈ points2.map gStrstrip ∧ (searchSecond point1 points2).1 = true) ∨
      (gStrstrip point1 ∉ points2.map gStrstrip ∧ searchSecond point1 points2 = (false, [])) := by
  induction points2 with
  | nil => exact .inr ⟨List.not_mem_nil, rfl⟩
  | cons point2 rest ih =>
      rw [searchSecond, List.map_cons, List.mem_cons]
      by_cases hSame : gStrstrip point1 = gStrstrip point2
      · rw [if_pos hSame]
        exact .inl ⟨.inl hSame, rfl⟩
      · rw [if_neg hSame]
        rcases ih with ⟨hMem, hFound⟩ | ⟨hMem, hNone⟩
        · exact .inl ⟨.inr hMem, hFound⟩
        · exact .inr ⟨not_or.mpr ⟨hSame, hMem⟩, hNone⟩

theorem searchFirst_nil (points1 : List CString) : searchFirst points1 [] = false := by
  induction points1 with
  | nil => rfl
  | cons point1 rest ih => exact ih

/-- Only the first element is searched for. -/
theorem searchFirst_iff (points1 points2 : List CString) :
    searchFirst points1 points2 = true ↔
      ∃ cve ∈ (points1.map gStrstrip).head?, cve ∈ points2.map gStrstrip := by
  cases points1 with
  | nil => simp [searchFirst]
  | cons point1 rest =>
      rw [searchFirst]
      rcases searchSecond_eq point1 points2 with ⟨hMem, hFound⟩ | ⟨hMem, hNone⟩
      · obtain ⟨found, cursor, hPair⟩ : ∃ found cursor, searchSecond point1 points2 = (found, cursor) :=
          ⟨_, _, rfl⟩
        rw [hPair] at hFound ⊢
        obtain rfl : found = true := hFound
        simpa using hMem
      · rw [hNone]
        simpa [searchFirst_nil] using hMem

theorem sqlCommonCve_eq (cve1 cve2 : CString) :
    sqlCommonCve (some cve1) (some cve2) = .ok (if FirstFound cve1 cve2 then 1 else 0) := by
  rw [sqlCommonCve]
  simp only [searchFirst_iff]
  rfl

theorem sqlCommonCve_eq_iff {cve1 cve2 cve1' cve2' : CString} :
    sqlCommonCve (some cve1) (some cve2) = sqlCommonCve (some cve1') (some cve2') ↔
      (FirstFound cve1 cve2 ↔ FirstFound cve1' cve2') := by
  rw [sqlCommonCve_eq, sqlCommonCve_eq, Except.ok.injEq]
  by_cases h : FirstFound cve1 cve2
  · by_cases h' : FirstFound cve1' cve2' <;> simp [h, h']
  · by_cases h' : FirstFound cve1' cve2' <;> simp [h, h']

theorem common_of_firstFound {cve1 cve2 : CString} (h : FirstFound cve1 cve2) :
    Common cve1 cve2 := by
  obtain ⟨cve, hHead, hMem⟩ := h
  exact ⟨cve, List.mem_of_head? hHead, hMem⟩

theorem exact_iff (cve1 cve2 : CString) :
    Exact cve1 cve2 ↔ (Common cve1 cve2 → FirstFound cve1 cve2) := by
  rw [Exact, sqlCommonCve_eq, Except.ok.injEq]
  by_cases hCommon : Common cve1 cve2
  · by_cases hFirst : FirstFound cve1 cve2 <;> simp [hCommon, hFirst]
  · have hFirst : ¬ FirstFound cve1 cve2 := fun h => hCommon (common_of_firstFound h)
    simp [hCommon, hFirst]

/-! Orders. -/

/-- An element that is not the only one can be put in front. -/
theorem exists_reordered {cve x : CString} (hx : x ∈ elements cve)
    (hOther : ∃ y ∈ elements cve, y ≠ x) :
    ∃ cve', (gStrsplit cve').Perm (gStrsplit cve) ∧ (elements cve').head? = some x := by
  obtain ⟨raw, hRaw, rfl⟩ := List.mem_map.mp hx
  obtain ⟨before, after, hSplit⟩ := List.append_of_mem hRaw
  have hNe : cve ≠ [] := fun h => by
    rw [gStrsplit, if_pos h] at hRaw
    exact absurd hRaw List.not_mem_nil
  have hRest : before ++ after ≠ [] := by
    intro h
    obtain ⟨y, hy, hDiffers⟩ := hOther
    obtain ⟨rfl, rfl⟩ := List.append_eq_nil_iff.mp h
    rw [elements, hSplit] at hy
    exact hDiffers (List.mem_singleton.mp hy)
  have hPerm : (raw :: (before ++ after)).Perm (gStrsplit cve) := by
    rw [hSplit]
    exact List.perm_middle.symm
  have hClean : ∀ part ∈ raw :: (before ++ after), ch ',' ∉ part := by
    intro part hPart
    have hMem := hPerm.mem_iff.mp hPart
    rw [gStrsplit, if_neg hNe] at hMem
    exact Split.not_mem_of_mem_splitOn hMem
  have hJoined : [ch ','].intercalate (raw :: (before ++ after)) ≠ [] := by
    obtain ⟨second, rest, hCons⟩ := List.exists_cons_of_ne_nil hRest
    rw [hCons, List.intercalate_cons_cons]
    simp
  have hParts : gStrsplit ([ch ','].intercalate (raw :: (before ++ after))) =
      raw :: (before ++ after) := by
    rw [gStrsplit, if_neg hJoined, List.splitOn_intercalate _ hClean (List.cons_ne_nil _ _)]
  refine ⟨[ch ','].intercalate (raw :: (before ++ after)), by rw [hParts]; exact hPerm, ?_⟩
  rw [elements, hParts]
  rfl

/-- An element of one list that the other list lacks can be put where it is searched for. -/
theorem subset_of_orderFree {cve1 cve2 : CString} (hCommon : Common cve1 cve2)
    (h : ∀ cve1', (gStrsplit cve1').Perm (gStrsplit cve1) → FirstFound cve1' cve2) :
    elements cve1 ⊆ elements cve2 := by
  intro x hx
  by_contra hMissing
  obtain ⟨y, hy, hShared⟩ := hCommon
  obtain ⟨cve1', hPerm, hHead⟩ := exists_reordered hx ⟨y, hy, fun hSame => hMissing (hSame ▸ hShared)⟩
  obtain ⟨z, hz, hFound⟩ := h cve1' hPerm
  rw [hHead] at hz
  obtain rfl := Option.some_inj.mp hz
  exact hMissing hFound

theorem firstFound_of_subset {cve1 cve2 : CString} (hSubset : elements cve1 ⊆ elements cve2)
    (hNe : elements cve1 ≠ []) : FirstFound cve1 cve2 := by
  obtain ⟨first, rest, hCons⟩ := List.exists_cons_of_ne_nil hNe
  exact ⟨first, by rw [hCons]; rfl, hSubset (by rw [hCons]; exact List.mem_cons_self)⟩

theorem elements_perm {cve cve' : CString} (h : (gStrsplit cve').Perm (gStrsplit cve)) :
    (elements cve').Perm (elements cve) := h.map gStrstrip

/-- No order finds an element that the lists do not share. -/
theorem not_firstFound_reordered {cve1 cve2 cve1' cve2' : CString} (hNone : ¬ Common cve1 cve2)
    (h1 : (gStrsplit cve1').Perm (gStrsplit cve1)) (h2 : (gStrsplit cve2').Perm (gStrsplit cve2)) :
    ¬ FirstFound cve1' cve2' ∧ ¬ FirstFound cve2' cve1' := by
  constructor
  · intro hFound
    obtain ⟨cve, hMem1, hMem2⟩ := common_of_firstFound hFound
    exact hNone ⟨cve, (elements_perm h1).mem_iff.mp hMem1, (elements_perm h2).mem_iff.mp hMem2⟩
  · intro hFound
    obtain ⟨cve, hMem2, hMem1⟩ := common_of_firstFound hFound
    exact hNone ⟨cve, (elements_perm h1).mem_iff.mp hMem1, (elements_perm h2).mem_iff.mp hMem2⟩

/-- With the same elements in both lists every order finds one, if there is one. -/
theorem firstFound_reordered {cve1 cve2 cve1' cve2' : CString}
    (hSubset : elements cve1 ⊆ elements cve2) (hNe : elements cve1 ≠ [])
    (h1 : (gStrsplit cve1').Perm (gStrsplit cve1)) (h2 : (gStrsplit cve2').Perm (gStrsplit cve2)) :
    FirstFound cve1' cve2' := by
  apply firstFound_of_subset
  · intro cve hMem
    exact (elements_perm h2).mem_iff.mpr (hSubset ((elements_perm h1).mem_iff.mp hMem))
  · intro hNil
    have hPerm := elements_perm h1
    rw [hNil] at hPerm
    exact hNe hPerm.symm.eq_nil

theorem orderFree_of_not_common {cve1 cve2 : CString} (hNone : ¬ Common cve1 cve2) :
    OrderFree cve1 cve2 := by
  intro cve1' cve2' h1 h2
  have hFound : ¬ FirstFound cve1 cve2 := fun h => hNone (common_of_firstFound h)
  obtain ⟨hFirst, hSecond⟩ := not_firstFound_reordered hNone h1 h2
  exact ⟨sqlCommonCve_eq_iff.mpr (iff_of_false hFirst hFound),
    sqlCommonCve_eq_iff.mpr (iff_of_false hSecond hFound)⟩

theorem orderFree_of_same {cve1 cve2 : CString} (hCommon : Common cve1 cve2)
    (hSubset : elements cve1 ⊆ elements cve2) (hSubset' : elements cve2 ⊆ elements cve1) :
    OrderFree cve1 cve2 := by
  intro cve1' cve2' h1 h2
  obtain ⟨cve, hMem, hMem'⟩ := hCommon
  have hFound := firstFound_of_subset hSubset (List.ne_nil_of_mem hMem)
  have hFirst := firstFound_reordered hSubset (List.ne_nil_of_mem hMem) h1 h2
  have hSecond := firstFound_reordered hSubset' (List.ne_nil_of_mem hMem') h2 h1
  exact ⟨sqlCommonCve_eq_iff.mpr (iff_of_true hFirst hFound),
    sqlCommonCve_eq_iff.mpr (iff_of_true hSecond hFound)⟩

/-- The result is exact when the first element of the first list is in common or none is; it is
also free of all orders when all elements are in common or none is. -/
theorem sqlCommonCve_iff (cve1 cve2 : CString) :
    (Exact cve1 cve2 ↔ ¬ Common cve1 cve2 ∨ FirstFound cve1 cve2) ∧
      (Exact cve1 cve2 ∧ OrderFree cve1 cve2 ↔
        ¬ Common cve1 cve2 ∨ (elements cve1 ⊆ elements cve2 ∧ elements cve2 ⊆ elements cve1)) := by
  refine ⟨by rw [exact_iff, imp_iff_not_or], ?_⟩
  by_cases hCommon : Common cve1 cve2
  case neg =>
    have hExact := (exact_iff cve1 cve2).mpr fun h => absurd h hCommon
    exact iff_of_true ⟨hExact, orderFree_of_not_common hCommon⟩ (.inl hCommon)
  case pos =>
    rw [or_iff_right (not_not_intro hCommon)]
    constructor
    · rintro ⟨hExact, hFree⟩
      have hFirst := (exact_iff cve1 cve2).mp hExact hCommon
      have hBack : Common cve2 cve1 := by
        obtain ⟨cve, hMem, hMem'⟩ := hCommon
        exact ⟨cve, hMem', hMem⟩
      constructor
      · refine subset_of_orderFree hCommon fun cve1' hPerm => ?_
        exact (sqlCommonCve_eq_iff.mp (hFree cve1' cve2 hPerm (.refl _)).1).mpr hFirst
      · refine subset_of_orderFree hBack fun cve2' hPerm => ?_
        exact (sqlCommonCve_eq_iff.mp (hFree cve1 cve2' (.refl _) hPerm).2).mpr hFirst
    · rintro ⟨hSubset, hSubset'⟩
      obtain ⟨cve, hMem, hMem'⟩ := id hCommon
      have hFirst := firstFound_of_subset hSubset (List.ne_nil_of_mem hMem)
      exact ⟨(exact_iff cve1 cve2).mpr fun _ => hFirst,
        orderFree_of_same hCommon hSubset hSubset'⟩

/-- The element in common stands second in the first list; the first search for it has used up
the second list. -/
theorem sqlCommonCve_misses_second :
    Common (lit "CVE-2014-0001,CVE-2014-0160") (lit "CVE-2014-0160") ∧
      sqlCommonCve (some (lit "CVE-2014-0001,CVE-2014-0160")) (some (lit "CVE-2014-0160")) = .ok 0 ∧
      sqlCommonCve (some (lit "CVE-2014-0160")) (some (lit "CVE-2014-0001,CVE-2014-0160")) =
        .ok 1 := by
  decide +kernel

end SqlFunctions
