import Mathlib.Algebra.BigOperators.Group.Finset.Basic
import OpenVAS.Configs.Choices
import OpenVAS.Configs.Shape

/-! What a config scans with: the answers of the functions that look at the rows of a selector
are those of the choice in each family that the rows stand for. -/
namespace Configs

open CString Choices

/-! One family. -/

section Family

variable {db : Database} {selector family : CString} {constraining growing : Bool}
  {listed : Bool → Finset CString}

theorem marks_filter (exclude : Bool) (h : ∀ row ∈ marks db selector family, row.exclude = exclude) :
    (marks db selector family).filter (·.exclude = exclude) = marks db selector family :=
  List.filter_eq_self.mpr fun row hRow => decide_eq_true (h row hRow)

theorem marks_with_exclude (exclude : Bool) :
    (selectorsWhere db selector fun row => row.isFamily family && row.exclude = exclude) =
      (marks db selector family).filter (·.exclude = exclude) :=
  selectorsWhere_filter.symm

/-- The answer of `nvt_selector_family_growing`. -/
theorem Shape.familyGrowing (h : Shape db selector constraining family growing listed) :
    nvtSelectorFamilyGrowing db selector family constraining = growing := by
  have hMarks : (selectorsWhere db selector fun row =>
      row.isFamily family && row.exclude = constraining) = marks db selector family := by
    rw [marks_with_exclude, marks_filter constraining h.mark]
  have hMarked := h.marked
  unfold nvtSelectorFamilyGrowing
  cases constraining with
  | true =>
      simp only [Bool.decide_eq_true] at hMarks
      rw [if_pos rfl, hMarks]
      cases growing <;> simp_all
  | false =>
      simp only [Bool.decide_eq_false] at hMarks
      rw [if_neg Bool.false_ne_true, hMarks]
      cases growing <;> simp_all

/-- The included NVTs of a family. -/
theorem nvtRows_includes :
    (selectorsWhere db selector fun row => !row.exclude && row.isNvtIn family) =
      nvtRows db selector family false := by
  apply selectorsWhere_congr
  intro row
  cases row.exclude <;> simp

/-- The excluded NVTs of a family. -/
theorem nvtRows_excludes :
    (selectorsWhere db selector fun row => row.exclude && row.isNvtIn family) =
      nvtRows db selector family true := by
  apply selectorsWhere_congr
  intro row
  cases row.exclude <;> simp

/-- The answer of `nvt_selector_nvt_count` for a family. -/
theorem Shape.nvtCount (h : Shape db selector constraining family growing listed)
    (hDistinct : DistinctOids db) :
    nvtSelectorNvtCount db selector family growing =
      if growing then ((items db family).card : Int) - (listed true).card
      else (listed false).card := by
  unfold nvtSelectorNvtCount
  cases growing with
  | true =>
      rw [if_pos rfl, if_pos rfl, hDistinct.familyNvtCount_eq, nvtRows_excludes,
        (h.lists true).length]
  | false => rw [if_neg Bool.false_ne_true, if_neg Bool.false_ne_true, nvtRows_includes,
      (h.lists false).length]

end Family

/-! The queries of `select_config_nvts`. -/

section Queries

variable {db : Database} {selector family : CString} {constraining growing : Bool}
  {listed : Bool → Finset CString} {p : Selector → Bool} {nvt : Nat × Nvt}

/-- The NVTs of a family that have a row with a property. -/
theorem mem_joinSelectors :
    nvt ∈ joinSelectors db selector family p ↔
      (nvt ∈ db.nvts.rows ∧ nvt.2.family = family) ∧
        ∃ row ∈ selectorsWhere db selector p, row.familyOrNvt = some nvt.2.oid := by
  rw [joinSelectors, List.mem_flatMap]
  constructor
  · rintro ⟨found, hFound, hMem⟩
    obtain ⟨row, hRow, rfl⟩ := List.mem_map.mp hMem
    rw [← selectorsWhere_filter, List.mem_filter, decide_eq_true_eq] at hRow
    rw [List.mem_filter, decide_eq_true_eq] at hFound
    exact ⟨hFound, row, hRow⟩
  · rintro ⟨hFound, row, hRow, hOid⟩
    refine ⟨nvt, List.mem_filter.mpr ⟨hFound.1, decide_eq_true hFound.2⟩,
      List.mem_map.mpr ⟨row, ?_, rfl⟩⟩
    rw [← selectorsWhere_filter, List.mem_filter, decide_eq_true_eq]
    exact ⟨hRow, hOid⟩

/-- The OIDs of rows. -/
def oidsOf (rows : List (Nat × Nvt)) : List CString := rows.map (·.2.oid)

/-- A list of rows of the family that are there for these NVTs, once each. -/
def Yields (rows : List (Nat × Nvt)) (oids : Finset CString) : Prop :=
  (oidsOf rows).Nodup ∧ (oidsOf rows).toFinset = oids

/-- No NVT is joined twice where it has one row at most. -/
theorem nodup_join {rows : List (Nat × Nvt)} {f : Nat × Nvt → List Selector}
    (hRows : (oidsOf rows).Nodup) (hOne : ∀ nvt ∈ rows, (f nvt).length ≤ 1) :
    (oidsOf (rows.flatMap fun nvt => (f nvt).map fun _ => nvt)).Nodup := by
  induction rows with
  | nil => exact List.nodup_nil
  | cons nvt rows ih =>
      rw [oidsOf, List.map_cons, List.nodup_cons] at hRows
      have hTail := ih hRows.2 fun nvt' h => hOne nvt' (List.mem_cons_of_mem _ h)
      rw [List.flatMap_cons, oidsOf, List.map_append, List.nodup_append]
      refine ⟨?_, hTail, ?_⟩
      · have hLength := hOne nvt List.mem_cons_self
        rw [List.map_map]
        rcases hRow : f nvt with - | ⟨row, - | ⟨row', rest⟩⟩
        · exact List.nodup_nil
        · exact List.nodup_singleton _
        · rw [hRow] at hLength
          simp at hLength
      · intro oid hHere oid' hThere hSame
        obtain ⟨row, -, rfl⟩ := List.mem_map.mp (List.map_map ▸ hHere)
        obtain ⟨found, hFound, rfl⟩ := List.mem_map.mp hThere
        obtain ⟨source, hSource, hMem⟩ := List.mem_flatMap.mp hFound
        obtain ⟨-, -, rfl⟩ := List.mem_map.mp hMem
        exact hRows.1 (List.mem_map.mpr ⟨source, hSource, hSame.symm⟩)

theorem nodup_familyRows (hDistinct : DistinctOids db) (family : CString) :
    (oidsOf (db.nvts.rows.filter (·.2.family = family))).Nodup :=
  List.Nodup.sublist (List.filter_sublist.map _) hDistinct

theorem toFinset_familyRows :
    (oidsOf (db.nvts.rows.filter (·.2.family = family))).toFinset = items db family := by
  ext oid
  rw [List.mem_toFinset, mem_items, oidsOf, List.mem_map]
  simp only [List.mem_filter, decide_eq_true_eq, and_assoc]

/-- All NVTs of a family. -/
theorem yields_family (hDistinct : DistinctOids db) (family : CString) :
    Yields (db.nvts.rows.filter (·.2.family = family)) (items db family) :=
  ⟨nodup_familyRows hDistinct family, toFinset_familyRows⟩

/-- A join with selectors of which there is at most one for an NVT. -/
theorem yields_join (hDistinct : DistinctOids db) {oids : Finset CString}
    (hOne : ∀ oid ∈ items db family,
      (selectorsWhere db selector fun row => p row && row.familyOrNvt = some oid).length ≤ 1)
    (hMem : ∀ oid ∈ items db family,
      (∃ row ∈ selectorsWhere db selector p, row.familyOrNvt = some oid) ↔ oid ∈ oids)
    (hItems : oids ⊆ items db family) : Yields (joinSelectors db selector family p) oids := by
  constructor
  · apply nodup_join (nodup_familyRows hDistinct family)
    intro nvt hNvt
    obtain ⟨hRow, hFamily⟩ := List.mem_filter.mp hNvt
    exact hOne nvt.2.oid (mem_items.mpr ⟨nvt, hRow, of_decide_eq_true hFamily, rfl⟩)
  · ext oid
    rw [List.mem_toFinset, oidsOf, List.mem_map]
    constructor
    · rintro ⟨nvt, hNvt, rfl⟩
      obtain ⟨⟨hRow, hFamily⟩, hListed⟩ := mem_joinSelectors.mp hNvt
      exact (hMem _ (mem_items.mpr ⟨nvt, hRow, hFamily, rfl⟩)).mp hListed
    · intro hOid
      obtain ⟨nvt, hRow, hFamily, rfl⟩ := mem_items.mp (hItems hOid)
      exact ⟨nvt, mem_joinSelectors.mpr ⟨⟨hRow, hFamily⟩, (hMem _ (hItems hOid)).mpr hOid⟩, rfl⟩

theorem Lists.one {exclude : Bool} {oids : Finset CString}
    (h : Lists db selector family exclude oids) (oid : CString) :
    ((nvtRows db selector family exclude).filter (·.familyOrNvt = some oid)).length ≤ 1 := by
  have hCount := List.nodup_iff_count_le_one.mp h.nodup (some oid)
  rw [List.count, List.countP_map, List.countP_eq_length_filter] at hCount
  apply Nat.le_trans (Nat.le_of_eq _) hCount
  congr 1
  apply List.filter_congr
  intro row _
  exact (beq_eq_decide _ _).symm

theorem Placed.listed_items (h : Placed db selector constraining) {exclude : Bool}
    {oids : Finset CString} (hLists : Lists db selector family exclude oids) :
    oids ⊆ items db family := by
  intro oid hOid
  obtain ⟨row, hRow, hNamed⟩ := hLists.some_mem.mpr hOid
  obtain ⟨hMem, hName, hMeets⟩ := mem_selectorsWhere.mp hRow
  simp only [Selector.isNvtIn, Bool.and_eq_true, decide_eq_true_eq] at hMeets
  obtain ⟨family', -, hFamily, oid', hOid', hNamed'⟩ := h.nvt row
    (mem_selectorsWhere.mpr ⟨hMem, hName, by simp [hMeets]⟩)
  obtain rfl := Option.some.inj (hNamed.symm.trans hNamed')
  obtain rfl := Option.some.inj (hMeets.1.2.symm.trans hFamily)
  exact hOid'

/-- The NVTs of a family that are included. -/
theorem yields_onlyIncluded (hDistinct : DistinctOids db) (hPlaced : Placed db selector constraining)
    {oids : Finset CString} (hLists : Lists db selector family false oids) :
    Yields (onlyIncluded db selector family) oids := by
  apply yields_join hDistinct
  · intro oid _
    rw [← selectorsWhere_filter, nvtRows_includes]
    exact hLists.one oid
  · intro oid _
    rw [nvtRows_includes]
    exact hLists.some_mem
  · exact hPlaced.listed_items hLists

/-- The NVTs of a family but those that are excluded. -/
theorem yields_exceptExcluded (hDistinct : DistinctOids db) {oids : Finset CString}
    (hLists : Lists db selector family true oids) :
    Yields (exceptExcluded db selector family) (items db family \ oids) := by
  constructor
  · exact List.Nodup.sublist (List.filter_sublist.map _) (nodup_familyRows hDistinct family)
  · ext oid
    rw [List.mem_toFinset, oidsOf, exceptExcluded, List.mem_map, Finset.mem_sdiff, mem_items]
    simp only [List.mem_filter, decide_eq_true_eq, mem_joinSelectors, nvtRows_excludes,
      hLists.some_mem]
    constructor
    · rintro ⟨nvt, ⟨⟨hRow, hFamily⟩, hNot⟩, rfl⟩
      exact ⟨⟨nvt, hRow, hFamily, rfl⟩, fun hMem => hNot ⟨⟨hRow, hFamily⟩, hMem⟩⟩
    · rintro ⟨⟨nvt, hRow, hFamily, rfl⟩, hNot⟩
      exact ⟨nvt, ⟨⟨hRow, hFamily⟩, fun hMem => hNot hMem.2⟩, rfl⟩

/-- The includes of an NVT are in its family, so this need not be asked. -/
theorem Placed.includes_of_oid (hPlaced : Placed db selector constraining)
    (hDistinct : DistinctOids db) {oid : CString} (hOid : oid ∈ items db family) :
    (selectorsWhere db selector fun row =>
        (!row.exclude && row.type = .nvt) && row.familyOrNvt = some oid) =
      (nvtRows db selector family false).filter (·.familyOrNvt = some oid) := by
  rw [nvtRows, selectorsWhere_filter]
  apply selectorsWhere_congr_mem
  intro row hMem hName
  by_cases hNvt : row.type = .nvt ∧ row.familyOrNvt = some oid
  · have hFamily := hPlaced.family_of_oid hDistinct hOid
      (mem_selectorsWhere.mpr ⟨hMem, hName, decide_eq_true hNvt.1⟩) hNvt.2
    simp [hNvt, hFamily]
  · by_cases hType : row.type = .nvt <;> simp_all [Selector.isNvtIn]

/-- The NVTs of a family in a selector of single families. -/
theorem yields_static (hDistinct : DistinctOids db) (hPlaced : Placed db selector constraining)
    {oids : Finset CString} (hLists : Lists db selector family false oids) :
    Yields (joinSelectors db selector family fun row => !row.exclude && row.type = .nvt) oids := by
  apply yields_join hDistinct
  · intro oid hOid
    rw [hPlaced.includes_of_oid hDistinct hOid]
    exact hLists.one oid
  · intro oid hOid
    have hRows : ∀ row, row ∈ (selectorsWhere db selector fun row => !row.exclude && row.type = .nvt) ∧
        row.familyOrNvt = some oid ↔
          row ∈ nvtRows db selector family false ∧ row.familyOrNvt = some oid := by
      intro row
      have hSame := selectorsWhere_filter.trans (hPlaced.includes_of_oid hDistinct hOid)
      have hMem := iff_of_eq (congrArg (row ∈ ·) hSame)
      simpa only [List.mem_filter, decide_eq_true_eq] using hMem
    simp only [hRows]
    exact hLists.some_mem
  · exact hPlaced.listed_items hLists

end Queries

/-! The answer of `select_config_nvts`. -/

/-- What the code makes of a family: whether it grows, and the NVTs that are scanned with. -/
def choiceOf (db : Database) (config : Nat) (family : CString) : Choice CString where
  growing := match configNvtSelector db config with
    | none => false
    | some selector =>
        nvtSelectorFamilyGrowing db selector family (configFamiliesGrowing db config)
  chosen := ((selectConfigNvts db config family).map (·.oid)).toFinset

section Answer

variable {db : Database} {config : Nat} {row : Config} {selector family : CString}
  {growing : Bool} {listed : Bool → Finset CString}

theorem configNvtSelector_eq (hRow : (config, row) ∈ db.configs.rows) :
    configNvtSelector db config = row.nvtSelector := by
  rw [configNvtSelector, Table.get?_eq_some.mpr hRow, Option.bind_some]

theorem configFamiliesGrowing_eq (hRow : (config, row) ∈ db.configs.rows) :
    configFamiliesGrowing db config = row.familiesGrowing := by
  rw [configFamiliesGrowing, Table.get?_eq_some.mpr hRow, Option.any_some]

theorem configNvtsGrowing_eq (hRow : (config, row) ∈ db.configs.rows) :
    configNvtsGrowing db config = row.nvtsGrowing := by
  rw [configNvtsGrowing, Table.get?_eq_some.mpr hRow, Option.any_some]

/-- A single row is the all selector, and then nothing is listed. -/
theorem Placed.alone (h : Placed db selector true) (family : CString)
    (hOne : (selectorsWhere db selector fun _ => true).length = 1) :
    marks db selector family = [] ∧ ∀ exclude, nvtRows db selector family exclude = [] := by
  have hLength : ((selectorsWhere db selector fun _ => true).filter (·.type = .all)).length =
      (selectorsWhere db selector fun _ => true).length := by
    rw [selectorsWhere_filter, hOne]
    simp only [Bool.true_and, h.all, if_true, List.length_singleton]
  have hAll := List.length_filter_eq_length_iff.mp hLength
  have hNone : ∀ p : Selector → Bool, (∀ row, p row = true → row.type ≠ .all) →
      selectorsWhere db selector p = [] := by
    intro p hp
    apply List.eq_nil_iff_forall_not_mem.mpr
    intro row hRow
    obtain ⟨hMem, hName, hMeets⟩ := mem_selectorsWhere.mp hRow
    have hType := hAll row (mem_selectorsWhere.mpr ⟨hMem, hName, rfl⟩)
    exact hp row hMeets (of_decide_eq_true hType)
  constructor
  · apply hNone
    intro row hRow hType
    simp [Selector.isFamily, hType] at hRow
  · intro exclude
    apply hNone
    intro row hRow hType
    simp [Selector.isNvtIn, hType] at hRow

/-- What is chosen of a family with these rows. -/
def chosenOf (items : Finset CString) (growing : Bool) (listed : Bool → Finset CString) :
    Finset CString :=
  if growing then items \ listed true else listed false

/-- What is selected where the families grow. -/
theorem Shape.selectGrowing (hShape : Shape db selector constraining family growing listed)
    (hPlaced : Placed db selector constraining) (hDistinct : DistinctOids db) :
    Yields (selectGrowing db selector family constraining)
      (chosenOf (items db family) growing listed) := by
  have hGrowing := hShape.familyGrowing
  have hIncluded := yields_onlyIncluded hDistinct hPlaced (hShape.lists false)
  have hExcluded := yields_exceptExcluded hDistinct (hShape.lists true)
  unfold nvtSelectorFamilyGrowing at hGrowing
  unfold Configs.selectGrowing
  cases constraining with
  | true =>
      rw [if_pos rfl] at hGrowing ⊢
      split
      · rename_i hOne
        obtain ⟨hMarks, hRows⟩ := hPlaced.alone family hOne
        obtain rfl : growing = true := hShape.marked.mp hMarks
        have hNone : listed true = ∅ := by
          apply Finset.eq_empty_of_forall_notMem
          intro oid hOid
          obtain ⟨row, hRow, -⟩ := (hShape.lists true).some_mem.mpr hOid
          rw [hRows] at hRow
          cases hRow
        rw [chosenOf, if_pos rfl, hNone, Finset.sdiff_empty]
        exact yields_family hDistinct family
      · split
        · rename_i hMarked
          obtain rfl : growing = false := by rw [← hGrowing]; exact decide_eq_false hMarked
          exact hIncluded
        · rename_i hUnmarked
          obtain rfl : growing = true := by rw [← hGrowing]; exact decide_eq_true (not_not.mp hUnmarked)
          exact hExcluded
  | false =>
      rw [if_neg Bool.false_ne_true] at hGrowing ⊢
      split
      · rename_i hMarked
        obtain rfl : growing = true := by rw [← hGrowing]; exact decide_eq_true hMarked
        exact hExcluded
      · rename_i hUnmarked
        obtain rfl : growing = false := by rw [← hGrowing]; exact decide_eq_false hUnmarked
        exact hIncluded

theorem oidsOf_perm {rows : List (Nat × Nvt)} {oids : Finset CString} (h : Yields rows oids) :
    ((sortedNvts (rows.map Prod.snd)).map (·.oid)).Perm oids.toList := by
  have hSorted : ((sortedNvts (rows.map Prod.snd)).map (·.oid)).Perm (oidsOf rows) := by
    have hPerm := (List.perm_insertionSort (fun one two : Nvt => strcmpLe one.name two.name)
      (rows.map Prod.snd)).map (·.oid)
    rwa [List.map_map] at hPerm
  rw [← h.2]
  exact hSorted.trans (List.toFinset_toList h.1).symm

/-- `select_config_nvts` selects each NVT of the choice once. -/
theorem Shape.selectConfigNvts (hShape : Shape db selector row.familiesGrowing family growing listed)
    (hPlaced : Placed db selector row.familiesGrowing) (hDistinct : DistinctOids db)
    (hRow : (config, row) ∈ db.configs.rows) (hSelector : row.nvtSelector = some selector)
    (hStatic : row.nvtsGrowing = false → growing = false) :
    ((selectConfigNvts db config family).map (·.oid)).Perm
      (chosenOf (items db family) growing listed).toList := by
  have hGrowing := hShape.selectGrowing hPlaced hDistinct
  simp only [Configs.selectConfigNvts, configNvtSelector_eq hRow, hSelector, configNvtsGrowing_eq hRow,
    configFamiliesGrowing_eq hRow]
  cases hNvts : row.nvtsGrowing with
  | true => exact oidsOf_perm hGrowing
  | false =>
      obtain rfl := hStatic hNvts
      have hYields := yields_static hDistinct hPlaced (hShape.lists false)
      rw [if_neg Bool.false_ne_true, List.map_map, chosenOf, if_neg Bool.false_ne_true, ← hYields.2]
      exact (List.toFinset_toList hYields.1).symm

/-- The choice that is read back from a family is the one its shape stands for. -/
theorem Shape.choiceOf_eq (hShape : Shape db selector row.familiesGrowing family growing listed)
    (hPlaced : Placed db selector row.familiesGrowing) (hDistinct : DistinctOids db)
    (hRow : (config, row) ∈ db.configs.rows) (hSelector : row.nvtSelector = some selector)
    (hStatic : row.nvtsGrowing = false → growing = false) :
    choiceOf db config family = ⟨growing, chosenOf (items db family) growing listed⟩ := by
  have hPerm := hShape.selectConfigNvts hPlaced hDistinct hRow hSelector hStatic
  unfold choiceOf
  rw [configNvtSelector_eq hRow, hSelector, configFamiliesGrowing_eq hRow]
  congr 1
  · exact hShape.familyGrowing
  · rw [List.toFinset_eq_of_perm _ _ hPerm, Finset.toList_toFinset]

end Answer

end Configs
