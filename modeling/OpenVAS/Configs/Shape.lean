import Mathlib.Data.Finset.Dedup
import Mathlib.Data.Finset.SDiff
import Mathlib.Data.Finset.Card
import OpenVAS.Configs.Commands

/-! The rows of a selector, as the commands leave them: which rows there are for a family, and
what the functions that look at them answer. -/
namespace Configs

open CString

/-! The families and their NVTs. -/

/-- The OIDs of the NVTs of a family. -/
def items (db : Database) (family : CString) : Finset CString :=
  ((db.nvts.select (·.family = family)).map (·.oid)).toFinset

/-- Every NVT has an OID of its own. -/
def DistinctOids (db : Database) : Prop := (db.nvts.rows.map (·.2.oid)).Nodup

section Nvts

variable {db : Database} {family family' oid : CString}

theorem mem_items :
    oid ∈ items db family ↔ ∃ nvt ∈ db.nvts.rows, nvt.2.family = family ∧ nvt.2.oid = oid := by
  simp only [items, List.mem_toFinset, List.mem_map, Table.mem_select, decide_eq_true_eq]
  constructor
  · rintro ⟨nvt, ⟨⟨number, hRow⟩, hFamily⟩, hOid⟩
    exact ⟨(number, nvt), hRow, hFamily, hOid⟩
  · rintro ⟨⟨number, nvt⟩, hRow, hFamily, hOid⟩
    exact ⟨nvt, ⟨⟨number, hRow⟩, hFamily⟩, hOid⟩

theorem mem_families :
    family ∈ families db ↔
      family ≠ lit "Credentials" ∧ ∃ nvt ∈ db.nvts.rows, nvt.2.family = family := by
  simp only [families, List.mem_insertionSort, List.mem_dedup, List.mem_filter, List.mem_map,
    decide_eq_true_eq]
  tauto

/-- The families are told from the table of the NVTs. -/
theorem families_congr {after : Database} (h : after.nvts = db.nvts) :
    families after = families db := by
  rw [families, h, families]

theorem items_congr {after : Database} (h : after.nvts = db.nvts) : items after = items db := by
  funext family
  rw [items, h, items]

theorem DistinctOids.congr {after : Database} (h : DistinctOids db) (hNvts : after.nvts = db.nvts) :
    DistinctOids after := by
  rw [DistinctOids, hNvts]
  exact h

theorem nodup_families (db : Database) : (families db).Nodup :=
  (List.perm_insertionSort _ _).nodup_iff.mpr (List.nodup_dedup _)

theorem items_nonempty (h : family ∈ families db) : (items db family).Nonempty := by
  obtain ⟨-, nvt, hRow, hFamily⟩ := mem_families.mp h
  exact ⟨nvt.2.oid, mem_items.mpr ⟨nvt, hRow, hFamily, rfl⟩⟩

theorem DistinctOids.nvt_eq (h : DistinctOids db) {nvt nvt' : Nat × Nvt} (hRow : nvt ∈ db.nvts.rows)
    (hRow' : nvt' ∈ db.nvts.rows) (hOid : nvt.2.oid = nvt'.2.oid) : nvt = nvt' :=
  List.inj_on_of_nodup_map h hRow hRow' hOid

/-- An NVT has one family. -/
theorem DistinctOids.family_eq (h : DistinctOids db) (hOid : oid ∈ items db family)
    (hOid' : oid ∈ items db family') : family = family' := by
  obtain ⟨nvt, hRow, rfl, rfl⟩ := mem_items.mp hOid
  obtain ⟨nvt', hRow', rfl, hSame⟩ := mem_items.mp hOid'
  rw [h.nvt_eq hRow hRow' hSame.symm]

theorem DistinctOids.nodup_select (h : DistinctOids db) (p : Nvt → Bool) :
    ((db.nvts.select p).map (·.oid)).Nodup := by
  have hAll : ((db.nvts.rows.map Prod.snd).map (·.oid)).Nodup := by
    rwa [List.map_map]
  exact hAll.sublist (List.filter_sublist.map _)

/-- Queries of the NVTs that meet a condition yield each of them once. -/
theorem DistinctOids.nodup_sortedNvts (h : DistinctOids db) (p : Nvt → Bool) :
    ((sortedNvts (db.nvts.select p)).map (·.oid)).Nodup := by
  have hSame := (List.perm_insertionSort (fun one two : Nvt => strcmpLe one.name two.name)
    (db.nvts.select p)).map (·.oid)
  exact hSame.nodup_iff.mpr (h.nodup_select p)

/-- The count of a family is the number of its NVTs. -/
theorem DistinctOids.familyNvtCount_eq (h : DistinctOids db) (family : CString) :
    familyNvtCount db family = (items db family).card := by
  rw [items, List.toFinset_card_of_nodup (h.nodup_select _), List.length_map, familyNvtCount]

end Nvts

/-! The rows of a selector after a change of the rows. -/

section Rows

variable {db : Database} {selector other : CString} {p q : Selector → Bool} {row : Selector}

theorem mem_selectorsWhere :
    row ∈ selectorsWhere db selector p ↔
      (∃ number, (number, row) ∈ db.nvtSelectors.rows) ∧ row.name = selector ∧ p row = true := by
  simp [selectorsWhere, Table.mem_select]

theorem selectorsWhere_filter :
    (selectorsWhere db selector p).filter q = selectorsWhere db selector fun row => p row && q row := by
  simp only [selectorsWhere, Table.select, List.filter_filter]
  congr 1
  funext row
  cases p row <;> cases q row <;> simp

theorem selectorsWhere_congr (h : ∀ row, p row = q row) :
    selectorsWhere db selector p = selectorsWhere db selector q := by
  rw [funext h]

theorem selectorsWhere_congr_mem
    (h : ∀ row, (∃ number, (number, row) ∈ db.nvtSelectors.rows) → row.name = selector →
      p row = q row) : selectorsWhere db selector p = selectorsWhere db selector q := by
  unfold selectorsWhere Table.select
  apply List.filter_congr
  intro row hRow
  obtain ⟨⟨number, row'⟩, hMem, rfl⟩ := List.mem_map.mp hRow
  by_cases hName : row'.name = selector
  · rw [h row' ⟨number, hMem⟩ hName]
  · simp [hName]

@[simp] theorem selectorsWhere_updateConfig (config : Nat) (f : Config → Config) :
    selectorsWhere (updateConfig config f db) selector p = selectorsWhere db selector p := rfl

@[simp] theorem nvts_updateConfig (config : Nat) (f : Config → Config) :
    (updateConfig config f db).nvts = db.nvts := rfl

@[simp] theorem nvts_deleteSelectors : (deleteSelectors selector p db).nvts = db.nvts := rfl

@[simp] theorem nvts_insertSelector : (insertSelector row db).nvts = db.nvts := rfl

@[simp] theorem families_updateConfig (config : Nat) (f : Config → Config) :
    families (updateConfig config f db) = families db := rfl

@[simp] theorem families_deleteSelectors : families (deleteSelectors selector p db) = families db := rfl

@[simp] theorem families_insertSelector : families (insertSelector row db) = families db := rfl

@[simp] theorem items_updateConfig (config : Nat) (f : Config → Config) :
    items (updateConfig config f db) = items db := rfl

@[simp] theorem items_deleteSelectors : items (deleteSelectors selector p db) = items db := rfl

@[simp] theorem items_insertSelector : items (insertSelector row db) = items db := rfl

@[simp] theorem configs_deleteSelectors : (deleteSelectors selector p db).configs = db.configs := rfl

@[simp] theorem configs_insertSelector : (insertSelector row db).configs = db.configs := rfl

/-- What is deleted from a selector is not found in it. -/
theorem selectorsWhere_deleteSelectors :
    selectorsWhere (deleteSelectors selector q db) selector p =
      selectorsWhere db selector fun row => p row && !q row := by
  rw [selectorsWhere, deleteSelectors, Table.select_delete, selectorsWhere]
  congr 1
  funext row
  by_cases hName : row.name = selector <;> simp [hName]

end Rows

/-! Changes in one family of one selector. -/

/-- The rows of a selector for a family, of both types. -/
def Selector.concerns (family : CString) (row : Selector) : Bool :=
  row.isNvtIn family || row.isFamily family

/-- The tables beside those of the configs and their selectors are the same. -/
structure SameRest (db after : Database) : Prop where
  nvts : after.nvts = db.nvts
  tasks : after.tasks = db.tasks
  configsTrash : after.configsTrash = db.configsTrash

/-- Only rows of the selector for the family are changed. -/
structure ChangesOnly (selector family : CString) (db after : Database) : Prop
    extends SameRest db after where
  rows : ∀ name p, (name = selector → ∀ row, p row = true → row.concerns family = false) →
    selectorsWhere after name p = selectorsWhere db name p

section Changes

variable {db middle after : Database} {selector family : CString}

theorem SameRest.refl (db : Database) : SameRest db db := ⟨rfl, rfl, rfl⟩

theorem SameRest.trans (h : SameRest db middle) (h' : SameRest middle after) : SameRest db after :=
  ⟨h'.nvts.trans h.nvts, h'.tasks.trans h.tasks, h'.configsTrash.trans h.configsTrash⟩

theorem ChangesOnly.refl (db : Database) : ChangesOnly selector family db db :=
  ⟨.refl db, fun _ _ _ => rfl⟩

theorem ChangesOnly.trans (h : ChangesOnly selector family db middle)
    (h' : ChangesOnly selector family middle after) : ChangesOnly selector family db after :=
  ⟨h.toSameRest.trans h'.toSameRest,
    fun name p hApart => (h'.rows name p hApart).trans (h.rows name p hApart)⟩

theorem ChangesOnly.updateConfig (h : ChangesOnly selector family db after) (config : Nat)
    (f : Config → Config) : ChangesOnly selector family db (updateConfig config f after) :=
  ⟨⟨h.nvts, h.tasks, h.configsTrash⟩, h.rows⟩

end Changes

/-! What there is for one family. -/

/-- The selectors of the family itself. -/
def marks (db : Database) (selector family : CString) : List Selector :=
  selectorsWhere db selector (·.isFamily family)

/-- The includes or the excludes of NVTs of the family. -/
def nvtRows (db : Database) (selector family : CString) (exclude : Bool) : List Selector :=
  selectorsWhere db selector fun row => row.isNvtIn family && row.exclude = exclude

/-- The includes, or the excludes, are for these NVTs, and there is one for each of them. -/
structure Lists (db : Database) (selector family : CString) (exclude : Bool)
    (oids : Finset CString) : Prop where
  nodup : ((nvtRows db selector family exclude).map (·.familyOrNvt)).Nodup
  mem : ∀ oid, oid ∈ (nvtRows db selector family exclude).map (·.familyOrNvt) ↔
    ∃ o ∈ oids, some o = oid

/-- The rows of a family: it is marked when it does not do what all families do that are not
marked, and some of its NVTs are listed as included or excluded. -/
structure Shape (db : Database) (selector : CString) (constraining : Bool) (family : CString)
    (growing : Bool) (listed : Bool → Finset CString) : Prop where
  mark : ∀ row ∈ marks db selector family, row.exclude = constraining
  marked : marks db selector family = [] ↔ growing = constraining
  lists : ∀ exclude, Lists db selector family exclude (listed exclude)

/-- The all selector is there when new families are to grow, and the other rows are for
families and NVTs that there are. -/
structure Placed (db : Database) (selector : CString) (constraining : Bool) : Prop where
  all : selectorsWhere db selector (fun row => row.type = .all) =
    if constraining then [⟨selector, false, .all, none, none⟩] else []
  family : ∀ row ∈ selectorsWhere db selector (fun row => row.type = .family),
    ∃ family ∈ families db, row.familyOrNvt = some family
  nvt : ∀ row ∈ selectorsWhere db selector (fun row => row.type = .nvt),
    ∃ family ∈ families db, row.family = some family ∧
      ∃ oid ∈ items db family, row.familyOrNvt = some oid

section Rows

variable {db after : Database} {selector family family' oid : CString} {exclude exclude' : Bool}

theorem Selector.concerns_of_isFamily {row : Selector} (h : row.isFamily family = true)
    (hOther : family ≠ family') : row.concerns family' = false := by
  simp only [Selector.isFamily, Bool.and_eq_true, decide_eq_true_eq] at h
  simp [Selector.concerns, Selector.isNvtIn, Selector.isFamily, h.1, h.2, hOther]

theorem Selector.concerns_of_isNvtIn {row : Selector} (h : row.isNvtIn family = true)
    (hOther : family ≠ family') : row.concerns family' = false := by
  simp only [Selector.isNvtIn, Bool.and_eq_true, decide_eq_true_eq] at h
  simp [Selector.concerns, Selector.isNvtIn, Selector.isFamily, h.1, h.2, hOther]

theorem ChangesOnly.marks_eq (h : ChangesOnly selector family' db after) (hOther : family ≠ family') :
    marks after selector family = marks db selector family :=
  h.rows selector _ fun _ row hRow => row.concerns_of_isFamily hRow hOther

theorem ChangesOnly.nvtRows_eq (h : ChangesOnly selector family' db after)
    (hOther : family ≠ family') (exclude : Bool) :
    nvtRows after selector family exclude = nvtRows db selector family exclude := by
  apply h.rows selector _
  intro _ row hRow
  rw [Bool.and_eq_true] at hRow
  exact row.concerns_of_isNvtIn hRow.1 hOther

theorem ChangesOnly.lists_iff (h : ChangesOnly selector family' db after) (hOther : family ≠ family')
    {oids : Finset CString} :
    Lists after selector family exclude oids ↔ Lists db selector family exclude oids := by
  constructor
  · intro hLists
    have hNodup := hLists.nodup
    have hMem := hLists.mem
    rw [h.nvtRows_eq hOther] at hNodup hMem
    exact ⟨hNodup, hMem⟩
  · intro hLists
    constructor
    · rw [h.nvtRows_eq hOther]
      exact hLists.nodup
    · rw [h.nvtRows_eq hOther]
      exact hLists.mem

/-- Another family keeps its shape. -/
theorem ChangesOnly.shape (h : ChangesOnly selector family' db after) (hOther : family ≠ family')
    {constraining growing : Bool} {listed : Bool → Finset CString}
    (hShape : Shape db selector constraining family growing listed) :
    Shape after selector constraining family growing listed := by
  constructor
  · rw [h.marks_eq hOther]
    exact hShape.mark
  · rw [h.marks_eq hOther]
    exact hShape.marked
  · exact fun exclude => (h.lists_iff hOther).mpr (hShape.lists exclude)

theorem Lists.updateConfig {oids : Finset CString} (h : Lists db selector family exclude oids)
    (config : Nat) (f : Config → Config) :
    Lists (updateConfig config f db) selector family exclude oids := ⟨h.nodup, h.mem⟩

theorem Shape.updateConfig {constraining growing : Bool} {listed : Bool → Finset CString}
    (h : Shape db selector constraining family growing listed) (config : Nat) (f : Config → Config) :
    Shape (updateConfig config f db) selector constraining family growing listed :=
  ⟨h.mark, h.marked, fun exclude => (h.lists exclude).updateConfig config f⟩

theorem Placed.updateConfig {constraining : Bool} (h : Placed db selector constraining)
    (config : Nat) (f : Config → Config) :
    Placed (updateConfig config f db) selector constraining := ⟨h.all, h.family, h.nvt⟩

theorem ChangesOnly.items_eq (h : ChangesOnly selector family' db after) (family : CString) :
    items after family = items db family :=
  congrFun (items_congr h.nvts) family

theorem ChangesOnly.families_eq (h : ChangesOnly selector family' db after) :
    families after = families db :=
  families_congr h.nvts

end Rows

/-! The rows after one statement. -/

section Statements

variable {db : Database} {selector family family' oid : CString} {exclude exclude' : Bool}

end Statements

/-! What is listed after one statement. -/

section Listed

variable {db after : Database} {selector family family' oid : CString} {exclude exclude' : Bool}
  {oids : Finset CString}

theorem Lists.congr (h : Lists db selector family exclude oids)
    (hRows : nvtRows after selector family exclude = nvtRows db selector family exclude) :
    Lists after selector family exclude oids := by
  constructor
  · rw [hRows]
    exact h.nodup
  · rw [hRows]
    exact h.mem

theorem lists_empty (h : nvtRows db selector family exclude = []) :
    Lists db selector family exclude ∅ := by
  constructor
  · rw [h]
    exact List.nodup_nil
  · rw [h]
    simp

theorem Lists.length (h : Lists db selector family exclude oids) :
    (nvtRows db selector family exclude).length = oids.card := by
  have hPerm : ((nvtRows db selector family exclude).map (·.familyOrNvt)).Perm
      (oids.toList.map some) := by
    apply (List.perm_ext_iff_of_nodup h.nodup
      (oids.nodup_toList.map (Option.some_injective _))).mpr
    intro oid
    rw [h.mem, List.mem_map]
    simp only [Finset.mem_toList]
  have hLength := hPerm.length_eq
  rwa [List.length_map, List.length_map, Finset.length_toList] at hLength

/-- An NVT has a row exactly if it is listed. -/
theorem Lists.some_mem (h : Lists db selector family exclude oids) :
    (∃ row ∈ nvtRows db selector family exclude, row.familyOrNvt = some oid) ↔ oid ∈ oids := by
  rw [← List.mem_map, h.mem]
  constructor
  · rintro ⟨o, hMem, hSame⟩
    exact Option.some.inj hSame ▸ hMem
  · exact fun hMem => ⟨oid, hMem, rfl⟩

end Listed

/-! Where rows may be. -/

section Placing

variable {db : Database} {selector family family' oid : CString} {exclude constraining : Bool}

/-- Rows of families and NVTs may be removed. -/
theorem Placed.delete (h : Placed db selector constraining) {p : Selector → Bool}
    (hKeep : ∀ row, row.type = .all → p row = false) :
    Placed (deleteSelectors selector p db) selector constraining := by
  have hLess : ∀ q row, row ∈ selectorsWhere (deleteSelectors selector p db) selector q →
      row ∈ selectorsWhere db selector q := by
    intro q row hRow
    rw [selectorsWhere_deleteSelectors, ← selectorsWhere_filter] at hRow
    exact (List.mem_filter.mp hRow).1
  constructor
  · rw [selectorsWhere_deleteSelectors, ← h.all]
    apply selectorsWhere_congr
    intro row
    by_cases hType : row.type = .all <;> simp [hType, hKeep row]
  · exact fun row hRow => h.family row (hLess _ row hRow)
  · exact fun row hRow => h.nvt row (hLess _ row hRow)

/-- A selector for an NVT of a family is listed in this family. -/
theorem Placed.family_of_oid (h : Placed db selector constraining) (hDistinct : DistinctOids db)
    (hOid : oid ∈ items db family) {row : Selector}
    (hRow : row ∈ selectorsWhere db selector fun row => row.type = .nvt)
    (hNamed : row.familyOrNvt = some oid) : row.isNvtIn family = true := by
  obtain ⟨family', -, hFamily, oid', hOid', hNamed'⟩ := h.nvt row hRow
  obtain rfl : oid = oid' := Option.some.inj (hNamed.symm.trans hNamed')
  obtain rfl := hDistinct.family_eq hOid hOid'
  have hType := (mem_selectorsWhere.mp hRow).2.2
  simp [Selector.isNvtIn, hFamily, of_decide_eq_true hType]

end Placing

/-! Which rows the statements change. -/

section Changing

variable {db : Database} {selector family oid : CString} {exclude constraining : Bool}

end Changing

/-! The loops over the NVTs of a family. -/

section Loops

variable {db : Database} {selector family : CString} {exclude constraining : Bool}

/-- Statements that change rows of a family only, and leave rows where they may be. -/
structure Edits (selector family : CString) (constraining : Bool) (db after : Database) : Prop where
  changes : ChangesOnly selector family db after
  placed : Placed after selector constraining
  configs : after.configs = db.configs

/-- Statements that change rows of the NVTs in a family only. -/
structure EditsNvts (selector family : CString) (constraining : Bool) (db after : Database) : Prop
    extends Edits selector family constraining db after where
  marks : marks after selector family = marks db selector family

theorem Edits.trans {middle after : Database} (h : Edits selector family constraining db middle)
    (h' : Edits selector family constraining middle after) :
    Edits selector family constraining db after :=
  ⟨h.changes.trans h'.changes, h'.placed, h'.configs.trans h.configs⟩

theorem EditsNvts.trans {middle after : Database}
    (h : EditsNvts selector family constraining db middle)
    (h' : EditsNvts selector family constraining middle after) :
    EditsNvts selector family constraining db after :=
  ⟨h.toEdits.trans h'.toEdits, h'.marks.trans h.marks⟩

end Loops

end Configs
