import Mathlib.Data.List.Nodup

/-! Tables of a database. A row has a number, which is one more than the highest number
when the row is inserted, so that numbers are used again. -/

/-- Rows under different numbers, in the order in which they were inserted. -/
structure Table (Row : Type*) where
  rows : List (Nat × Row)
  distinct : (rows.map Prod.fst).Nodup

namespace Table

variable {Row Row' : Type*}

instance [DecidableEq Row] : DecidableEq (Table Row) := fun one two =>
  decidable_of_iff (one.rows = two.rows) (by
    constructor
    · intro h
      obtain ⟨rows, hDistinct⟩ := one
      obtain ⟨rows', hDistinct'⟩ := two
      obtain rfl : rows = rows' := h
      rfl
    · exact congrArg rows)

def empty : Table Row := ⟨[], List.nodup_nil⟩

/-- The number of the next row. -/
def next (table : Table Row) : Nat := (table.rows.map Prod.fst).foldr max 0 + 1

theorem le_foldr_max {numbers : List Nat} {number : Nat} (h : number ∈ numbers) :
    number ≤ numbers.foldr max 0 := by
  induction numbers with
  | nil => cases h
  | cons first numbers ih =>
      rcases List.mem_cons.mp h with rfl | h
      · exact Nat.le_max_left _ _
      · exact Nat.le_trans (ih h) (Nat.le_max_right _ _)

theorem lt_next {table : Table Row} {number : Nat} {row : Row} (h : (number, row) ∈ table.rows) :
    number < table.next :=
  Nat.lt_succ_of_le (le_foldr_max (List.mem_map_of_mem h))

theorem next_not_mem (table : Table Row) : table.next ∉ table.rows.map Prod.fst := by
  intro h
  obtain ⟨⟨number, row⟩, hMem, hNumber⟩ := List.mem_map.mp h
  exact Nat.lt_irrefl _ (hNumber ▸ lt_next hMem)

/-- A number has one row. -/
theorem row_eq {table : Table Row} {number : Nat} {row row' : Row}
    (h : (number, row) ∈ table.rows) (h' : (number, row') ∈ table.rows) : row = row' :=
  congrArg Prod.snd (List.inj_on_of_nodup_map table.distinct h h' rfl)

/-- `INSERT INTO ... VALUES`. -/
def insert (table : Table Row) (row : Row) : Table Row where
  rows := table.rows ++ [(table.next, row)]
  distinct := by
    rw [List.map_append, List.nodup_append]
    refine ⟨table.distinct, List.nodup_singleton _, fun a ha b hb hEq => ?_⟩
    obtain rfl : b = table.next := List.mem_singleton.mp hb
    exact next_not_mem table (hEq ▸ ha)

/-- `INSERT INTO ... SELECT`. -/
def insertAll (table : Table Row) (rows : List Row) : Table Row := rows.foldl insert table

/-- `DELETE ... WHERE`. -/
def delete (table : Table Row) (p : Nat → Row → Bool) : Table Row where
  rows := table.rows.filter fun row => !p row.1 row.2
  distinct := table.distinct.sublist (List.filter_sublist.map _)

/-- `UPDATE ... SET ... WHERE`, with a row that the condition does not meet left as it is. -/
def update (table : Table Row) (f : Row → Row) : Table Row where
  rows := table.rows.map fun row => (row.1, f row.2)
  distinct := by
    rw [List.map_map]
    exact table.distinct

/-- `UPDATE ... SET ... WHERE ROWID = `. -/
def updateAt (table : Table Row) (number : Nat) (f : Row → Row) : Table Row where
  rows := table.rows.map fun row => if row.1 = number then (row.1, f row.2) else row
  distinct := by
    rw [List.map_map, List.map_congr_left (g := Prod.fst)]
    · exact table.distinct
    · intro row _
      simp only [Function.comp_apply]
      split <;> rfl

/-- `SELECT ROWID ... WHERE`. -/
def find? (table : Table Row) (p : Row → Bool) : Option Nat :=
  (table.rows.find? fun row => p row.2).map Prod.fst

/-- `SELECT ... WHERE ROWID = `. -/
def get? (table : Table Row) (number : Nat) : Option Row :=
  (table.rows.find? fun row => row.1 = number).map Prod.snd

/-- `SELECT ... WHERE`. -/
def select (table : Table Row) (p : Row → Bool) : List Row :=
  (table.rows.map Prod.snd).filter p

/-- `SELECT count (*) ... WHERE`, as a condition. -/
def any (table : Table Row) (p : Nat → Row → Bool) : Bool :=
  table.rows.any fun row => p row.1 row.2

@[simp] theorem mem_insert {table : Table Row} {row row' : Row} {number : Nat} :
    (number, row') ∈ (table.insert row).rows ↔
      (number, row') ∈ table.rows ∨ number = table.next ∧ row' = row := by
  simp [insert]

@[simp] theorem mem_delete {table : Table Row} {p : Nat → Row → Bool} {row : Row} {number : Nat} :
    (number, row) ∈ (table.delete p).rows ↔ (number, row) ∈ table.rows ∧ p number row = false := by
  simp [delete]

@[simp] theorem mem_update {table : Table Row} {f : Row → Row} {row : Row} {number : Nat} :
    (number, row) ∈ (table.update f).rows ↔ ∃ old, (number, old) ∈ table.rows ∧ f old = row := by
  simp [update]

theorem exists_mem_updateAt {table : Table Row} {number changed : Nat} {f : Row → Row} {row : Row}
    (h : (number, row) ∈ table.rows) : ∃ row', (number, row') ∈ (table.updateAt changed f).rows := by
  have hMem := List.mem_map_of_mem (f := fun row : Nat × Row =>
    if row.1 = changed then (row.1, f row.2) else row) h
  dsimp only at hMem
  split at hMem
  · exact ⟨f row, hMem⟩
  · exact ⟨row, hMem⟩

theorem get?_eq_some {table : Table Row} {number : Nat} {row : Row} :
    table.get? number = some row ↔ (number, row) ∈ table.rows := by
  constructor
  · intro h
    obtain ⟨⟨number', row'⟩, hFind, rfl⟩ := Option.map_eq_some_iff.mp h
    have hNumber := List.find?_some hFind
    obtain rfl : number' = number := of_decide_eq_true hNumber
    exact List.mem_of_find?_eq_some hFind
  · intro h
    cases hFind : table.rows.find? fun row => row.1 = number with
    | none =>
        have hNone := List.find?_eq_none.mp hFind (number, row) h
        simp at hNone
    | some found =>
        obtain ⟨number', row'⟩ := found
        have hNumber := List.find?_some hFind
        obtain rfl : number' = number := of_decide_eq_true hNumber
        rw [get?, hFind, Option.map_some, row_eq (List.mem_of_find?_eq_some hFind) h]

theorem find?_eq_some {table : Table Row} {p : Row → Bool} {number : Nat}
    (h : table.find? p = some number) : ∃ row, (number, row) ∈ table.rows ∧ p row = true := by
  obtain ⟨⟨number', row⟩, hFind, rfl⟩ := Option.map_eq_some_iff.mp h
  have hRow := List.find?_some hFind
  exact ⟨row, List.mem_of_find?_eq_some hFind, hRow⟩

theorem mem_select {table : Table Row} {p : Row → Bool} {row : Row} :
    row ∈ table.select p ↔ (∃ number, (number, row) ∈ table.rows) ∧ p row = true := by
  simp [select]

theorem next_insert (table : Table Row) (row : Row) : (table.insert row).next = table.next + 1 := by
  have hMax : ∀ numbers : List Nat, (numbers ++ [numbers.foldr max 0 + 1]).foldr max 0 =
      numbers.foldr max 0 + 1 := by
    intro numbers
    have hAppend : ∀ (numbers : List Nat) (last : Nat), (numbers ++ [last]).foldr max 0 =
        max (numbers.foldr max 0) last := by
      intro numbers last
      induction numbers with
      | nil => exact Nat.max_comm _ _
      | cons number numbers ih => rw [List.cons_append, List.foldr_cons, ih, List.foldr_cons,
          Nat.max_assoc]
    rw [hAppend]
    exact Nat.max_eq_right (Nat.le_succ _)
  rw [next, insert, List.map_append, List.map_singleton]
  exact congrArg (· + 1) (hMax _)

/-- The rows of an insertion are the old ones and the new ones, under new numbers. -/
theorem mem_insertAll {table : Table Row} {rows : List Row} {number : Nat} {row : Row} :
    (number, row) ∈ (table.insertAll rows).rows ↔
      (number, row) ∈ table.rows ∨ ∃ i, number = table.next + i ∧ rows[i]? = some row := by
  induction rows generalizing table with
  | nil => simp [insertAll]
  | cons first rows ih =>
      rw [insertAll, List.foldl_cons]
      change (number, row) ∈ ((table.insert first).insertAll rows).rows ↔ _
      rw [ih, mem_insert, next_insert]
      constructor
      · rintro ((hOld | ⟨rfl, rfl⟩) | ⟨i, rfl, hRow⟩)
        · exact .inl hOld
        · exact .inr ⟨0, rfl, rfl⟩
        · exact .inr ⟨i + 1, by omega, hRow⟩
      · rintro (hOld | ⟨i, rfl, hRow⟩)
        · exact .inl (.inl hOld)
        · cases i with
          | zero => exact .inl (.inr ⟨rfl, (Option.some.inj hRow).symm⟩)
          | succ i => exact .inr ⟨i, by omega, hRow⟩

theorem map_snd_insertAll (table : Table Row) (rows : List Row) :
    (table.insertAll rows).rows.map Prod.snd = table.rows.map Prod.snd ++ rows := by
  induction rows generalizing table with
  | nil => exact (List.append_nil _).symm
  | cons row rows ih =>
      refine (ih (table.insert row)).trans ?_
      rw [insert, List.map_append, List.append_assoc]
      rfl

@[simp] theorem select_insertAll (table : Table Row) (rows : List Row) (p : Row → Bool) :
    (table.insertAll rows).select p = table.select p ++ rows.filter p := by
  rw [select, map_snd_insertAll, List.filter_append, select]

@[simp] theorem select_delete (table : Table Row) (q p : Row → Bool) :
    (table.delete fun _ row => q row).select p = table.select fun row => p row && !q row := by
  simp [select, delete, List.filter_map, Function.comp_def, List.filter_filter]

theorem select_eq_nil {table : Table Row} {p : Row → Bool}
    (h : ∀ number row, (number, row) ∈ table.rows → p row = false) : table.select p = [] := by
  rw [select, List.filter_eq_nil_iff]
  intro row hRow
  obtain ⟨⟨number, row'⟩, hMem, rfl⟩ := List.mem_map.mp hRow
  simp [h number row' hMem]

theorem mem_insertAll_singleton {table : Table Row} {row row' : Row} {number : Nat} :
    (number, row') ∈ (table.insertAll [row]).rows ↔
      (number, row') ∈ table.rows ∨ number = table.next ∧ row' = row :=
  mem_insert

/-! Rows that belong to a row of another table. -/

section Children

variable {parent : Row → Nat} {children : Table Row} {parents : Table Row'} {rows : List Row}
  {number gone : Nat}

/-- The rows of one parent, after rows of a parent were inserted. -/
theorem select_parent_insertAll (h : ∀ row ∈ rows, parent row = gone) :
    (children.insertAll rows).select (parent · = number) =
      children.select (parent · = number) ++ if gone = number then rows else [] := by
  rw [select_insertAll]
  congr 1
  split
  · rename_i hSame
    exact List.filter_eq_self.mpr fun row hRow => decide_eq_true ((h row hRow).trans hSame)
  · rename_i hOther
    apply List.filter_eq_nil_iff.mpr
    intro row hRow
    simpa using fun hNumber => hOther ((h row hRow).symm.trans hNumber)

/-- The rows of one parent, after those of another parent were deleted. -/
theorem select_parent_delete (h : number ≠ gone) :
    (children.delete fun _ row => parent row = gone).select (parent · = number) =
      children.select (parent · = number) := by
  rw [select_delete]
  congr 1
  funext row
  by_cases hNumber : parent row = number
  · simp [hNumber, h]
  · simp [hNumber]

theorem parent_of_mem_select {row : Row} (h : row ∈ children.select (parent · = number)) :
    parent row = number :=
  of_decide_eq_true (mem_select.mp h).2

/-- Every row belongs to a row of the other table. -/
def Belongs (parent : Row → Nat) (children : Table Row) (parents : Table Row') : Prop :=
  ∀ n row, (n, row) ∈ children.rows → ∃ row', (parent row, row') ∈ parents.rows

theorem Belongs.select_next (h : Belongs parent children parents) :
    children.select (parent · = parents.next) = [] := by
  apply select_eq_nil
  intro n row hRow
  obtain ⟨row', hRow'⟩ := h n row hRow
  exact decide_eq_false (Nat.ne_of_lt (lt_next hRow'))

/-- A row is deleted with what belongs to it. -/
theorem Belongs.delete (h : Belongs parent children parents) (gone : Nat) :
    Belongs parent (children.delete fun _ row => parent row = gone)
      (parents.delete fun n _ => n = gone) := by
  intro n row hRow
  obtain ⟨hRow, hOther⟩ := mem_delete.mp hRow
  obtain ⟨row', hRow'⟩ := h n row hRow
  exact ⟨row', mem_delete.mpr ⟨hRow', hOther⟩⟩

/-- A row is inserted with what belongs to it. -/
theorem Belongs.insertAll (h : Belongs parent children parents)
    (hRows : ∀ row ∈ rows, parent row = parents.next) (row' : Row') :
    Belongs parent (children.insertAll rows) (parents.insertAll [row']) := by
  intro n row hRow
  rcases mem_insertAll.mp hRow with hOld | ⟨i, -, hNew⟩
  · obtain ⟨other, hOther⟩ := h n row hOld
    exact ⟨other, mem_insertAll_singleton.mpr (.inl hOther)⟩
  · exact ⟨row', mem_insertAll_singleton.mpr
      (.inr ⟨hRows row (List.mem_of_getElem? hNew), rfl⟩)⟩

end Children

end Table
