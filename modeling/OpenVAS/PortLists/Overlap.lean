import Mathlib
import OpenVAS.PortLists.Merging
import OpenVAS.PortLists.Transactions
import OpenVAS.Ports.Agreement
import OpenVAS.Trashcan.PortLists

/-! The ranges of a port list have no common port, whatever commands are run, so that the
sizes of the ranges add up to the number of ports. -/
namespace PortLists

open CString Transaction Trashcan

def rangeOfRow (row : PortRange) : Range := ⟨row.type, row.start, row.stop, row.exclude⟩

/-- Two rows that share no port of one list. -/
def Apart (one two : PortRange) : Prop :=
  one.portList = two.portList → (rangeOfRow one).Apart (rangeOfRow two)

theorem Apart.symm {one two : PortRange} (h : Apart one two) : Apart two one :=
  fun hList hType => (h hList.symm hType.symm).symm

structure SoundRows (table : Table PortRange) : Prop where
  ordered : ∀ row ∈ table.rows.map Prod.snd, row.start ≤ row.stop
  apart : (table.rows.map Prod.snd).Pairwise Apart

structure RangesSound (db : Database) : Prop where
  belong : RangesBelong db
  table : SoundRows db.portRanges
  trash : SoundRows db.portRangesTrash

section Rows

variable {table : Table PortRange} {rows : List PortRange}

theorem SoundRows.delete (h : SoundRows table) (gone : Nat → PortRange → Bool) :
    SoundRows (table.delete gone) := by
  have hSub : ((table.delete gone).rows.map Prod.snd).Sublist (table.rows.map Prod.snd) :=
    List.filter_sublist.map _
  exact ⟨fun row hRow => h.ordered row (hSub.subset hRow), h.apart.sublist hSub⟩

theorem SoundRows.insertAll (h : SoundRows table) (hOrdered : ∀ row ∈ rows, row.start ≤ row.stop)
    (hApart : rows.Pairwise Apart)
    (hCross : ∀ number row, (number, row) ∈ table.rows → ∀ new ∈ rows, Apart row new) :
    SoundRows (table.insertAll rows) := by
  refine ⟨fun row hRow => ?_, ?_⟩
  · rw [Table.map_snd_insertAll] at hRow
    exact (List.mem_append.mp hRow).elim (h.ordered row) (hOrdered row)
  · rw [Table.map_snd_insertAll, List.pairwise_append]
    refine ⟨h.apart, hApart, fun row hRow new hNew => ?_⟩
    obtain ⟨⟨number, row'⟩, hMem, rfl⟩ := List.mem_map.mp hRow
    exact hCross number row' hMem new hNew

/-- The ranges of a new list are inserted. -/
theorem SoundRows.insertList {Row : Type} {parents : Table Row} {new : Nat} (h : SoundRows table)
    (hBelong : Table.Belongs PortRange.portList table parents) (hNew : parents.next ≤ new)
    (hRows : ∀ row ∈ rows, row.portList = new) (hOrdered : ∀ row ∈ rows, row.start ≤ row.stop)
    (hApart : rows.Pairwise Apart) : SoundRows (table.insertAll rows) := by
  refine h.insertAll hOrdered hApart fun number row hRow other hOther hList => ?_
  obtain ⟨parent, hParent⟩ := hBelong number row hRow
  have hOld := Table.lt_next hParent
  rw [hList, hRows other hOther] at hOld
  omega

/-- The ranges of one list, copied to another list. -/
theorem SoundRows.copies (h : SoundRows table) {old : Nat} (new : Nat)
    (copy : Nat → PortRange → PortRange) (hCopy : ∀ i row, rangeOfRow (copy i row) = rangeOfRow row)
    (hRows : rows = (table.select (·.portList = old)).mapIdx copy)
    (hList : ∀ i row, (copy i row).portList = new) :
    (∀ row ∈ rows, row.portList = new) ∧ (∀ row ∈ rows, row.start ≤ row.stop) ∧
      rows.Pairwise Apart := by
  have hSub : (table.select (·.portList = old)).Sublist (table.rows.map Prod.snd) :=
    List.filter_sublist
  have hSame : ∀ row ∈ table.select (·.portList = old), row.portList = old :=
    fun row hRow => Table.parent_of_mem_select hRow
  have hApart := h.apart.sublist hSub
  have hOrdered : ∀ row ∈ table.select (·.portList = old), row.start ≤ row.stop :=
    fun row hRow => h.ordered row (hSub.subset hRow)
  subst hRows
  generalize table.select (·.portList = old) = list at hSame hApart hOrdered
  refine ⟨fun row hRow => ?_, fun row hRow => ?_, ?_⟩
  · obtain ⟨i, hi, rfl⟩ := List.mem_mapIdx.mp hRow
    exact hList _ _
  · obtain ⟨i, hi, rfl⟩ := List.mem_mapIdx.mp hRow
    have hRange := hCopy i list[i]
    rw [show (copy i list[i]).start = list[i].start from congrArg Range.start hRange,
      show (copy i list[i]).stop = list[i].stop from congrArg Range.stop hRange]
    exact hOrdered _ (List.getElem_mem hi)
  · rw [List.pairwise_iff_getElem]
    intro i j hi hj hij _
    simp only [List.length_mapIdx] at hi hj
    simp only [List.getElem_mapIdx]
    rw [hCopy, hCopy]
    exact List.pairwise_iff_getElem.mp hApart i j hi hj hij
      ((hSame _ (List.getElem_mem hi)).trans (hSame _ (List.getElem_mem hj)).symm)

end Rows

/-! Copies in the trashcan and back. -/

theorem rangesFor_eq_mapIdx (number : Nat) (ranges : List PortRange) :
    rangesFor number ranges = ranges.mapIdx fun _ row => { row with portList := number } := by
  rw [rangesFor, List.mapIdx_eq_zipIdx_map]
  exact List.ext_getElem (by simp) (by simp)

section Trash

variable {env : Env} {resourceId : CString} {ultimate : Bool} {db db' : Database}

theorem PortListDeleted.sound (h : PortListDeleted env resourceId ultimate db db')
    (hSound : RangesSound db) : RangesSound db' := by
  refine ⟨h.rangesBelong hSound.belong, ?_, ?_⟩
  · cases h with
    | purged hTrash hUltimate => exact hSound.table
    | @moved portList row hTable hRow hUltimate hFresh =>
        exact hSound.table.delete fun _ row => row.portList = portList
    | @dropped portList hTable hUltimate =>
        exact hSound.table.delete fun _ row => row.portList = portList
  · cases h with
    | @purged portList hTrash hUltimate =>
        exact hSound.trash.delete fun _ row => row.portList = portList
    | moved hTable hRow hUltimate hFresh =>
        obtain ⟨hList, hOrdered, hApart⟩ := hSound.table.copies db.portListsTrash.next
          (fun _ row => { row with portList := db.portListsTrash.next }) (fun _ _ => rfl)
          (rangesFor_eq_mapIdx db.portListsTrash.next _) (fun _ _ => rfl)
        exact hSound.trash.insertList hSound.belong.trash (Nat.le_refl _) hList hOrdered hApart
    | dropped hTable hUltimate => exact hSound.trash

theorem Restored.sound (h : Restored env resourceId db db') (hSound : RangesSound db) :
    RangesSound db' := by
  refine ⟨h.rangesBelong hSound.belong, ?_, ?_⟩
  · cases h with
    | portList hTrash hRow =>
        obtain ⟨hList, hOrdered, hApart⟩ := hSound.trash.copies db.portLists.next
          (fun _ row => { row with portList := db.portLists.next }) (fun _ _ => rfl)
          (rangesFor_eq_mapIdx db.portLists.next _) (fun _ _ => rfl)
        exact hSound.table.insertList hSound.belong.table (Nat.le_refl _) hList hOrdered hApart
    | role hPortList hTrash hRow => exact hSound.table
    | schedule hPortList hRole hTrash hRow => exact hSound.table
  · cases h with
    | @portList resource row hTrash hRow =>
        exact hSound.trash.delete fun _ row => row.portList = resource
    | role hPortList hTrash hRow => exact hSound.trash
    | schedule hPortList hRole hTrash hRow => exact hSound.trash

end Trash

/-! Creating lists. -/

/-- The database with a new list. -/
def listCreated (row : Resource) (ranges : List PortRange) (db : Database) : Database :=
  { db with
    portLists := db.portLists.insertAll [row]
    portRanges := db.portRanges.insertAll ranges }

theorem map_rangeOfRow_rangeRows (env : Env) (first portList : Nat) (ranges : List Range) :
    (rangeRows env first portList ranges).map rangeOfRow = ranges := by
  exact List.ext_getElem (by simp [rangeRows]) (by simp [rangeRows, rangeOfRow])

theorem portList_of_mem_rangeRows {env : Env} {first portList : Nat} {ranges : List Range}
    {row : PortRange} (h : row ∈ rangeRows env first portList ranges) : row.portList = portList := by
  obtain ⟨i, hi, rfl⟩ := List.mem_mapIdx.mp h
  rfl

/-- Rows with ranges that have no common port. -/
theorem rangeRows_apart (env : Env) (first portList : Nat) {ranges : List Range}
    (h : ranges.Pairwise Range.Apart) : (rangeRows env first portList ranges).Pairwise Apart := by
  rw [← map_rangeOfRow_rangeRows env first portList ranges, List.pairwise_map] at h
  exact List.Pairwise.imp (fun hApart => fun _ => hApart) h

theorem rangeRows_ordered (env : Env) (first portList : Nat) {ranges : List Range}
    (h : ∀ range ∈ ranges, range.start ≤ range.stop) :
    ∀ row ∈ rangeRows env first portList ranges, row.start ≤ row.stop := by
  intro row hRow
  obtain ⟨i, hi, rfl⟩ := List.mem_mapIdx.mp hRow
  exact h _ (List.getElem_mem hi)

/-- The ranges that `create_port_list` is given. -/
def Given (portRanges : Option CString) (ranges : Option (List Range)) (given : List Range) : Prop :=
  match ranges with
  | some ranges => given = ranges
  | none => ∃ text parsed, portRanges = some text ∧ Ports.validatePortRange (some text) = true ∧
      Ports.portRangeRanges text = some parsed ∧ given = parsed.map ofText

section Creating

variable {env : Env} {uuid name : CString} {session after middle : Session Database} {code : Int}

theorem createPortListLock_ok {comment : CString} {ranges : List Range}
    (h : createPortListLock env uuid name comment ranges session = .ok middle) :
    ∃ row, middle.db = listCreated row
      (rangeRows env 1 session.db.portLists.next (rangesSortMerge ranges)) session.db := by
  obtain ⟨portLists, hLists, h⟩ := Except.bind_eq_ok.mp h
  obtain ⟨portRanges, hRanges, h⟩ := Except.bind_eq_ok.mp h
  obtain rfl := Except.ok.inj h
  obtain ⟨rfl, -, -⟩ := insertUnique_ok hLists
  obtain ⟨rfl, -, -⟩ := insertUnique_ok hRanges
  exact ⟨_, rfl⟩

/-- The word default is no valid port range. -/
theorem validatePortRange_default : Ports.validatePortRange (some (lit "default")) = false := by
  decide

theorem importPortList_ok {portListId comment : Option CString} {ranges : List Range}
    (h : importPortList env portListId name comment ranges session = .ok (code, after)) :
    (code ≠ 0 ∧ after.db = session.db) ∨ (code = 0 ∧ ∃ row, after.db = listCreated row
      (rangeRows env 1 session.db.portLists.next (rangesSortMerge ranges)) session.db) := by
  cases portListId with
  | none =>
      obtain ⟨rfl, rfl⟩ := Prod.mk.inj (Except.ok.inj h)
      exact .inl ⟨by decide, rfl⟩
  | some portListId =>
      rw [importPortList] at h
      obtain ⟨-, h⟩ := beginImmediate_ok h
      dsimp only at h
      split at h
      · obtain ⟨rfl, -, hDb⟩ := rollback_ok rfl h
        exact .inl ⟨by decide, hDb⟩
      split at h
      · obtain ⟨rfl, -, hDb⟩ := rollback_ok rfl h
        exact .inl ⟨by decide, hDb⟩
      split at h
      · obtain ⟨rfl, -, hDb⟩ := rollback_ok rfl h
        exact .inl ⟨by decide, hDb⟩
      · obtain ⟨created, hCreated, h⟩ := perform_ok h
        obtain ⟨rfl, -, hDb⟩ := commit_ok h
        rw [hDb]
        obtain ⟨row, hRow⟩ := createPortListLock_ok hCreated
        exact .inr ⟨rfl, row, hRow⟩

theorem describePortList_ok {comment portRanges : Option CString} {defaults : List Range}
    (h : describePortList env name comment portRanges defaults session = .ok (code, after)) :
    (code ≠ 0 ∧ after.db = session.db) ∨ (code = 0 ∧ ∃ row given, Given portRanges none given ∧
      after.db = listCreated row
        (rangeRows env 1 session.db.portLists.next (rangesSortMerge given)) session.db) := by
  rw [describePortList] at h
  split at h
  · obtain ⟨rfl, rfl⟩ := Prod.mk.inj (Except.ok.inj h)
    exact .inl ⟨by decide, rfl⟩
  rename_i hValid
  obtain ⟨-, h⟩ := beginImmediate_ok h
  split at h
  · obtain ⟨rfl, -, hDb⟩ := rollback_ok rfl h
    exact .inl ⟨by decide, hDb⟩
  split at h
  · obtain ⟨rfl, -, hDb⟩ := rollback_ok rfl h
    exact .inl ⟨by decide, hDb⟩
  split at h
  · rename_i hDefault
    rw [hDefault, validatePortRange_default] at hValid
    simp at hValid
  · rename_i hText
    obtain ⟨created, hCreated, h⟩ := perform_ok h
    obtain ⟨rfl, -, hDb⟩ := commit_ok h
    rw [createFromText] at hCreated
    split at hCreated
    · cases hCreated
    · rename_i parsed hParsed
      obtain ⟨row, hRow⟩ := createPortListLock_ok hCreated
      refine .inr ⟨rfl, row, parsed.map ofText, ?_, hDb.trans hRow⟩
      cases portRanges with
      | none => exact absurd rfl hText
      | some text => exact ⟨text, parsed, rfl, by simpa using hValid, hParsed, rfl⟩

theorem createPortList_ok {portListId comment portRanges : Option CString}
    {ranges : Option (List Range)} {defaults : List Range}
    (h : createPortList env portListId name comment portRanges ranges defaults session =
      .ok (code, after)) :
    (code ≠ 0 ∧ after.db = session.db) ∨ (code = 0 ∧ ∃ row given, Given portRanges ranges given ∧
      after.db = listCreated row
        (rangeRows env 1 session.db.portLists.next (rangesSortMerge given)) session.db) := by
  cases ranges with
  | some ranges =>
      rcases importPortList_ok h with hSame | ⟨hCode, row, hDb⟩
      · exact .inl hSame
      · exact .inr ⟨hCode, row, ranges, rfl, hDb⟩
  | none => exact describePortList_ok h

end Creating

/-- The ranges are those of a new list when their ends are behind their starts. -/
theorem listCreated_sound {db : Database} (hSound : RangesSound db) (env : Env) (row : Resource)
    {given : List Range} (hGiven : ∀ range ∈ given, range.start ≤ range.stop) :
    RangesSound (listCreated row (rangeRows env 1 db.portLists.next (rangesSortMerge given)) db) := by
  have hList (range : PortRange)
      (hRange : range ∈ rangeRows env 1 db.portLists.next (rangesSortMerge given)) :
      range.portList = db.portLists.next := portList_of_mem_rangeRows hRange
  refine ⟨⟨hSound.belong.table.insertAll hList row, hSound.belong.trash⟩, ?_, hSound.trash⟩
  exact hSound.table.insertList hSound.belong.table (Nat.le_refl _) hList
    (rangeRows_ordered _ _ _ (rangesSortMerge_ordered given hGiven))
    (rangeRows_apart _ _ _ (rangesSortMerge_apart given))

theorem ordered_of_given {portRanges : Option CString} {given : List Range}
    (h : Given portRanges none given) : ∀ range ∈ given, range.start ≤ range.stop := by
  obtain ⟨text, parsed, -, hValid, hParsed, rfl⟩ := h
  obtain ⟨parsed', hParsed', hOrdered⟩ := Ports.portRangeRanges_valid hValid
  obtain rfl := Option.some.inj (hParsed.symm.trans hParsed')
  intro range hRange
  obtain ⟨read, hRead, rfl⟩ := List.mem_map.mp hRange
  exact hOrdered read hRead

/-! Single ranges. -/

/-- A range that does not meet the others of its list shares no port with them. -/
theorem apart_of_not_meets {env : Env} {portList : Nat} {type : PortProtocol} {first last : Int}
    {row new : PortRange} (hMeets : rangeMeets portList type first last row = false)
    (hNew : new ∈ rangeRows env 0 portList [⟨type, first, last, false⟩]) : Apart row new := by
  obtain ⟨i, hi, rfl⟩ := List.mem_mapIdx.mp hNew
  have hZero : i = 0 := by
    simpa using hi
  subst hZero
  intro hList hType
  have hSame : row.portList = portList := hList
  have hSame' : row.type = type := hType
  simp only [rangeMeets, hSame, hSame', decide_true, Bool.true_and, Bool.or_eq_false_iff,
    Bool.and_eq_false_iff, decide_eq_false_iff_not] at hMeets
  change row.stop < first ∨ last < row.start
  omega

section Single

variable {env : Env} {session after : Session Database} {code : Int} {portListId : CString}
  {type : PortProtocol} {first last : Int}

theorem addPortRange_sound (hOrder : first ≤ last) (hSound : RangesSound session.db)
    (h : addPortRange env portListId type first last session = .ok (code, after)) :
    RangesSound after.db := by
  obtain ⟨-, h⟩ := beginImmediate_ok h
  dsimp only at h
  split at h
  · rw [(rollback_ok rfl h).2.2]
    exact hSound
  split at h
  · rw [(rollback_ok rfl h).2.2]
    exact hSound
  rename_i portList hFind
  split at h
  · rw [(rollback_ok rfl h).2.2]
    exact hSound
  split at h
  · rw [(rollback_ok rfl h).2.2]
    exact hSound
  rename_i hMeets
  obtain ⟨inserted, hInserted, h⟩ := perform_ok h
  obtain ⟨portRanges, hRanges, hInserted⟩ := Except.bind_eq_ok.mp hInserted
  obtain rfl := Except.ok.inj hInserted
  obtain ⟨rfl, -, -⟩ := insertUnique_ok hRanges
  rw [(commit_ok h).2.2]
  obtain ⟨parent, hParent, -⟩ := findResource_some hFind
  refine ⟨⟨fun number row hRow => ?_, hSound.belong.trash⟩, ?_, hSound.trash⟩
  · rcases Table.mem_insertAll.mp hRow with hOld | ⟨i, -, hNew⟩
    · exact hSound.belong.table number row hOld
    · rw [portList_of_mem_rangeRows (List.mem_of_getElem? hNew)]
      exact ⟨parent, hParent⟩
  · refine hSound.table.insertAll (rangeRows_ordered _ _ _ (List.forall_mem_singleton.mpr hOrder))
      (rangeRows_apart _ _ _ (List.pairwise_singleton _ _)) fun number row hRow new hNew => ?_
    refine apart_of_not_meets (Bool.eq_false_of_not_eq_true fun hRowMeets => hMeets ?_) hNew
    exact List.any_eq_true.mpr ⟨(number, row), hRow, hRowMeets⟩

theorem createPortRange_sound {typeText start stop : CString} (hSound : RangesSound session.db)
    (h : createPortRange env portListId typeText start stop session = .ok (code, after)) :
    RangesSound after.db := by
  rw [createPortRange] at h
  split at h
  · obtain ⟨-, rfl⟩ := Prod.mk.inj (Except.ok.inj h)
    exact hSound
  split at h
  · obtain ⟨-, rfl⟩ := Prod.mk.inj (Except.ok.inj h)
    exact hSound
  split at h
  · exact addPortRange_sound min_le_max hSound h
  split at h
  · exact addPortRange_sound min_le_max hSound h
  · obtain ⟨-, rfl⟩ := Prod.mk.inj (Except.ok.inj h)
    exact hSound

theorem deletePortRange_sound {portRangeId : Option CString} (hSound : RangesSound session.db)
    (h : deletePortRange env portRangeId session = .ok (code, after)) : RangesSound after.db := by
  obtain ⟨-, h⟩ := beginImmediate_ok h
  dsimp only at h
  split at h
  · rw [(rollback_ok rfl h).2.2]
    exact hSound
  split at h
  · rw [(rollback_ok rfl h).2.2]
    exact hSound
  rename_i portRange hFind
  split at h
  · obtain ⟨-, rfl⟩ := Prod.mk.inj (Except.ok.inj h)
    exact hSound
  · rw [(commit_ok h).2.2]
    refine ⟨⟨fun number row hRow => ?_, hSound.belong.trash⟩, ?_, hSound.trash⟩
    · exact hSound.belong.table number row (Table.mem_delete.mp hRow).1
    · exact hSound.table.delete fun number _ => number = portRange

end Single

/-! Changing and copying lists. -/

section Lists

variable {env : Env} {session after : Session Database} {code : Int}
  {name comment portListId : Option CString}

theorem modifyPortList_sound (hSound : RangesSound session.db)
    (h : modifyPortList env portListId name comment session = .ok (code, after)) :
    RangesSound after.db := by
  cases portListId with
  | none =>
      obtain ⟨-, rfl⟩ := Prod.mk.inj (Except.ok.inj h)
      exact hSound
  | some portListId =>
      rw [modifyPortList] at h
      obtain ⟨-, h⟩ := beginImmediate_ok h
      dsimp only at h
      split at h
      · rw [(rollback_ok rfl h).2.2]
        exact hSound
      split at h
      · rw [(rollback_ok rfl h).2.2]
        exact hSound
      split at h
      · rw [(rollback_ok rfl h).2.2]
        exact hSound
      · rw [(commit_ok h).2.2]
        refine ⟨⟨fun number row hRow => ?_, hSound.belong.trash⟩, hSound.table, hSound.trash⟩
        obtain ⟨parent, hParent⟩ := hSound.belong.table number row hRow
        exact Table.exists_mem_updateAt hParent

/-- What the copies of a list and its tags leave. -/
theorem copyRows_ok {name comment : Option CString} {portListId : CString} {old : Nat}
    {copied : Copied} (h : copyRows env name comment portListId old session = .ok copied) :
    ∃ rows tags, copied.session.begun = session.begun ∧
      copied.session.db = { session.db with
        portLists := session.db.portLists.insertAll rows
        tags := session.db.tags.insertAll tags } ∧
      rows.length = (session.db.portLists.select (·.uuid = portListId)).length ∧
      copied.new = lastInsertRowid session.db.portLists rows session.lastInsert := by
  obtain ⟨portLists, hLists, h⟩ := Except.bind_eq_ok.mp h
  obtain ⟨tags, hTags, h⟩ := Except.bind_eq_ok.mp h
  obtain rfl := Except.ok.inj h
  obtain ⟨rfl, -, -⟩ := insertUnique_ok hLists
  obtain ⟨rfl, -, -⟩ := insertUnique_ok hTags
  exact ⟨_, _, rfl, rfl, List.length_mapIdx, rfl⟩

theorem copyAll_sound {portListId : CString} {old : Nat}
    (hBegun : session.begun = some session.db) (hSound : RangesSound session.db)
    (hFind : findResource id env session.db.portLists portListId = some old)
    (h : copyAll env name comment portListId old session = .ok (code, after)) :
    RangesSound after.db := by
  rw [copyAll] at h
  split at h
  · cases h
  rename_i copied hCopied
  obtain ⟨rows, tags, hCopiedBegun, hDb, hLength, hNew⟩ := copyRows_ok hCopied
  obtain ⟨row, hRow, hUuid⟩ := findResource_some hFind
  have hSelect : row ∈ session.db.portLists.select (·.uuid = portListId) :=
    Table.mem_select.mpr ⟨⟨old, hRow⟩, decide_eq_true hUuid⟩
  have hSome : 0 < rows.length := by
    rw [hLength]
    exact List.length_pos_of_mem hSelect
  have hNumber : copied.new = session.db.portLists.next + (rows.length - 1) := by
    rw [hNew, lastInsertRowid, if_neg (by simpa using List.ne_nil_of_length_pos hSome)]
    omega
  split at h
  · rw [(rollback_ok (hCopiedBegun.trans hBegun) h).2.2]
    exact hSound
  · obtain ⟨inserted, hInserted, h⟩ := perform_ok h
    obtain ⟨portRanges, hRanges, hInserted⟩ := Except.bind_eq_ok.mp hInserted
    obtain rfl := Except.ok.inj hInserted
    obtain ⟨rfl, -, -⟩ := insertUnique_ok hRanges
    rw [(commit_ok h).2.2, hDb]
    obtain ⟨hList, hOrdered, hApart⟩ := hSound.table.copies copied.new
      (cloneRange env copied.made copied.new) (fun _ _ => rfl) (Eq.refl _) (fun _ _ => rfl)
    refine ⟨⟨fun number range hRange => ?_, hSound.belong.trash⟩, ?_, hSound.trash⟩
    · rcases Table.mem_insertAll.mp hRange with hOld | ⟨i, -, hCopy⟩
      · obtain ⟨parent, hParent⟩ := hSound.belong.table number range hOld
        exact ⟨parent, Table.mem_insertAll.mpr (.inl hParent)⟩
      · rw [hList range (List.mem_of_getElem? hCopy), hNumber]
        exact ⟨rows[rows.length - 1], Table.mem_insertAll.mpr
          (.inr ⟨rows.length - 1, rfl, List.getElem?_eq_getElem _⟩)⟩
    · exact hSound.table.insertList hSound.belong.table (by omega) hList hOrdered hApart

theorem copyPortList_sound (hSound : RangesSound session.db)
    (h : copyPortList env name comment portListId session = .ok (code, after)) :
    RangesSound after.db := by
  obtain ⟨-, h⟩ := beginImmediate_ok h
  dsimp only at h
  split at h
  · rw [(rollback_ok rfl h).2.2]
    exact hSound
  split at h
  · rw [(rollback_ok rfl h).2.2]
    exact hSound
  split at h
  · rw [(rollback_ok rfl h).2.2]
    exact hSound
  rename_i old hFind
  split at h
  · rw [(rollback_ok rfl h).2.2]
    exact hSound
  split at h
  · rw [(rollback_ok rfl h).2.2]
    exact hSound
  · exact copyAll_sound (by exact rfl) (by exact hSound) (by exact hFind) h

end Lists

/-! Sessions. -/

/-- Imported ranges are not excluded and lie between 1 and 65535. -/
def PortListCommand.Valid : PortListCommand → Prop
  | .create _ _ _ _ _ (some ranges) _ => ∀ range ∈ ranges,
      1 ≤ range.start ∧ range.start ≤ range.stop ∧ range.stop ≤ 65535 ∧ range.exclude = false
  | _ => True

theorem run_sound {session after : Session Database} {command : PortListCommand} {code : Int}
    (hValid : command.Valid) (hSound : RangesSound session.db)
    (h : command.run session = .ok (code, after)) : RangesSound after.db := by
  cases command with
  | create env portListId name comment portRanges ranges defaults =>
      rcases createPortList_ok h with ⟨-, hSame⟩ | ⟨-, row, given, hGiven, hDb⟩
      · rwa [hSame]
      · rw [hDb]
        apply listCreated_sound hSound
        cases ranges with
        | none => exact ordered_of_given hGiven
        | some ranges =>
            obtain rfl : given = ranges := hGiven
            exact fun range hRange => (hValid range hRange).2.1
  | createRange env portListId type start stop => exact createPortRange_sound hSound h
  | modify env portListId name comment => exact modifyPortList_sound hSound h
  | copy env name comment portListId => exact copyPortList_sound hSound h
  | delete env portListId ultimate =>
      cases portListId with
      | none =>
          rw [PortListCommand.run, deletePortListWithout] at h
          obtain ⟨-, h⟩ := beginImmediate_ok h
          split at h
          · rw [(rollback_ok rfl h).2.2]
            exact hSound
          · rw [(rollback_ok rfl h).2.2]
            exact hSound
      | some portListId =>
          rcases (deletePortList_ok h).2.1 with hSame | hDeleted
          · rwa [hSame]
          · exact PortListDeleted.sound hDeleted hSound
  | deleteRange env portRangeId => exact deletePortRange_sound hSound h
  | restore env resourceId =>
      obtain ⟨-, hRestored, hSame⟩ := manageRestore_ok h
      by_cases hCode : code = 0
      · exact Restored.sound (hRestored hCode) hSound
      · rwa [hSame hCode]

/-- No two ranges of a list and protocol have a common port. -/
def NoOverlap (table : Table PortRange) : Prop :=
  ∀ number row number' row', (number, row) ∈ table.rows → (number', row') ∈ table.rows →
    number ≠ number' → row.portList = row'.portList → row.type = row'.type →
    ∀ port : Int, ¬ (row.start ≤ port ∧ port ≤ row.stop ∧ row'.start ≤ port ∧ port ≤ row'.stop)

theorem SoundRows.noOverlap {table : Table PortRange} (h : SoundRows table) : NoOverlap table := by
  intro number row number' row' hRow hRow' hNe hList hType port hPort
  have hPairs := List.pairwise_map.mp h.apart
  have : Std.Symm fun one two : Nat × PortRange => Apart one.2 two.2 :=
    ⟨fun _ _ hApart => hApart.symm⟩
  have hApart := hPairs.forall hRow hRow' (fun hEq => hNe (congrArg Prod.fst hEq)) hList hType
  change row.stop < row'.start ∨ row'.stop < row.start at hApart
  omega

/-- The sum of `PORT_LIST_ITERATOR_COLUMNS`. -/
def portTotal (rows : List PortRange) : Int := (rows.map fun row => row.stop - row.start + 1).sum

/-- The ports of ranges. -/
noncomputable def portsOfRows (rows : List PortRange) : Finset (PortProtocol × Int) :=
  rows.foldr (fun row ports => ({row.type} ×ˢ Finset.Icc row.start row.stop) ∪ ports) ∅

theorem mem_portsOfRows (rows : List PortRange) (type : PortProtocol) (port : Int) :
    (type, port) ∈ portsOfRows rows ↔ Covers (rows.map rangeOfRow) type port := by
  induction rows with
  | nil => simp [portsOfRows, Covers]
  | cons row rows ih =>
      rw [List.map_cons, covers_cons, ← ih, portsOfRows, List.foldr_cons, Finset.mem_union,
        Finset.mem_product, Finset.mem_singleton, Finset.mem_Icc]
      refine or_congr_left ?_
      exact and_congr_left fun _ => eq_comm

/-- The sizes of ranges without a common port add up to the number of their ports. -/
theorem portTotal_eq_card {rows : List PortRange} (hOrdered : ∀ row ∈ rows, row.start ≤ row.stop)
    (hApart : rows.Pairwise fun one two => (rangeOfRow one).Apart (rangeOfRow two)) :
    portTotal rows = (portsOfRows rows).card := by
  induction rows with
  | nil => rfl
  | cons row rows ih =>
      obtain ⟨hFirst, hRest⟩ := List.pairwise_cons.mp hApart
      have hDisjoint : Disjoint ({row.type} ×ˢ Finset.Icc row.start row.stop) (portsOfRows rows) := by
        rw [Finset.disjoint_left]
        rintro ⟨type, port⟩ hOne hTwo
        rw [Finset.mem_product, Finset.mem_singleton, Finset.mem_Icc] at hOne
        obtain ⟨range, hRange, hType, hStart, hStop⟩ := (mem_portsOfRows _ _ _).mp hTwo
        obtain ⟨other, hOther, rfl⟩ := List.mem_map.mp hRange
        have hSame : row.type = other.type := hOne.1.symm.trans hType.symm
        have hEnds : row.stop < other.start ∨ other.stop < row.start :=
          hFirst other hOther hSame
        change other.start ≤ port at hStart
        change port ≤ other.stop at hStop
        omega
      have hUnion : portsOfRows (row :: rows) =
          ({row.type} ×ˢ Finset.Icc row.start row.stop) ∪ portsOfRows rows := rfl
      have hSize := hOrdered row List.mem_cons_self
      rw [hUnion, Finset.card_union_of_disjoint hDisjoint, Finset.card_product,
        Finset.card_singleton, Int.card_Icc, portTotal, List.map_cons, List.sum_cons]
      have hTail := ih (fun other hOther => hOrdered other (List.mem_cons_of_mem _ hOther)) hRest
      rw [portTotal] at hTail
      rw [hTail]
      push_cast
      omega

/-- The total that is shown for a list is the number of its ports. -/
theorem SoundRows.portTotal_eq {table : Table PortRange} (h : SoundRows table) (portList : Nat) :
    portTotal (table.select (·.portList = portList)) =
      (portsOfRows (table.select (·.portList = portList))).card := by
  have hSub : (table.select (·.portList = portList)).Sublist (table.rows.map Prod.snd) :=
    List.filter_sublist
  refine portTotal_eq_card (fun row hRow => h.ordered row (hSub.subset hRow)) ?_
  refine (h.apart.sublist hSub).imp_of_mem fun hOne hTwo hApart => ?_
  exact hApart ((Table.parent_of_mem_select hOne).trans (Table.parent_of_mem_select hTwo).symm)

/-- No ranges overlap in the lists and in the trashcan, and the totals are right. -/
def RangesCounted (state : SessionState) : Prop :=
  ∀ session, state = .ok session →
    NoOverlap session.db.portRanges ∧ NoOverlap session.db.portRangesTrash ∧
      ∀ portList, portTotal (session.db.portRanges.select (·.portList = portList)) =
        (portsOfRows (session.db.portRanges.select (·.portList = portList))).card

/-- A new list holds the given ports. -/
def CreatesGiven (state : SessionState) (command : PortListCommand) : Prop :=
  ∀ session after env portListId name comment portRanges ranges defaults, state = .ok session →
    command = .create env portListId name comment portRanges ranges defaults →
    command.run session = .ok (0, after) →
    ∃ given, Given portRanges ranges given ∧
      (∃ row, (session.db.portLists.next, row) ∈ after.db.portLists.rows) ∧
      ∀ type port, (type, port) ∈
        portsOfRows (after.db.portRanges.select (·.portList = session.db.portLists.next)) ↔
          Covers given type port

theorem createsGiven {session : Session Database} (hSound : RangesSound session.db)
    (command : PortListCommand) : CreatesGiven (.ok session) command := by
  intro session' after env portListId name comment portRanges ranges defaults hState hCommand hRun
  obtain rfl := Except.ok.inj hState
  subst hCommand
  rcases createPortList_ok hRun with ⟨hCode, -⟩ | ⟨-, row, given, hGiven, hDb⟩
  · exact absurd rfl hCode
  refine ⟨given, hGiven, ⟨row, ?_⟩, fun type port => ?_⟩
  · rw [hDb]
    exact Table.mem_insertAll_singleton.mpr (.inr ⟨rfl, rfl⟩)
  · have hSelect : after.db.portRanges.select (·.portList = session.db.portLists.next) =
        rangeRows env 1 session.db.portLists.next (rangesSortMerge given) := by
      rw [hDb]
      refine (Table.select_parent_insertAll fun _ hMem => portList_of_mem_rangeRows hMem).trans ?_
      rw [if_pos rfl, hSound.belong.table.select_next, List.nil_append]
    rw [hSelect, mem_portsOfRows, map_rangeOfRow_rangeRows, rangesSortMerge_covers]

/-- The ranges of a list never overlap, and a new list holds exactly the given ports. -/
theorem ranges_never_overlap {start : Session Database} (hStart : RangesSound start.db)
    (commands : List PortListCommand) (hValid : ∀ command ∈ commands, command.Valid) :
    Run.AllStates sessionStep RangesCounted (.ok start) commands ∧
      Run.AllSteps sessionStep CreatesGiven (.ok start) commands := by
  let inv (state : SessionState) : Prop := ∀ session, state = .ok session → RangesSound session.db
  have hStep (state : SessionState) (command : PortListCommand) (hInv : inv state)
      (hCommand : command.Valid) : inv (sessionStep state command) := by
    intro session hSession
    cases state with
    | error reason => cases hSession
    | ok before =>
        simp only [sessionStep] at hSession
        cases hRun : command.run before with
        | error reason =>
            rw [hRun] at hSession
            cases hSession
        | ok result =>
            rw [hRun] at hSession
            obtain rfl := Except.ok.inj hSession
            exact run_sound hCommand (hInv before rfl) hRun
  have hFirst : inv (.ok start) := by
    intro session hSession
    obtain rfl := Except.ok.inj hSession
    exact hStart
  refine ⟨Run.AllStates.of_invariant inv hStep (fun state hInv session hSession => ?_) hFirst commands
    hValid, ?_⟩
  · have hSound := hInv session hSession
    exact ⟨hSound.table.noOverlap, hSound.trash.noOverlap, hSound.table.portTotal_eq⟩
  · refine Run.AllSteps.of_invariant inv hStep (fun state command hInv => ?_) hFirst commands hValid
    cases state with
    | error reason =>
        intro _ _ _ _ _ _ _ _ _ hState
        cases hState
    | ok session => exact createsGiven (hInv session rfl) command

/-- Two imported ranges that overlap, and a range behind them. -/
def importCommands : List PortListCommand :=
  [.create anyone (some (lit "list")) (lit "list") none none
      (some [⟨.tcp, 5, 20, false⟩, ⟨.tcp, 1, 10, false⟩]) [],
    .createRange { anyone with makeUuid := fun _ => lit "r" } (lit "list") (lit "tcp") (lit "30")
      (lit "25")]

theorem ranges_never_overlap_import :
    Run.AllStates sessionStep RangesCounted (.ok ⟨emptyDatabase, none, 0⟩) importCommands ∧
      Run.AllSteps sessionStep CreatesGiven (.ok ⟨emptyDatabase, none, 0⟩) importCommands ∧
      (importCommands.foldl sessionStep (.ok ⟨emptyDatabase, none, 0⟩)).map
        (fun session => session.db.portRanges.rows.map fun row => (row.2.start, row.2.stop)) =
          .ok [(1, 20), (25, 30)] := by
  have hEmpty : RangesSound (Session.mk emptyDatabase none 0).db :=
    ⟨⟨fun _ _ hRow => (nomatch hRow), fun _ _ hRow => (nomatch hRow)⟩,
      ⟨List.forall_mem_nil _, List.Pairwise.nil⟩, List.forall_mem_nil _, List.Pairwise.nil⟩
  have hValid : ∀ command ∈ importCommands, command.Valid := by
    refine List.forall_mem_cons.mpr ⟨?_, List.forall_mem_singleton.mpr trivial⟩
    intro range hRange
    rcases List.mem_cons.mp hRange with rfl | hSecond
    · decide
    · obtain rfl := List.mem_singleton.mp hSecond
      decide
  obtain ⟨hStates, hSteps⟩ := ranges_never_overlap hEmpty importCommands hValid
  exact ⟨hStates, hSteps, by rfl⟩

end PortLists
