import OpenVAS.Trashcan.Roles
import OpenVAS.Trashcan.Trips

/-! Port lists on their way to the trashcan and back, with their ranges. Everything that
refers to a restored list follows it, except that its tags are pointed to the number of
the last insertion, which is the last range of the list. -/
namespace Trashcan

open CString Transaction

/-- Every range belongs to a list, in the tables and in the trashcan. -/
structure RangesBelong (db : Database) : Prop where
  table : Table.Belongs PortRange.portList db.portRanges db.portLists
  trash : Table.Belongs PortRange.portList db.portRangesTrash db.portListsTrash

theorem portList_of_mem_rangesFor {number : Nat} {ranges : List PortRange} {row : PortRange}
    (h : row ∈ rangesFor number ranges) : row.portList = number := by
  obtain ⟨old, -, rfl⟩ := List.mem_map.mp h
  rfl

theorem rangesFor_rangesFor (one two : Nat) (ranges : List PortRange) :
    rangesFor two (rangesFor one ranges) = rangesFor two ranges := by
  rw [rangesFor, rangesFor, List.map_map]
  rfl

section Belonging

variable {env : Env} {otherId : CString} {ultimate : Bool} {db db' : Database}

/-- Deleting a port list keeps the ranges with their lists. -/
theorem PortListDeleted.rangesBelong (h : PortListDeleted env otherId ultimate db db')
    (hBelong : RangesBelong db) : RangesBelong db' := by
  cases h with
  | purged hTrash hUltimate => exact ⟨hBelong.table, hBelong.trash.delete _⟩
  | moved hTable hRow hUltimate hFresh =>
      exact ⟨hBelong.table.delete _,
        hBelong.trash.insertAll (fun _ hMem => portList_of_mem_rangesFor hMem) _⟩
  | dropped hTable hUltimate => exact ⟨hBelong.table.delete _, hBelong.trash⟩

theorem ScheduleDeleted.rangesBelong (h : ScheduleDeleted env otherId ultimate db db')
    (hBelong : RangesBelong db) : RangesBelong db' := by
  cases h with
  | purged hTrash hUltimate => exact ⟨hBelong.table, hBelong.trash⟩
  | moved hTable hRow hUltimate => exact ⟨hBelong.table, hBelong.trash⟩
  | dropped hTable hUltimate => exact ⟨hBelong.table, hBelong.trash⟩

/-- So does restoring. -/
theorem Restored.rangesBelong (h : Restored env otherId db db') (hBelong : RangesBelong db) :
    RangesBelong db' := by
  cases h with
  | portList hTrash hRow =>
      exact ⟨hBelong.table.insertAll (fun _ hMem => portList_of_mem_rangesFor hMem) _,
        hBelong.trash.delete _⟩
  | role hPortList hTrash hRow => exact ⟨hBelong.table, hBelong.trash⟩
  | schedule hPortList hRole hTrash hRow => exact ⟨hBelong.table, hBelong.trash⟩

end Belonging

section Staying

variable {env : Env} {otherId : CString} {ultimate : Bool} {number : Nat} {row : Resource}
  {db db' : Database}

/-- A port list in the trashcan and what refers to it, before and after other commands. -/
structure PortListStays (number : Nat) (row : Resource) (before after : Database) : Prop where
  row : (number, row) ∈ after.portListsTrash.rows
  ranges : after.portRangesTrash.select (·.portList = number) =
    before.portRangesTrash.select (·.portList = number)
  referring : Stays .portList number before after
  targets : targetReference.Follows before.targetsTrash after.targetsTrash number .trash number
    .trash

theorem PortListStays.refl (hRow : (number, row) ∈ db.portListsTrash.rows) :
    PortListStays number row db db :=
  ⟨hRow, rfl, .refl _ _ _, .refl _ _ _⟩

/-- Deleting another port list leaves one in the trashcan as it is. -/
theorem PortListDeleted.portListStays (h : PortListDeleted env otherId ultimate db db')
    (hRow : (number, row) ∈ db.portListsTrash.rows) (hId : otherId ≠ row.uuid) :
    PortListStays number row db db' := by
  have hOther (portList : Nat) (hFind : findResource id env db.portListsTrash otherId =
      some portList) : number ≠ portList := ne_of_findResource hRow rfl hId hFind
  have hReferring : Stays .portList number db db' := h.stays fun _ => hOther
  cases h with
  | @purged portList hTrash hUltimate =>
      refine ⟨Table.mem_delete.mpr ⟨hRow, decide_eq_false (hOther portList hTrash)⟩, ?_, hReferring,
        .refl _ _ _⟩
      exact Table.select_parent_delete (hOther portList hTrash)
  | @moved portList moved hTable hMoved hUltimate hFresh =>
      refine ⟨Table.mem_insertAll_singleton.mpr (.inl hRow), ?_, hReferring, ?_⟩
      · refine (Table.select_parent_insertAll fun _ hMem => portList_of_mem_rangesFor hMem).trans ?_
        rw [if_neg (Nat.ne_of_gt (Table.lt_next hRow)), List.append_nil]
      · exact targets_left portList db.portListsTrash.next number .trash .trash db.targetsTrash
          (fun hPlace => nomatch hPlace)
  | dropped hTable hUltimate => exact ⟨hRow, rfl, hReferring, .refl _ _ _⟩

/-- So does deleting a schedule. -/
theorem ScheduleDeleted.portListStays (h : ScheduleDeleted env otherId ultimate db db')
    (hRow : (number, row) ∈ db.portListsTrash.rows) : PortListStays number row db db' := by
  have hReferring : Stays .portList number db db' := h.stays nofun
  cases h with
  | purged hTrash hUltimate => exact ⟨hRow, rfl, hReferring, .refl _ _ _⟩
  | moved hTable hMoved hUltimate => exact ⟨hRow, rfl, hReferring, .refl _ _ _⟩
  | dropped hTable hUltimate => exact ⟨hRow, rfl, hReferring, .refl _ _ _⟩

/-- And restoring something else. -/
theorem Restored.portListStays (h : Restored env otherId db db')
    (hRow : (number, row) ∈ db.portListsTrash.rows) (hId : otherId ≠ row.uuid) :
    PortListStays number row db db' := by
  have hOther (portList : Nat) (hFind : findResource id env db.portListsTrash otherId =
      some portList) : number ≠ portList := ne_of_findResource hRow rfl hId hFind
  have hReferring : Stays .portList number db db' := h.stays nofun (fun _ => hOther) nofun
  cases h with
  | @portList resource found hTrash hFound =>
      refine ⟨Table.mem_delete.mpr ⟨hRow, decide_eq_false (hOther resource hTrash)⟩, ?_, hReferring,
        ?_⟩
      · exact Table.select_parent_delete (hOther resource hTrash)
      · exact targets_left resource db.portLists.next number .table .trash db.targetsTrash
          (fun _ => hOther resource hTrash)
  | role hPortList hTrash hFound => exact ⟨hRow, rfl, hReferring, .refl _ _ _⟩
  | schedule hPortList hRole hTrash hFound => exact ⟨hRow, rfl, hReferring, .refl _ _ _⟩

/-- A command about something else leaves a port list in the trashcan as it is. -/
theorem portListStays_step {session next : Session Database} {command : TrashCommand} {code : Int}
    (hRun : command.run session = .ok (code, next)) (hBelong : RangesBelong session.db)
    (hRow : (number, row) ∈ session.db.portListsTrash.rows) (hId : command.id ≠ row.uuid) :
    PortListStays number row session.db next.db ∧ RangesBelong next.db := by
  cases command with
  | deletePortList env portListId ultimate =>
      rcases (deletePortList_ok hRun).2.1 with hSame | hDeleted
      · rw [hSame]
        exact ⟨.refl hRow, hBelong⟩
      · exact ⟨hDeleted.portListStays hRow hId, hDeleted.rangesBelong hBelong⟩
  | deleteSchedule env scheduleId ultimate =>
      rcases (deleteSchedule_ok hRun).2.1 with hSame | hDeleted
      · rw [hSame]
        exact ⟨.refl hRow, hBelong⟩
      · exact ⟨hDeleted.portListStays hRow, hDeleted.rangesBelong hBelong⟩
  | restore env resourceId =>
      obtain ⟨-, hRestored, hSame⟩ := manageRestore_ok hRun
      by_cases hCode : code = 0
      · exact ⟨(hRestored hCode).portListStays hRow hId, (hRestored hCode).rangesBelong hBelong⟩
      · rw [hSame hCode]
        exact ⟨.refl hRow, hBelong⟩

/-- A port list stays in the trashcan while other resources are moved. -/
theorem portListStays_run {session last : Session Database} {commands : List TrashCommand}
    (hRun : TrashRun session commands last) (hBelong : RangesBelong session.db)
    (hRow : (number, row) ∈ session.db.portListsTrash.rows)
    (hId : ∀ command ∈ commands, command.id ≠ row.uuid) :
    PortListStays number row session.db last.db ∧ RangesBelong last.db := by
  induction hRun with
  | nil session => exact ⟨.refl hRow, hBelong⟩
  | cons hRun rest ih =>
      obtain ⟨hStep, hBelong'⟩ := portListStays_step hRun hBelong hRow (hId _ List.mem_cons_self)
      obtain ⟨hRest, hLast⟩ := ih hBelong' hStep.row fun command hMem =>
        hId command (List.mem_cons_of_mem _ hMem)
      exact ⟨⟨hRest.row, hRest.ranges.trans hStep.ranges, hStep.referring.trans hRest.referring,
        hStep.targets.trans hRest.targets⟩, hLast⟩

end Staying

/-- What refers to a port list apart from its tags, before and after it is moved. -/
structure PortListMoves (before after : Database) (number : Nat) (location : Location)
    (number' : Nat) (location' : Location) : Prop where
  permissions : PermissionsFollow .portList before after number location number' location'
  targets : targetReference.Follows before.targetsTrash after.targetsTrash number location number'
    location'

theorem PortListMoves.trans {before middle after : Database} {number number' number'' : Nat}
    {location location' location'' : Location}
    (h : PortListMoves before middle number location number' location')
    (h' : PortListMoves middle after number' location' number'' location'') :
    PortListMoves before after number location number'' location'' :=
  ⟨h.permissions.trans h'.permissions, h.targets.trans h'.targets⟩

/-- A port list goes to the trashcan and back. -/
structure PortListTrip extends Trip where
  belong : RangesBelong start.db
  found : findResourceWithPermission id env start.db .portList start.db.portLists resourceId
    (lit "delete_port_list") = some number
  deletes : deletePortList env resourceId false start = .ok (0, trashed)
  brought : findResource id env' later.db.portListsTrash resourceId =
    some start.db.portListsTrash.next

namespace PortListTrip

/-- What a port list has again when it is restored. -/
structure Kept (trip : PortListTrip) (number : Nat) : Prop where
  row : ∀ row, (trip.number, row) ∈ trip.start.db.portLists.rows →
    (number, row) ∈ trip.restored.db.portLists.rows
  ranges : trip.restored.db.portRanges.select (·.portList = number) =
    rangesFor number (trip.start.db.portRanges.select (·.portList = trip.number))
  tags : TagsFollow .portList trip.start.db trip.restored.db trip.number .table number .table
  moves : PortListMoves trip.start.db trip.restored.db trip.number .table number .table

/-- The port list has a tag before it is moved to the trashcan. -/
def Tagged (trip : PortListTrip) : Prop :=
  ∃ n row, ((n, row) ∈ trip.start.db.tags.rows ∨ (n, row) ∈ trip.start.db.tagsTrash.rows) ∧
    (tagReference .portList).refers trip.number .table row

/-- The last range of the list gets the number of the list when the list is restored, or
the list has no ranges. -/
def EndsAtList (trip : PortListTrip) : Prop :=
  trip.start.db.portRanges.select (·.portList = trip.number) = [] ∨
    trip.later.db.portRanges.next +
      (trip.start.db.portRanges.select (·.portList = trip.number)).length =
        trip.later.db.portLists.next + 1

variable (trip : PortListTrip) {row : Resource}

/-- The database once the list is in the trashcan. -/
theorem trashed_db (hRow : (trip.number, row) ∈ trip.start.db.portLists.rows) :
    trip.trashed.db = removePortList trip.number (portListInTrash trip.number
      trip.start.db.portListsTrash.next row trip.start.db) := by
  have hDeleted := (deletePortList_ok trip.deletes).2.2.2 trip.number trip.found rfl
  generalize trip.trashed.db = db' at hDeleted
  cases hDeleted with
  | purged hTrash hUltimate => cases hUltimate
  | dropped hTable hUltimate => cases hUltimate
  | moved hTable hMoved hUltimate hFresh =>
      obtain rfl := Option.some.inj (hTable.symm.trans trip.found)
      rw [Table.row_eq hMoved hRow]

/-- The database once the list is back. -/
theorem restored_db (hRow : (trip.start.db.portListsTrash.next, row) ∈
    trip.later.db.portListsTrash.rows) :
    trip.restored.db = removeTrashPortList trip.start.db.portListsTrash.next
      (portListInTable trip.start.db.portListsTrash.next trip.later.db.portLists.next
        (lastRestored trip.start.db.portListsTrash.next trip.later.db) row trip.later.db) := by
  have hRestored := (manageRestore_ok trip.restores).2.1 rfl
  generalize trip.restored.db = db' at hRestored
  cases hRestored with
  | portList hTrash hFound =>
      obtain rfl := Option.some.inj (hTrash.symm.trans trip.brought)
      rw [Table.row_eq hFound hRow]
  | role hNone hTrash hFound => exact nomatch hNone.symm.trans trip.brought
  | schedule hNone hNone' hTrash hFound => exact nomatch hNone.symm.trans trip.brought

/-- The list is in the trashcan when it is restored, as it was moved there. -/
theorem stays : ∃ row, (trip.number, row) ∈ trip.start.db.portLists.rows ∧
    PortListStays trip.start.db.portListsTrash.next row trip.trashed.db trip.later.db ∧
    RangesBelong trip.later.db := by
  obtain ⟨row, hRow, hUuid⟩ := findResourceWithPermission_some trip.found
  have hDeleted := (deletePortList_ok trip.deletes).2.2.2 trip.number trip.found rfl
  have hIn : (trip.start.db.portListsTrash.next, row) ∈ trip.trashed.db.portListsTrash.rows := by
    rw [trip.trashed_db hRow]
    exact Table.mem_insertAll_singleton.mpr (.inr ⟨rfl, rfl⟩)
  refine ⟨row, hRow, portListStays_run trip.between (hDeleted.rangesBelong trip.belong) hIn ?_⟩
  intro command hMem
  rw [show row.uuid = trip.resourceId from hUuid]
  exact trip.others command hMem

/-- The ranges of the list, before it is restored. -/
theorem later_ranges : trip.later.db.portRangesTrash.select
    (·.portList = trip.start.db.portListsTrash.next) =
      rangesFor trip.start.db.portListsTrash.next
        (trip.start.db.portRanges.select (·.portList = trip.number)) := by
  obtain ⟨row, hRow, hStays, -⟩ := trip.stays
  rw [hStays.ranges, trip.trashed_db hRow]
  refine (Table.select_parent_insertAll fun _ hMem => portList_of_mem_rangesFor hMem).trans ?_
  rw [if_pos rfl, trip.belong.trash.select_next, List.nil_append]

/-- The ranges of the list are those that it had. -/
theorem restored_ranges : trip.restored.db.portRanges.select
    (·.portList = trip.later.db.portLists.next) =
      rangesFor trip.later.db.portLists.next
        (trip.start.db.portRanges.select (·.portList = trip.number)) := by
  obtain ⟨row, hRow, hStays, hBelong⟩ := trip.stays
  rw [trip.restored_db hStays.row]
  refine (Table.select_parent_insertAll fun _ hMem => portList_of_mem_rangesFor hMem).trans ?_
  rw [if_pos rfl, hBelong.table.select_next, List.nil_append, trip.later_ranges,
    rangesFor_rangesFor]

/-- The tags of the list refer to the number of the last insertion. -/
theorem tags : TagsFollow .portList trip.start.db trip.restored.db trip.number .table
    (lastRestored trip.start.db.portListsTrash.next trip.later.db) .table := by
  obtain ⟨row, hRow, hStays, -⟩ := trip.stays
  have hThere : TagsFollow .portList trip.start.db trip.trashed.db trip.number .table
      trip.start.db.portListsTrash.next .trash := by
    have hMoved := tags_moved .portList trip.number trip.start.db.portListsTrash.next .trash
      trip.start.db
    rw [trip.trashed_db hRow]
    exact ⟨hMoved.table, hMoved.trash⟩
  have hBack : TagsFollow .portList trip.later.db trip.restored.db
      trip.start.db.portListsTrash.next .trash
      (lastRestored trip.start.db.portListsTrash.next trip.later.db) .table := by
    have hMoved := tags_moved .portList trip.start.db.portListsTrash.next
      (lastRestored trip.start.db.portListsTrash.next trip.later.db) .table trip.later.db
    rw [trip.restored_db hStays.row]
    exact ⟨hMoved.table, hMoved.trash⟩
  exact (hThere.trans hStays.referring.tags).trans hBack

/-- The permissions and targets of the list follow it. -/
theorem moves : PortListMoves trip.start.db trip.restored.db trip.number .table
    trip.later.db.portLists.next .table := by
  obtain ⟨row, hRow, hStays, -⟩ := trip.stays
  have hThere : PortListMoves trip.start.db trip.trashed.db trip.number .table
      trip.start.db.portListsTrash.next .trash := by
    have hMoved := permissions_moved .portList trip.number trip.start.db.portListsTrash.next .trash
      trip.start.db
    rw [trip.trashed_db hRow]
    exact ⟨⟨hMoved.table, hMoved.trash⟩, targets_moved _ _ _ _⟩
  have hBack : PortListMoves trip.later.db trip.restored.db trip.start.db.portListsTrash.next
      .trash trip.later.db.portLists.next .table := by
    have hMoved := permissions_moved .portList trip.start.db.portListsTrash.next
      trip.later.db.portLists.next .table trip.later.db
    rw [trip.restored_db hStays.row]
    exact ⟨⟨hMoved.table, hMoved.trash⟩, targets_moved _ _ _ _⟩
  exact (hThere.trans ⟨hStays.referring.permissions, hStays.targets⟩).trans hBack

theorem endsAtList_iff : trip.EndsAtList ↔
    lastRestored trip.start.db.portListsTrash.next trip.later.db = trip.later.db.portLists.next := by
  rw [lastRestored, trip.later_ranges, rangesFor, lastInsertRowid_map, lastInsertRowid, EndsAtList]
  have hPositive : 0 < trip.later.db.portRanges.next := Nat.succ_pos _
  cases hRanges : trip.start.db.portRanges.select (·.portList = trip.number) with
  | nil => simp
  | cons first ranges =>
      rw [if_neg (by simp)]
      simp only [reduceCtorEq, false_or]
      omega

/-- Without tags there is nothing to follow. -/
theorem tagsFollow_of_not_tagged (hTags : ¬ trip.Tagged) (number : Nat) :
    TagsFollow .portList trip.start.db trip.restored.db trip.number .table number .table :=
  ⟨fun n row hRow hRefers => absurd ⟨n, row, .inl hRow, hRefers⟩ hTags,
    fun n row hRow hRefers => absurd ⟨n, row, .inr hRow, hRefers⟩ hTags⟩

/-- A tag refers to one number. -/
theorem eq_of_tags {number number' : Nat} (hTags : trip.Tagged)
    (h : TagsFollow .portList trip.start.db trip.restored.db trip.number .table number .table)
    (h' : TagsFollow .portList trip.start.db trip.restored.db trip.number .table number' .table) :
    number = number' := by
  obtain ⟨n, row, hRow | hRow, hRefers⟩ := hTags
  · obtain ⟨found, hFound, hNumber, -⟩ := h.table n row hRow hRefers
    have hNumber' := h'.table.refers hRow hRefers hFound
    exact Int.ofNat.inj (hNumber.2.1.symm.trans hNumber'.2.1)
  · obtain ⟨found, hFound, hNumber, -⟩ := h.trash n row hRow hRefers
    have hNumber' := h'.trash.refers hRow hRefers hFound
    exact Int.ofNat.inj (hNumber.2.1.symm.trans hNumber'.2.1)

/-- The list is kept exactly if no tag is led astray. -/
theorem kept_iff : trip.Kept trip.later.db.portLists.next ↔ ¬ trip.Tagged ∨ trip.EndsAtList := by
  rw [endsAtList_iff]
  constructor
  · intro hKept
    by_cases hTags : trip.Tagged
    · exact .inr (trip.eq_of_tags hTags trip.tags hKept.tags)
    · exact .inl hTags
  · intro h
    obtain ⟨row, hRow, hStays, -⟩ := trip.stays
    refine ⟨fun other hOther => ?_, trip.restored_ranges, ?_, trip.moves⟩
    · rw [Table.row_eq hOther hRow, trip.restored_db hStays.row]
      exact Table.mem_insertAll_singleton.mpr (.inr ⟨rfl, rfl⟩)
    · rcases h with hTags | hLast
      · exact trip.tagsFollow_of_not_tagged hTags _
      · rw [← hLast]
        exact trip.tags

end PortListTrip

/-- Schedules are restored as they were. Port lists are when they have no tag, or when
the last of their ranges gets the number of the list. -/
theorem restored_as_before (trip : PortListTrip) :
    (∀ trip : ScheduleTrip, trip.Kept trip.later.db.schedules.next) ∧
      (trip.Kept trip.later.db.portLists.next ↔ ¬ trip.Tagged ∨ trip.EndsAtList) :=
  ⟨fun trip => trip.kept, trip.kept_iff⟩

def rangeOf (portList : Nat) (start stop : Int) (uuid : CString) : PortRange :=
  ⟨uuid, portList, .tcp, start, stop, [], false⟩

def portListTag (portList : Nat) : Tag :=
  ⟨lit "t", none, lit "t", [], 0, 0, .portList, portList, lit "first", .table, true, []⟩

/-- A database with one port list and a tag of it. -/
def taggedList (ranges : Table PortRange) : Database :=
  { emptyDatabase with
    portLists := Table.empty.insert (roleNamed (lit "first"))
    portRanges := ranges
    tags := ⟨[(1, portListTag 1)], by decide⟩ }

def oneRange : Table PortRange := ⟨[(1, rangeOf 1 1 10 (lit "a"))], by decide⟩

def twoRanges : Table PortRange :=
  ⟨[(1, rangeOf 1 1 10 (lit "a")), (2, rangeOf 1 20 30 (lit "b"))], by decide⟩

/-- The list is moved to the trashcan and restored at once. -/
def tripOfOneRange : PortListTrip where
  start := ⟨taggedList oneRange, none, 0⟩
  trashed := afterwards (deletePortList anyone (lit "first") false) ⟨taggedList oneRange, none, 0⟩
  later := afterwards (deletePortList anyone (lit "first") false) ⟨taggedList oneRange, none, 0⟩
  restored := afterwards (manageRestore anyone (lit "first"))
    (afterwards (deletePortList anyone (lit "first") false) ⟨taggedList oneRange, none, 0⟩)
  env := anyone
  env' := anyone
  resourceId := lit "first"
  number := 1
  commands := []
  between := .nil _
  others := List.forall_mem_nil _
  restores := rfl
  belong := ⟨fun number row hRow => by
    obtain ⟨-, rfl⟩ := Prod.mk.inj (List.mem_singleton.mp hRow)
    exact ⟨_, List.mem_singleton_self _⟩, fun _ _ hRow => nomatch hRow⟩
  found := by decide
  deletes := rfl
  brought := by decide

def daily : Schedule := ⟨roleNamed (lit "daily"), 0, 86400, 0, 3600, lit "UTC", 0⟩

/-- The port list beside a schedule, which a task in the trashcan still names. -/
def scheduledTask : Database :=
  { taggedList oneRange with
    schedules := ⟨[(1, daily)], by decide⟩
    tasks := ⟨[(1, ⟨none, 2, 1, .table⟩)], by decide⟩ }

/-- The schedule is moved to the trashcan, then the port list is, and the schedule is
restored. -/
def tripOfSchedule : ScheduleTrip where
  start := ⟨scheduledTask, none, 0⟩
  trashed := afterwards (deleteSchedule anyone (lit "daily") false) ⟨scheduledTask, none, 0⟩
  later := afterwards (deletePortList anyone (lit "first") false)
    (afterwards (deleteSchedule anyone (lit "daily") false) ⟨scheduledTask, none, 0⟩)
  restored := afterwards (manageRestore anyone (lit "daily"))
    (afterwards (deletePortList anyone (lit "first") false)
      (afterwards (deleteSchedule anyone (lit "daily") false) ⟨scheduledTask, none, 0⟩))
  env := anyone
  env' := anyone
  resourceId := lit "daily"
  number := 1
  commands := [.deletePortList anyone (lit "first") false]
  between := .cons rfl (.nil _)
  others := List.forall_mem_singleton.mpr (by decide)
  restores := rfl
  found := by decide
  deletes := rfl
  portLists := by decide
  roles := by decide
  brought := by decide

theorem restored_as_before_oneRange :
    (tripOfSchedule.Kept tripOfSchedule.later.db.schedules.next ∧
      ∃ row, (1, row) ∈ tripOfSchedule.restored.db.tasks.rows ∧
        row.schedule = 1 ∧ row.scheduleLocation = .table) ∧
    tripOfOneRange.Tagged ∧ tripOfOneRange.Kept tripOfOneRange.later.db.portLists.next :=
  ⟨⟨(restored_as_before tripOfOneRange).1 tripOfSchedule, _, List.mem_singleton_self _, rfl, rfl⟩,
    ⟨1, portListTag 1, .inl (List.mem_singleton_self _), rfl, rfl, rfl⟩,
    (restored_as_before tripOfOneRange).2.mpr (.inr (.inr rfl))⟩

/-- The same for a list with two ranges. -/
def tripOfTwoRanges : PortListTrip where
  start := ⟨taggedList twoRanges, none, 0⟩
  trashed := afterwards (deletePortList anyone (lit "first") false) ⟨taggedList twoRanges, none, 0⟩
  later := afterwards (deletePortList anyone (lit "first") false) ⟨taggedList twoRanges, none, 0⟩
  restored := afterwards (manageRestore anyone (lit "first"))
    (afterwards (deletePortList anyone (lit "first") false) ⟨taggedList twoRanges, none, 0⟩)
  env := anyone
  env' := anyone
  resourceId := lit "first"
  number := 1
  commands := []
  between := .nil _
  others := List.forall_mem_nil _
  restores := rfl
  belong := ⟨fun number row hRow => by
    rcases List.mem_cons.mp hRow with hFirst | hRest
    · obtain ⟨-, rfl⟩ := Prod.mk.inj hFirst
      exact ⟨_, List.mem_singleton_self _⟩
    · obtain ⟨-, rfl⟩ := Prod.mk.inj (List.mem_singleton.mp hRest)
      exact ⟨_, List.mem_singleton_self _⟩, fun _ _ hRow => nomatch hRow⟩
  found := by decide
  deletes := rfl
  brought := by decide

/-- The tag of a list with two ranges refers to the number of the second range. -/
theorem portList_restored_without_tag : ∃ trip : PortListTrip,
    trip.start = ⟨taggedList twoRanges, none, 0⟩ ∧ trip.commands = [] ∧
      trip.later.db.portLists.next = 1 ∧
      trip.restored.db.portLists.rows = trip.start.db.portLists.rows ∧
      trip.start.db.tags.rows = [(1, portListTag 1)] ∧
      trip.restored.db.tags.rows = [(1, portListTag 2)] ∧
      ¬ trip.Kept trip.later.db.portLists.next := by
  have hNext : tripOfTwoRanges.later.db.portLists.next = 1 := by decide +kernel
  have hLists : tripOfTwoRanges.restored.db.portLists.rows =
      tripOfTwoRanges.start.db.portLists.rows := by decide +kernel
  have hRestored : tripOfTwoRanges.restored.db.tags.rows = [(1, portListTag 2)] := by
    decide +kernel
  refine ⟨tripOfTwoRanges, rfl, rfl, hNext, hLists, rfl, hRestored, fun hKept => ?_⟩
  obtain ⟨row, hRow, hRefers, -⟩ := hKept.tags.table 1 (portListTag 1) (List.mem_singleton_self _)
    ⟨rfl, rfl, rfl⟩
  rw [hRestored] at hRow
  obtain ⟨-, rfl⟩ := Prod.mk.inj (List.mem_singleton.mp hRow)
  have hNumber : (2 : Int) = 1 := hRefers.2.1
  cases hNumber

end Trashcan
