import OpenVAS.Trashcan.Referring

/-! Port lists and schedules on their way to the trashcan and back, with other commands
in between. -/
namespace Trashcan

open CString Transaction

/-- The commands on port lists and schedules in the trashcan. -/
inductive TrashCommand where
  | deletePortList (env : Env) (portListId : CString) (ultimate : Bool)
  | deleteSchedule (env : Env) (scheduleId : CString) (ultimate : Bool)
  | restore (env : Env) (resourceId : CString)

def TrashCommand.run : TrashCommand → Command Database
  | .deletePortList env portListId ultimate => Trashcan.deletePortList env portListId ultimate
  | .deleteSchedule env scheduleId ultimate => Trashcan.deleteSchedule env scheduleId ultimate
  | .restore env resourceId => manageRestore env resourceId

/-- The UUID that the command is about. -/
def TrashCommand.id : TrashCommand → CString
  | .deletePortList _ portListId _ => portListId
  | .deleteSchedule _ scheduleId _ => scheduleId
  | .restore _ resourceId => resourceId

/-- Commands one after the other. -/
inductive TrashRun : Session Database → List TrashCommand → Session Database → Prop
  | nil (session : Session Database) : TrashRun session [] session
  | cons {session next last : Session Database} {command : TrashCommand} {code : Int}
      {commands : List TrashCommand} (hRun : command.run session = .ok (code, next))
      (rest : TrashRun next commands last) : TrashRun session (command :: commands) last

/-! What refers to a resource in the trashcan stays as it is when other resources are
moved. -/

/-- What refers to a resource in the trashcan does so later. -/
structure Stays (type : ResourceType) (number : Nat) (before after : Database) : Prop where
  tags : TagsFollow type before after number .trash number .trash
  permissions : PermissionsFollow type before after number .trash number .trash

theorem Stays.refl (type : ResourceType) (number : Nat) (db : Database) : Stays type number db db :=
  ⟨.refl db, .refl db⟩

theorem Stays.trans {type : ResourceType} {number : Nat} {before middle after : Database}
    (h : Stays type number before middle) (h' : Stays type number middle after) :
    Stays type number before after :=
  ⟨h.tags.trans h'.tags, h.permissions.trans h'.permissions⟩

section Staying

variable {type : ResourceType} {env : Env} {otherId : CString} {ultimate : Bool} {number : Nat}
  {db db' : Database}

theorem PortListDeleted.stays (h : PortListDeleted env otherId ultimate db db')
    (hOther : type = .portList → ∀ portList,
      findResource id env db.portListsTrash otherId = some portList → number ≠ portList) :
    Stays type number db db' := by
  cases h with
  | @purged portList hTrash hUltimate =>
      have hNe (hType : type = .portList) (_ : Location.trash = .trash) : number ≠ portList :=
        hOther hType portList hTrash
      have hTags := tags_orphans type .portList portList number .trash .trash db hNe
      have hPermissions := permissions_orphans type .portList portList number .trash .trash db hNe
      exact ⟨⟨hTags.table, hTags.trash⟩, hPermissions.table, hPermissions.trash⟩
  | @moved portList row hTable hRow hUltimate hFresh =>
      have hTags := tags_left type .portList portList db.portListsTrash.next number .trash .trash db
        (fun _ hPlace => nomatch hPlace)
      have hPermissions := permissions_left type .portList portList db.portListsTrash.next number
        .trash .trash db (fun _ hPlace => nomatch hPlace)
      exact ⟨⟨hTags.table, hTags.trash⟩, hPermissions.table, hPermissions.trash⟩
  | @dropped portList hTable hUltimate =>
      have hTags := tags_orphans type .portList portList number .table .trash db
        (fun _ hPlace => nomatch hPlace)
      have hPermissions := permissions_orphans type .portList portList number .table .trash db
        (fun _ hPlace => nomatch hPlace)
      exact ⟨⟨hTags.table, hTags.trash⟩, hPermissions.table, hPermissions.trash⟩

theorem ScheduleDeleted.stays (h : ScheduleDeleted env otherId ultimate db db')
    (hOther : type = .schedule → ∀ schedule,
      findResource Schedule.toResource env db.schedulesTrash otherId = some schedule →
        number ≠ schedule) :
    Stays type number db db' := by
  cases h with
  | @purged schedule hTrash hUltimate =>
      have hNe (hType : type = .schedule) (_ : Location.trash = .trash) : number ≠ schedule :=
        hOther hType schedule hTrash
      have hTags := tags_orphans type .schedule schedule number .trash .trash db hNe
      have hPermissions := permissions_orphans type .schedule schedule number .trash .trash db hNe
      exact ⟨⟨hTags.table, hTags.trash⟩, hPermissions.table, hPermissions.trash⟩
  | @moved schedule row hTable hRow hUltimate =>
      have hTags := tags_left type .schedule schedule db.schedulesTrash.next number .trash .trash db
        (fun _ hPlace => nomatch hPlace)
      have hPermissions := permissions_left type .schedule schedule db.schedulesTrash.next number
        .trash .trash db (fun _ hPlace => nomatch hPlace)
      exact ⟨⟨hTags.table, hTags.trash⟩, hPermissions.table, hPermissions.trash⟩
  | @dropped schedule hTable hUltimate =>
      have hTags := tags_orphans type .schedule schedule number .table .trash db
        (fun _ hPlace => nomatch hPlace)
      have hPermissions := permissions_orphans type .schedule schedule number .table .trash db
        (fun _ hPlace => nomatch hPlace)
      exact ⟨⟨hTags.table, hTags.trash⟩, hPermissions.table, hPermissions.trash⟩

/-- Restoring another resource leaves what refers to one in the trashcan. -/
theorem Restored.stays (h : Restored env otherId db db') (hRole : type ≠ .role)
    (hPortLists : type = .portList → ∀ portList,
      findResource id env db.portListsTrash otherId = some portList → number ≠ portList)
    (hSchedules : type = .schedule → ∀ schedule,
      findResource Schedule.toResource env db.schedulesTrash otherId = some schedule →
        number ≠ schedule) :
    Stays type number db db' := by
  cases h with
  | @portList resource row hTrash hRow =>
      have hNe (hType : type = .portList) (_ : Location.trash = .trash) : number ≠ resource :=
        hPortLists hType resource hTrash
      have hTags := tags_left type .portList resource (lastRestored resource db) number .table .trash
        db hNe
      have hPermissions := permissions_left type .portList resource db.portLists.next number .table
        .trash db hNe
      exact ⟨⟨hTags.table, hTags.trash⟩, hPermissions.table, hPermissions.trash⟩
  | @role resource row hPortList hTrash hRow =>
      have hTags := tags_left type .role resource db.roles.next number .table .trash db
        (fun hType => absurd hType hRole)
      have hPermissions := (permissions_left type .role resource db.roles.next number .table .trash db
        (fun hType => absurd hType hRole)).trans
        (permissions_setSubjects type resource db.roles.next number .table .trash _ .role)
      exact ⟨⟨hTags.table, hTags.trash⟩, hPermissions.table, hPermissions.trash⟩
  | @schedule resource row hPortList hRole hTrash hRow =>
      have hNe (hType : type = .schedule) (_ : Location.trash = .trash) : number ≠ resource :=
        hSchedules hType resource hTrash
      have hTags := tags_left type .schedule resource db.schedules.next number .table .trash db hNe
      have hPermissions := permissions_left type .schedule resource db.schedules.next number .table
        .trash db hNe
      exact ⟨⟨hTags.table, hTags.trash⟩, hPermissions.table, hPermissions.trash⟩

/-- Another UUID finds another row. -/
theorem ne_of_findResource {Row : Type} {view : Row → Resource} {table : Table Row}
    {resourceId otherId : CString} {row : Row} {number other : Nat}
    (hRow : (number, row) ∈ table.rows) (hId : (view row).uuid = resourceId)
    (hOther : otherId ≠ resourceId) (hFind : findResource view env table otherId = some other) :
    number ≠ other := by
  rintro rfl
  obtain ⟨found, hFound, hFoundId⟩ := findResource_some hFind
  obtain rfl := Table.row_eq hRow hFound
  exact hOther (hFoundId.symm.trans hId)

end Staying

/-! Schedules. -/

section Schedules

variable {env : Env} {otherId : CString} {ultimate : Bool} {number : Nat} {row : Schedule}
  {db db' : Database}

/-- A schedule in the trashcan and what refers to it, before and after other commands. -/
structure ScheduleStays (number : Nat) (row : Schedule) (before after : Database) : Prop where
  row : (number, row) ∈ after.schedulesTrash.rows
  referring : Stays .schedule number before after
  tasks : taskReference.Follows before.tasks after.tasks number .trash number .trash

theorem ScheduleStays.refl (hRow : (number, row) ∈ db.schedulesTrash.rows) :
    ScheduleStays number row db db :=
  ⟨hRow, .refl _ _ _, .refl _ _ _⟩

/-- Deleting another schedule leaves one in the trashcan as it is. -/
theorem ScheduleDeleted.scheduleStays (h : ScheduleDeleted env otherId ultimate db db')
    (hRow : (number, row) ∈ db.schedulesTrash.rows) (hId : otherId ≠ row.uuid) :
    ScheduleStays number row db db' := by
  have hOther (schedule : Nat) (hFind : findResource Schedule.toResource env db.schedulesTrash
      otherId = some schedule) : number ≠ schedule := ne_of_findResource hRow rfl hId hFind
  refine ⟨?_, h.stays fun _ => hOther, ?_⟩
  · cases h with
    | @purged schedule hTrash hUltimate =>
        exact Table.mem_delete.mpr ⟨hRow, decide_eq_false (hOther schedule hTrash)⟩
    | moved hTable hMoved hUltimate => exact Table.mem_insertAll_singleton.mpr (.inl hRow)
    | dropped hTable hUltimate => exact hRow
  · cases h with
    | purged hTrash hUltimate => exact .refl _ _ _
    | @moved schedule moved hTable hMoved hUltimate =>
        exact tasks_left schedule db.schedulesTrash.next number .trash .trash db.tasks
          (fun hPlace => nomatch hPlace)
    | dropped hTable hUltimate => exact .refl _ _ _

/-- So does restoring something else. -/
theorem Restored.scheduleStays (h : Restored env otherId db db')
    (hRow : (number, row) ∈ db.schedulesTrash.rows) (hId : otherId ≠ row.uuid) :
    ScheduleStays number row db db' := by
  have hOther (schedule : Nat) (hFind : findResource Schedule.toResource env db.schedulesTrash
      otherId = some schedule) : number ≠ schedule := ne_of_findResource hRow rfl hId hFind
  refine ⟨?_, h.stays nofun nofun fun _ => hOther, ?_⟩
  · cases h with
    | portList hTrash hFound => exact hRow
    | role hPortList hTrash hFound => exact hRow
    | @schedule resource found hPortList hRole hTrash hFound =>
        exact Table.mem_delete.mpr ⟨hRow, decide_eq_false (hOther resource hTrash)⟩
  · cases h with
    | portList hTrash hFound => exact .refl _ _ _
    | role hPortList hTrash hFound => exact .refl _ _ _
    | @schedule resource found hPortList hRole hTrash hFound =>
        exact tasks_left resource db.schedules.next number .table .trash db.tasks
          (fun _ => hOther resource hTrash)

theorem PortListDeleted.scheduleStays (h : PortListDeleted env otherId ultimate db db')
    (hRow : (number, row) ∈ db.schedulesTrash.rows) : ScheduleStays number row db db' := by
  refine ⟨?_, h.stays nofun, ?_⟩
  · cases h with
    | purged hTrash hUltimate => exact hRow
    | moved hTable hMoved hUltimate hFresh => exact hRow
    | dropped hTable hUltimate => exact hRow
  · cases h with
    | purged hTrash hUltimate => exact .refl _ _ _
    | moved hTable hMoved hUltimate hFresh => exact .refl _ _ _
    | dropped hTable hUltimate => exact .refl _ _ _

/-- A command about something else leaves a schedule in the trashcan as it is. -/
theorem scheduleStays_step {session next : Session Database} {command : TrashCommand} {code : Int}
    (hRun : command.run session = .ok (code, next))
    (hRow : (number, row) ∈ session.db.schedulesTrash.rows) (hId : command.id ≠ row.uuid) :
    ScheduleStays number row session.db next.db := by
  cases command with
  | deletePortList env portListId ultimate =>
      rcases (deletePortList_ok hRun).2.1 with hSame | hDeleted
      · rw [hSame]
        exact .refl hRow
      · exact hDeleted.scheduleStays hRow
  | deleteSchedule env scheduleId ultimate =>
      rcases (deleteSchedule_ok hRun).2.1 with hSame | hDeleted
      · rw [hSame]
        exact .refl hRow
      · exact hDeleted.scheduleStays hRow hId
  | restore env resourceId =>
      obtain ⟨-, hRestored, hSame⟩ := manageRestore_ok hRun
      by_cases hCode : code = 0
      · exact (hRestored hCode).scheduleStays hRow hId
      · rw [hSame hCode]
        exact .refl hRow

/-- A schedule stays in the trashcan while other resources are moved. -/
theorem scheduleStays_run {session last : Session Database} {commands : List TrashCommand}
    (hRun : TrashRun session commands last)
    (hRow : (number, row) ∈ session.db.schedulesTrash.rows)
    (hId : ∀ command ∈ commands, command.id ≠ row.uuid) :
    ScheduleStays number row session.db last.db := by
  induction hRun with
  | nil session => exact .refl hRow
  | cons hRun rest ih =>
      have hStep := scheduleStays_step hRun hRow (hId _ List.mem_cons_self)
      have hRest := ih hStep.row fun command hMem => hId command (List.mem_cons_of_mem _ hMem)
      exact ⟨hRest.row, hStep.referring.trans hRest.referring, hStep.tasks.trans hRest.tasks⟩

end Schedules

/-- What refers to a schedule, before and after it is moved. -/
structure ScheduleMoves (before after : Database) (number : Nat) (location : Location)
    (number' : Nat) (location' : Location) : Prop where
  tags : TagsFollow .schedule before after number location number' location'
  permissions : PermissionsFollow .schedule before after number location number' location'
  tasks : taskReference.Follows before.tasks after.tasks number location number' location'

theorem ScheduleMoves.trans {before middle after : Database} {number number' number'' : Nat}
    {location location' location'' : Location}
    (h : ScheduleMoves before middle number location number' location')
    (h' : ScheduleMoves middle after number' location' number'' location'') :
    ScheduleMoves before after number location number'' location'' :=
  ⟨h.tags.trans h'.tags, h.permissions.trans h'.permissions, h.tasks.trans h'.tasks⟩

theorem moveSchedule_moves (old new : Nat) (dest : Location) (db : Database) :
    ScheduleMoves db (moveSchedule old new dest db) old dest.other new dest := by
  have hTags := tags_moved .schedule old new dest db
  have hPermissions := permissions_moved .schedule old new dest db
  exact ⟨⟨hTags.table, hTags.trash⟩, ⟨hPermissions.table, hPermissions.trash⟩,
    tasks_moved old new dest db.tasks⟩

/-- A resource that is moved to the trashcan, left there while other resources are moved,
and restored. -/
structure Trip where
  start : Session Database
  trashed : Session Database
  later : Session Database
  restored : Session Database
  env : Env
  env' : Env
  resourceId : CString
  number : Nat
  commands : List TrashCommand
  between : TrashRun trashed commands later
  others : ∀ command ∈ commands, command.id ≠ resourceId
  restores : manageRestore env' resourceId later = .ok (0, restored)

/-- A schedule goes to the trashcan and back. -/
structure ScheduleTrip extends Trip where
  found : findResourceWithPermission Schedule.toResource env start.db .schedule start.db.schedules
    resourceId (lit "delete_schedule") = some number
  deletes : deleteSchedule env resourceId false start = .ok (0, trashed)
  portLists : findResource id env' later.db.portListsTrash resourceId = none
  roles : findResource id env' later.db.rolesTrash resourceId = none
  brought : findResource Schedule.toResource env' later.db.schedulesTrash resourceId =
    some start.db.schedulesTrash.next

/-- What a schedule has again when it is restored. -/
structure ScheduleTrip.Kept (trip : ScheduleTrip) (number : Nat) : Prop where
  row : ∀ row, (trip.number, row) ∈ trip.start.db.schedules.rows →
    (number, row) ∈ trip.restored.db.schedules.rows
  moves : ScheduleMoves trip.start.db trip.restored.db trip.number .table number .table

namespace ScheduleTrip

variable (trip : ScheduleTrip) {row : Schedule}

theorem trashed_db (hRow : (trip.number, row) ∈ trip.start.db.schedules.rows) :
    trip.trashed.db = removeSchedule trip.number (scheduleInTrash trip.number
      trip.start.db.schedulesTrash.next row trip.start.db) := by
  have hDeleted := (deleteSchedule_ok trip.deletes).2.2 trip.number trip.found rfl
  generalize trip.trashed.db = db' at hDeleted
  cases hDeleted with
  | purged hTrash hUltimate => cases hUltimate
  | dropped hTable hUltimate => cases hUltimate
  | moved hTable hMoved hUltimate =>
      obtain rfl := Option.some.inj (hTable.symm.trans trip.found)
      rw [Table.row_eq hMoved hRow]

theorem restored_db (hRow : (trip.start.db.schedulesTrash.next, row) ∈
    trip.later.db.schedulesTrash.rows) :
    trip.restored.db = removeTrashSchedule trip.start.db.schedulesTrash.next
      (scheduleInTable trip.start.db.schedulesTrash.next trip.later.db.schedules.next row
        trip.later.db) := by
  have hRestored := (manageRestore_ok trip.restores).2.1 rfl
  generalize trip.restored.db = db' at hRestored
  cases hRestored with
  | portList hTrash hFound => exact nomatch hTrash.symm.trans trip.portLists
  | role hNone hTrash hFound => exact nomatch hTrash.symm.trans trip.roles
  | schedule hNone hNone' hTrash hFound =>
      obtain rfl := Option.some.inj (hTrash.symm.trans trip.brought)
      rw [Table.row_eq hFound hRow]

/-- A schedule is restored as it was. -/
theorem kept : trip.Kept trip.later.db.schedules.next := by
  obtain ⟨row, hRow, hUuid⟩ := findResourceWithPermission_some trip.found
  have hTrashed := trip.trashed_db hRow
  have hIn : (trip.start.db.schedulesTrash.next, row) ∈ trip.trashed.db.schedulesTrash.rows := by
    rw [hTrashed]
    exact Table.mem_insertAll_singleton.mpr (.inr ⟨rfl, rfl⟩)
  have hStays := scheduleStays_run trip.between hIn fun command hMem => by
    rw [hUuid]
    exact trip.others command hMem
  have hRestored := trip.restored_db hStays.row
  have hThere : ScheduleMoves trip.start.db trip.trashed.db trip.number .table
      trip.start.db.schedulesTrash.next .trash := by
    have hMoves := moveSchedule_moves trip.number trip.start.db.schedulesTrash.next .trash
      trip.start.db
    rw [hTrashed]
    exact ⟨⟨hMoves.tags.table, hMoves.tags.trash⟩,
      ⟨hMoves.permissions.table, hMoves.permissions.trash⟩, hMoves.tasks⟩
  have hBack : ScheduleMoves trip.later.db trip.restored.db trip.start.db.schedulesTrash.next
      .trash trip.later.db.schedules.next .table := by
    have hMoves := moveSchedule_moves trip.start.db.schedulesTrash.next
      trip.later.db.schedules.next .table trip.later.db
    rw [hRestored]
    exact ⟨⟨hMoves.tags.table, hMoves.tags.trash⟩,
      ⟨hMoves.permissions.table, hMoves.permissions.trash⟩, hMoves.tasks⟩
  have hBetween : ScheduleMoves trip.trashed.db trip.later.db trip.start.db.schedulesTrash.next
      .trash trip.start.db.schedulesTrash.next .trash :=
    ⟨hStays.referring.tags, hStays.referring.permissions, hStays.tasks⟩
  refine ⟨fun other hOther => ?_, (hThere.trans hBetween).trans hBack⟩
  rw [Table.row_eq hOther hRow, hRestored]
  exact Table.mem_insertAll_singleton.mpr (.inr ⟨rfl, rfl⟩)

end ScheduleTrip

end Trashcan
