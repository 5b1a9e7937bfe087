import OpenVAS.Lib.Reference
import OpenVAS.Lib.Results
import OpenVAS.Trashcan.Commands

/-! What the commands of the trashcan can do to the database: nothing, or one of a few
changes. -/
namespace Trashcan

open CString Transaction

/-- What a permission keeps when its subject or its resource is moved. -/
structure Permission.Same (one two : Permission) : Prop where
  uuid : two.uuid = one.uuid
  name : two.name = one.name
  resourceType : two.resourceType = one.resourceType

theorem Permission.Same.refl (row : Permission) : row.Same row := ⟨rfl, rfl, rfl⟩

theorem Permission.Same.trans {one two three : Permission} (h : one.Same two) (h' : two.Same three) :
    one.Same three :=
  ⟨h'.uuid.trans h.uuid, h'.name.trans h.name, h'.resourceType.trans h.resourceType⟩

/-- A resource that is found has the UUID. -/
theorem findResource_some {Row : Type} {view : Row → Resource} {env : Env} {table : Table Row}
    {uuid : CString} {number : Nat} (h : findResource view env table uuid = some number) :
    ∃ row, (number, row) ∈ table.rows ∧ (view row).uuid = uuid := by
  rw [findResource] at h
  split at h
  · obtain ⟨row, hRow, hUuid⟩ := Table.find?_eq_some h
    exact ⟨row, hRow, of_decide_eq_true hUuid⟩
  · cases h

/-- Rows are inserted where no UUID is there twice. -/
theorem insertUnique_ok {Row : Type} {uuid : Row → CString} {table inserted : Table Row}
    {rows : List Row} (h : insertUnique uuid table rows = .ok inserted) :
    inserted = table.insertAll rows ∧ (rows.map uuid).Nodup ∧
      ∀ row ∈ rows, ∀ number old, (number, old) ∈ table.rows → uuid old ≠ uuid row := by
  rw [insertUnique] at h
  split at h
  · rename_i hUnique
    refine ⟨(Except.ok.inj h).symm, hUnique.1, fun row hRow number old hOld hSame => ?_⟩
    have hFresh := List.all_eq_true.mp hUnique.2 row hRow
    rw [Bool.not_eq_true'] at hFresh
    have hAny : (table.any fun _ old => uuid old = uuid row) = true :=
      List.any_eq_true.mpr ⟨(number, old), hOld, decide_eq_true hSame⟩
    rw [hAny] at hFresh
    cases hFresh
  · cases h

/-! Roles. -/

/-- The database with a new role. -/
def roleCreated (row : Resource) (users : List Nat) (db : Database) : Database :=
  { db with
    roles := db.roles.insertAll [row]
    roleUsers := db.roleUsers.insertAll (users.map (RoleUser.mk db.roles.next)) }

/-- What creating a role does. -/
theorem createRole_ok {env : Env} {name : CString} {comment : Option CString}
    {users : Except Int (List Nat)} {session after : Session Database} {code : Int}
    (h : createRole env name comment users session = .ok (code, after)) :
    after.begun = none ∧ (after.db = session.db ∨
      ∃ row users, after.db = roleCreated row users session.db) := by
  obtain ⟨-, h⟩ := beginImmediate_ok h
  split at h
  · obtain ⟨-, hNone, hDb⟩ := rollback_ok rfl h
    exact ⟨hNone, .inl hDb⟩
  split at h
  · obtain ⟨-, hNone, hDb⟩ := rollback_ok rfl h
    exact ⟨hNone, .inl hDb⟩
  split at h
  · obtain ⟨-, hNone, hDb⟩ := rollback_ok rfl h
    exact ⟨hNone, .inl hDb⟩
  · obtain ⟨created, hCreated, h⟩ := perform_ok h
    obtain ⟨-, hNone, hDb⟩ := commit_ok h
    obtain ⟨roles, hRoles, hCreated⟩ := Except.bind_eq_ok.mp hCreated
    obtain rfl := Except.ok.inj hCreated
    obtain ⟨rfl, -, -⟩ := insertUnique_ok hRoles
    exact ⟨hNone, .inr ⟨_, _, hDb⟩⟩

/-- The database after a role was copied to the trashcan under a number. -/
def roleInTrash (role number : Nat) (row : Resource) (db : Database) : Database :=
  permissionsSetSubjects .role role number .trash
    (tagsSetLocations .role role number .trash
      { db with
        rolesTrash := db.rolesTrash.insertAll [row]
        roleUsersTrash := db.roleUsersTrash.insertAll (db.roleUsers.select (·.role = role)) })

/-- What moving a role to the trashcan does. -/
theorem trashRole_ok {role : Nat} {session moved : Session Database} {row : Resource}
    (hRow : (role, row) ∈ session.db.roles.rows) (h : trashRole role session = .ok moved) :
    moved.begun = session.begun ∧
      moved.db = roleInTrash role session.db.rolesTrash.next row session.db ∧
      ∀ number old, (number, old) ∈ session.db.rolesTrash.rows → old.uuid ≠ row.uuid := by
  have hGet := Table.get?_eq_some.mpr hRow
  simp only [trashRole, hGet, Option.toList_some] at h
  obtain ⟨rolesTrash, hInsert, h⟩ := Except.bind_eq_ok.mp h
  obtain rfl := Except.ok.inj h
  obtain ⟨rfl, -, hFresh⟩ := insertUnique_ok hInsert
  exact ⟨rfl, rfl, hFresh row List.mem_cons_self⟩

/-- The database after a role was copied from the trashcan under a number. -/
def roleInTable (resource number : Nat) (row : Resource) (db : Database) : Database :=
  permissionsSetSubjects .role resource number .table
    (tagsSetLocations .role resource number .table
      (permissionsSetLocations .role resource number .table
        { db with
          roles := db.roles.insertAll [row]
          roleUsers := db.roleUsers.insertAll (db.roleUsersTrash.select (·.role = resource)) }))

/-- What moving a role back does. -/
theorem untrashRole_ok {resource : Nat} {session moved : Session Database} {row : Resource}
    (hRow : (resource, row) ∈ session.db.rolesTrash.rows)
    (h : untrashRole resource session = .ok moved) :
    moved.begun = session.begun ∧
      moved.db = roleInTable resource session.db.roles.next row session.db := by
  have hGet := Table.get?_eq_some.mpr hRow
  simp only [untrashRole, hGet, Option.toList_some] at h
  obtain ⟨roles, hInsert, h⟩ := Except.bind_eq_ok.mp h
  obtain rfl := Except.ok.inj h
  obtain ⟨rfl, -, -⟩ := insertUnique_ok hInsert
  exact ⟨rfl, rfl⟩

/-- What `delete_role` does when it changes something. -/
inductive RoleDeleted (env : Env) (roleId : CString) (ultimate : Bool) (db : Database) :
    Database → Prop
  | purged {role : Nat} (hTrash : findResource id env db.rolesTrash roleId = some role)
      (hUltimate : ultimate = true) :
      RoleDeleted env roleId ultimate db (removeTrashRole role (dropRole role .trash db))
  | moved {role : Nat} {row : Resource} (hTable : findResource id env db.roles roleId = some role)
      (hRow : (role, row) ∈ db.roles.rows) (hUltimate : ultimate = false)
      (hFresh : ∀ number old, (number, old) ∈ db.rolesTrash.rows → old.uuid ≠ row.uuid) :
      RoleDeleted env roleId ultimate db
        (removeRole role (roleInTrash role db.rolesTrash.next row db))
  | dropped {role : Nat} (hTable : findResource id env db.roles roleId = some role)
      (hUltimate : ultimate = true) :
      RoleDeleted env roleId ultimate db (removeRole role (dropRole role .table db))

/-- What deleting a role does, in all its cases. -/
theorem deleteRole_ok {env : Env} {roleId : CString} {ultimate : Bool}
    {session after : Session Database} {code : Int}
    (h : deleteRole env roleId ultimate session = .ok (code, after)) :
    after.begun = none ∧ (after.db = session.db ∨ RoleDeleted env roleId ultimate session.db after.db) ∧
      (∀ role, findResource id env session.db.roles roleId = some role → code = 0 →
        RoleDeleted env roleId ultimate session.db after.db) := by
  obtain ⟨-, h⟩ := beginImmediate_ok h
  split at h
  · obtain ⟨rfl, hNone, hDb⟩ := rollback_ok rfl h
    exact ⟨hNone, .inl hDb, fun _ _ hCode => absurd hCode (by decide)⟩
  split at h
  · rename_i hTable
    have hNot (role : Nat) (hRole : findResource id env session.db.roles roleId = some role) :
        False := by
      rw [hTable] at hRole
      cases hRole
    split at h
    · obtain ⟨rfl, hNone, hDb⟩ := rollback_ok rfl h
      exact ⟨hNone, .inl hDb, fun _ _ hCode => absurd hCode (by decide)⟩
    · rename_i role hTrash
      split at h
      · obtain ⟨rfl, hNone, hDb⟩ := commit_ok h
        exact ⟨hNone, .inl hDb, fun role hRole => absurd hRole (hNot role)⟩
      · rename_i hUltimate
        obtain ⟨rfl, hNone, hDb⟩ := commit_ok h
        refine ⟨hNone, .inr ?_, fun role hRole => absurd hRole (hNot role)⟩
        rw [hDb]
        exact .purged hTrash (by simpa using hUltimate)
  · rename_i role hTable
    split at h
    · obtain ⟨rfl, hNone, hDb⟩ := rollback_ok rfl h
      exact ⟨hNone, .inl hDb, fun _ _ hCode => absurd hCode (by decide)⟩
    split at h
    · rename_i hUltimate
      obtain ⟨moved, hMoved, h⟩ := perform_ok h
      obtain ⟨rfl, hNone, hDb⟩ := commit_ok h
      obtain ⟨row, hRow, -⟩ := findResource_some hTable
      obtain ⟨-, hMovedDb, hFresh⟩ := trashRole_ok (by exact hRow) hMoved
      have hDeleted : RoleDeleted env roleId ultimate session.db after.db := by
        rw [hDb, change, hMovedDb]
        exact .moved hTable hRow (by simpa using hUltimate) hFresh
      exact ⟨hNone, .inr hDeleted, fun _ _ _ => hDeleted⟩
    · rename_i hUltimate
      obtain ⟨rfl, hNone, hDb⟩ := commit_ok h
      have hDeleted : RoleDeleted env roleId ultimate session.db after.db := by
        rw [hDb]
        exact .dropped hTable (by simpa using hUltimate)
      exact ⟨hNone, .inr hDeleted, fun _ _ _ => hDeleted⟩

/-! Port lists. -/

/-- The ranges of a port list, for another list. -/
def rangesFor (number : Nat) (ranges : List PortRange) : List PortRange :=
  ranges.map fun row => { row with portList := number }

/-- The database after a port list was copied to the trashcan under a number. -/
def portListInTrash (portList number : Nat) (row : Resource) (db : Database) : Database :=
  tagsSetLocations .portList portList number .trash
    (permissionsSetLocations .portList portList number .trash
      { db with
        portListsTrash := db.portListsTrash.insertAll [row]
        portRangesTrash := db.portRangesTrash.insertAll
          (rangesFor number (db.portRanges.select (·.portList = portList)))
        targetsTrash := db.targetsTrash.update (moveTarget portList number .trash) })

/-- What moving a port list to the trashcan does. -/
theorem trashPortList_ok {portList : Nat} {session moved : Session Database} {row : Resource}
    (hRow : (portList, row) ∈ session.db.portLists.rows)
    (h : trashPortList portList session = .ok moved) :
    moved.begun = session.begun ∧
      moved.db = portListInTrash portList session.db.portListsTrash.next row session.db ∧
      ∀ number old, (number, old) ∈ session.db.portListsTrash.rows → old.uuid ≠ row.uuid := by
  have hGet := Table.get?_eq_some.mpr hRow
  simp only [trashPortList, hGet, Option.toList_some] at h
  obtain ⟨portListsTrash, hLists, h⟩ := Except.bind_eq_ok.mp h
  obtain ⟨portRangesTrash, hRanges, h⟩ := Except.bind_eq_ok.mp h
  obtain rfl := Except.ok.inj h
  obtain ⟨rfl, -, hFresh⟩ := insertUnique_ok hLists
  obtain ⟨rfl, -, -⟩ := insertUnique_ok hRanges
  exact ⟨rfl, rfl, hFresh row List.mem_cons_self⟩

/-- The database after a port list was copied from the trashcan under a number, with the
last insertion under another one. -/
def portListInTable (resource number last : Nat) (row : Resource) (db : Database) : Database :=
  tagsSetLocations .portList resource last .table
    (permissionsSetLocations .portList resource number .table
      { db with
        portLists := db.portLists.insertAll [row]
        portRanges := db.portRanges.insertAll
          (rangesFor number (db.portRangesTrash.select (·.portList = resource)))
        targetsTrash := db.targetsTrash.update (moveTarget resource number .table) })

/-- The number of the last insertion when a port list is restored. -/
def lastRestored (resource : Nat) (db : Database) : Nat :=
  lastInsertRowid db.portRanges (db.portRangesTrash.select (·.portList = resource))
    db.portLists.next

theorem lastInsertRowid_map {Row : Type} (table : Table Row) (f : Row → Row) (rows : List Row)
    (before : Nat) :
    lastInsertRowid table (rows.map f) before = lastInsertRowid table rows before := by
  simp only [lastInsertRowid, List.isEmpty_map, List.length_map]

/-- What moving a port list back does. -/
theorem untrashPortList_ok {resource : Nat} {session moved : Session Database} {row : Resource}
    (hRow : (resource, row) ∈ session.db.portListsTrash.rows)
    (h : untrashPortList resource session = .ok moved) :
    moved.begun = session.begun ∧
      moved.db = portListInTable resource session.db.portLists.next
        (lastRestored resource session.db) row session.db := by
  have hGet := Table.get?_eq_some.mpr hRow
  simp only [untrashPortList, hGet, Option.toList_some] at h
  obtain ⟨portLists, hLists, h⟩ := Except.bind_eq_ok.mp h
  obtain ⟨portRanges, hRanges, h⟩ := Except.bind_eq_ok.mp h
  obtain rfl := Except.ok.inj h
  obtain ⟨rfl, -, -⟩ := insertUnique_ok hLists
  obtain ⟨rfl, -, -⟩ := insertUnique_ok hRanges
  refine ⟨rfl, ?_⟩
  simp only [lastInsertRowid_map]
  rfl

/-- What `delete_port_list` does when it changes something. -/
inductive PortListDeleted (env : Env) (portListId : CString) (ultimate : Bool) (db : Database) :
    Database → Prop
  | purged {portList : Nat} (hTrash : findResource id env db.portListsTrash portListId = some portList)
      (hUltimate : ultimate = true) :
      PortListDeleted env portListId ultimate db
        (removeTrashPortList portList (setOrphans .portList portList .trash db))
  | moved {portList : Nat} {row : Resource}
      (hTable : findResourceWithPermission id env db .portList db.portLists portListId
        (lit "delete_port_list") = some portList)
      (hRow : (portList, row) ∈ db.portLists.rows) (hUltimate : ultimate = false)
      (hFresh : ∀ number old, (number, old) ∈ db.portListsTrash.rows → old.uuid ≠ row.uuid) :
      PortListDeleted env portListId ultimate db
        (removePortList portList (portListInTrash portList db.portListsTrash.next row db))
  | dropped {portList : Nat}
      (hTable : findResourceWithPermission id env db .portList db.portLists portListId
        (lit "delete_port_list") = some portList)
      (hUltimate : ultimate = true) :
      PortListDeleted env portListId ultimate db
        (removePortList portList (setOrphans .portList portList .table db))

theorem findResourceWithPermission_some {Row : Type} {view : Row → Resource} {env : Env}
    {db : Database} {type : ResourceType} {table : Table Row} {uuid permission : CString}
    {number : Nat}
    (h : findResourceWithPermission view env db type table uuid permission = some number) :
    ∃ row, (number, row) ∈ table.rows ∧ (view row).uuid = uuid := by
  rw [findResourceWithPermission] at h
  split at h
  · obtain ⟨row, hRow, hUuid⟩ := Table.find?_eq_some h
    exact ⟨row, hRow, of_decide_eq_true hUuid⟩
  · cases h

/-- What deleting a port list does, in all its cases. -/
theorem deletePortList_ok {env : Env} {portListId : CString} {ultimate : Bool}
    {session after : Session Database} {code : Int}
    (h : deletePortList env portListId ultimate session = .ok (code, after)) :
    after.begun = none ∧
      (after.db = session.db ∨ PortListDeleted env portListId ultimate session.db after.db) ∧
      (code ≠ 0 → after.db = session.db) ∧
      (∀ portList, findResourceWithPermission id env session.db .portList session.db.portLists
        portListId (lit "delete_port_list") = some portList → code = 0 →
        PortListDeleted env portListId ultimate session.db after.db) := by
  obtain ⟨-, h⟩ := beginImmediate_ok h
  split at h
  · obtain ⟨rfl, hNone, hDb⟩ := rollback_ok rfl h
    exact ⟨hNone, .inl hDb, fun _ => hDb, fun _ _ hCode => absurd hCode (by decide)⟩
  split at h
  · rename_i hTable
    split at h
    · obtain ⟨rfl, hNone, hDb⟩ := rollback_ok rfl h
      exact ⟨hNone, .inl hDb, fun _ => hDb, fun _ _ hCode => absurd hCode (by decide)⟩
    · rename_i portList hTrash
      split at h
      · obtain ⟨rfl, hNone, hDb⟩ := commit_ok h
        exact ⟨hNone, .inl hDb, fun _ => hDb, fun _ hSome => nomatch hTable.symm.trans hSome⟩
      · rename_i hUltimate
        split at h
        · obtain ⟨rfl, hNone, hDb⟩ := rollback_ok rfl h
          exact ⟨hNone, .inl hDb, fun _ => hDb, fun _ _ hCode => absurd hCode (by decide)⟩
        · obtain ⟨rfl, hNone, hDb⟩ := commit_ok h
          refine ⟨hNone, .inr ?_, fun hCode => absurd rfl hCode,
            fun _ hSome => nomatch hTable.symm.trans hSome⟩
          rw [hDb]
          exact .purged hTrash (by simpa using hUltimate)
  · rename_i portList hTable
    split at h
    · obtain ⟨rfl, hNone, hDb⟩ := rollback_ok rfl h
      exact ⟨hNone, .inl hDb, fun _ => hDb, fun _ _ hCode => absurd hCode (by decide)⟩
    split at h
    · obtain ⟨rfl, hNone, hDb⟩ := rollback_ok rfl h
      exact ⟨hNone, .inl hDb, fun _ => hDb, fun _ _ hCode => absurd hCode (by decide)⟩
    split at h
    · rename_i hUltimate
      obtain ⟨moved, hMoved, h⟩ := perform_ok h
      obtain ⟨rfl, hNone, hDb⟩ := commit_ok h
      obtain ⟨row, hRow, -⟩ := findResourceWithPermission_some hTable
      obtain ⟨-, hMovedDb, hFresh⟩ := trashPortList_ok (by exact hRow) hMoved
      have hDeleted : PortListDeleted env portListId ultimate session.db after.db := by
        rw [hDb, change, hMovedDb]
        exact .moved hTable hRow (by simpa using hUltimate) hFresh
      exact ⟨hNone, .inr hDeleted, fun hCode => absurd rfl hCode, fun _ _ _ => hDeleted⟩
    · rename_i hUltimate
      obtain ⟨rfl, hNone, hDb⟩ := commit_ok h
      have hDeleted : PortListDeleted env portListId ultimate session.db after.db := by
        rw [hDb]
        exact .dropped hTable (by simpa using hUltimate)
      exact ⟨hNone, .inr hDeleted, fun hCode => absurd rfl hCode, fun _ _ _ => hDeleted⟩

/-! Schedules. -/

/-- The database after a schedule was copied to the trashcan under a number. -/
def scheduleInTrash (schedule number : Nat) (row : Schedule) (db : Database) : Database :=
  moveSchedule schedule number .trash
    { db with schedulesTrash := db.schedulesTrash.insertAll [row] }

theorem trashSchedule_db {schedule : Nat} {session : Session Database} {row : Schedule}
    (hRow : (schedule, row) ∈ session.db.schedules.rows) :
    (trashSchedule schedule session).db =
      scheduleInTrash schedule session.db.schedulesTrash.next row session.db := by
  simp only [trashSchedule, Table.get?_eq_some.mpr hRow]
  rfl

/-- The database after a schedule was copied from the trashcan under a number. -/
def scheduleInTable (resource number : Nat) (row : Schedule) (db : Database) : Database :=
  moveSchedule resource number .table { db with schedules := db.schedules.insertAll [row] }

theorem untrashSchedule_db {resource : Nat} {session : Session Database} {row : Schedule}
    (hRow : (resource, row) ∈ session.db.schedulesTrash.rows) :
    (untrashSchedule resource session).db =
      scheduleInTable resource session.db.schedules.next row session.db := by
  simp only [untrashSchedule, Table.get?_eq_some.mpr hRow]
  rfl

/-- What `delete_schedule` does when it changes something. -/
inductive ScheduleDeleted (env : Env) (scheduleId : CString) (ultimate : Bool) (db : Database) :
    Database → Prop
  | purged {schedule : Nat}
      (hTrash : findResource Schedule.toResource env db.schedulesTrash scheduleId = some schedule)
      (hUltimate : ultimate = true) :
      ScheduleDeleted env scheduleId ultimate db
        (removeTrashSchedule schedule (setOrphans .schedule schedule .trash db))
  | moved {schedule : Nat} {row : Schedule}
      (hTable : findResourceWithPermission Schedule.toResource env db .schedule db.schedules
        scheduleId (lit "delete_schedule") = some schedule)
      (hRow : (schedule, row) ∈ db.schedules.rows) (hUltimate : ultimate = false) :
      ScheduleDeleted env scheduleId ultimate db
        (removeSchedule schedule (scheduleInTrash schedule db.schedulesTrash.next row db))
  | dropped {schedule : Nat}
      (hTable : findResourceWithPermission Schedule.toResource env db .schedule db.schedules
        scheduleId (lit "delete_schedule") = some schedule)
      (hUltimate : ultimate = true) :
      ScheduleDeleted env scheduleId ultimate db
        (removeSchedule schedule (setOrphans .schedule schedule .table db))

/-- What deleting a schedule does, in all its cases. -/
theorem deleteSchedule_ok {env : Env} {scheduleId : CString} {ultimate : Bool}
    {session after : Session Database} {code : Int}
    (h : deleteSchedule env scheduleId ultimate session = .ok (code, after)) :
    after.begun = none ∧
      (after.db = session.db ∨ ScheduleDeleted env scheduleId ultimate session.db after.db) ∧
      (∀ schedule, findResourceWithPermission Schedule.toResource env session.db .schedule
        session.db.schedules scheduleId (lit "delete_schedule") = some schedule → code = 0 →
        ScheduleDeleted env scheduleId ultimate session.db after.db) := by
  obtain ⟨-, h⟩ := beginImmediate_ok h
  split at h
  · obtain ⟨rfl, hNone, hDb⟩ := rollback_ok rfl h
    exact ⟨hNone, .inl hDb, fun _ _ hCode => absurd hCode (by decide)⟩
  split at h
  · rename_i hTable
    split at h
    · obtain ⟨rfl, hNone, hDb⟩ := rollback_ok rfl h
      exact ⟨hNone, .inl hDb, fun _ _ hCode => absurd hCode (by decide)⟩
    · rename_i schedule hTrash
      split at h
      · obtain ⟨rfl, hNone, hDb⟩ := commit_ok h
        exact ⟨hNone, .inl hDb, fun _ hSome => nomatch hTable.symm.trans hSome⟩
      · rename_i hUltimate
        split at h
        · obtain ⟨rfl, hNone, hDb⟩ := rollback_ok rfl h
          exact ⟨hNone, .inl hDb, fun _ _ hCode => absurd hCode (by decide)⟩
        · obtain ⟨rfl, hNone, hDb⟩ := commit_ok h
          refine ⟨hNone, .inr ?_, fun _ hSome => nomatch hTable.symm.trans hSome⟩
          rw [hDb]
          exact .purged hTrash (by simpa using hUltimate)
  · rename_i schedule hTable
    split at h
    · rename_i hUltimate
      split at h
      · obtain ⟨rfl, hNone, hDb⟩ := rollback_ok rfl h
        exact ⟨hNone, .inl hDb, fun _ _ hCode => absurd hCode (by decide)⟩
      · obtain ⟨rfl, hNone, hDb⟩ := commit_ok h
        obtain ⟨row, hRow, -⟩ := findResourceWithPermission_some hTable
        have hDeleted : ScheduleDeleted env scheduleId ultimate session.db after.db := by
          rw [hDb, change, trashSchedule_db (by exact hRow)]
          exact .moved hTable hRow (by simpa using hUltimate)
        exact ⟨hNone, .inr hDeleted, fun _ _ _ => hDeleted⟩
    · rename_i hUltimate
      split at h
      · obtain ⟨rfl, hNone, hDb⟩ := rollback_ok rfl h
        exact ⟨hNone, .inl hDb, fun _ _ hCode => absurd hCode (by decide)⟩
      · obtain ⟨rfl, hNone, hDb⟩ := commit_ok h
        have hDeleted : ScheduleDeleted env scheduleId ultimate session.db after.db := by
          rw [hDb]
          exact .dropped hTable (by simpa using hUltimate)
        exact ⟨hNone, .inr hDeleted, fun _ _ _ => hDeleted⟩

/-! Restoring. -/

/-- What `manage_restore` does when it changes something. -/
inductive Restored (env : Env) (resourceId : CString) (db : Database) : Database → Prop
  | portList {resource : Nat} {row : Resource}
      (hTrash : findResource id env db.portListsTrash resourceId = some resource)
      (hRow : (resource, row) ∈ db.portListsTrash.rows) :
      Restored env resourceId db (removeTrashPortList resource
        (portListInTable resource db.portLists.next (lastRestored resource db) row db))
  | role {resource : Nat} {row : Resource}
      (hPortList : findResource id env db.portListsTrash resourceId = none)
      (hTrash : findResource id env db.rolesTrash resourceId = some resource)
      (hRow : (resource, row) ∈ db.rolesTrash.rows) :
      Restored env resourceId db
        (removeTrashRole resource (roleInTable resource db.roles.next row db))
  | schedule {resource : Nat} {row : Schedule}
      (hPortList : findResource id env db.portListsTrash resourceId = none)
      (hRole : findResource id env db.rolesTrash resourceId = none)
      (hTrash : findResource Schedule.toResource env db.schedulesTrash resourceId = some resource)
      (hRow : (resource, row) ∈ db.schedulesTrash.rows) :
      Restored env resourceId db
        (removeTrashSchedule resource (scheduleInTable resource db.schedules.next row db))

/-- What restoring does; where it fails, the database stays. -/
theorem manageRestore_ok {env : Env} {resourceId : CString} {session after : Session Database}
    {code : Int} (h : manageRestore env resourceId session = .ok (code, after)) :
    after.begun = none ∧ (code = 0 → Restored env resourceId session.db after.db) ∧
      (code ≠ 0 → after.db = session.db) := by
  obtain ⟨-, h⟩ := beginImmediate_ok h
  dsimp only at h
  split at h
  · obtain ⟨rfl, hNone, hDb⟩ := rollback_ok rfl h
    exact ⟨hNone, fun hCode => absurd hCode (by decide), fun _ => hDb⟩
  split at h
  · rename_i resource hTrash
    split at h
    · obtain ⟨rfl, hNone, hDb⟩ := rollback_ok rfl h
      exact ⟨hNone, fun hCode => absurd hCode (by decide), fun _ => hDb⟩
    · obtain ⟨moved, hMoved, h⟩ := perform_ok h
      obtain ⟨rfl, hNone, hDb⟩ := commit_ok h
      obtain ⟨row, hRow, -⟩ := findResource_some hTrash
      obtain ⟨-, hMovedDb⟩ := untrashPortList_ok (by exact hRow) hMoved
      refine ⟨hNone, fun _ => ?_, fun hCode => absurd rfl hCode⟩
      rw [hDb, change, hMovedDb]
      exact .portList hTrash hRow
  rename_i hPortList
  split at h
  · rename_i resource hTrash
    split at h
    · obtain ⟨rfl, hNone, hDb⟩ := rollback_ok rfl h
      exact ⟨hNone, fun hCode => absurd hCode (by decide), fun _ => hDb⟩
    · obtain ⟨moved, hMoved, h⟩ := perform_ok h
      obtain ⟨rfl, hNone, hDb⟩ := commit_ok h
      obtain ⟨row, hRow, -⟩ := findResource_some hTrash
      obtain ⟨-, hMovedDb⟩ := untrashRole_ok (by exact hRow) hMoved
      refine ⟨hNone, fun _ => ?_, fun hCode => absurd rfl hCode⟩
      rw [hDb, change, hMovedDb]
      exact .role hPortList hTrash hRow
  rename_i hRole
  split at h
  · rename_i resource hTrash
    split at h
    · obtain ⟨rfl, hNone, hDb⟩ := rollback_ok rfl h
      exact ⟨hNone, fun hCode => absurd hCode (by decide), fun _ => hDb⟩
    · obtain ⟨rfl, hNone, hDb⟩ := commit_ok h
      obtain ⟨row, hRow, -⟩ := findResource_some hTrash
      refine ⟨hNone, fun _ => ?_, fun hCode => absurd rfl hCode⟩
      rw [hDb, change, untrashSchedule_db (by exact hRow)]
      exact .schedule hPortList hRole hTrash hRow
  · obtain ⟨rfl, hNone, hDb⟩ := rollback_ok rfl h
    exact ⟨hNone, fun hCode => absurd hCode (by decide), fun _ => hDb⟩

end Trashcan
