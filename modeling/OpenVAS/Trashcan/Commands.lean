import OpenVAS.Trashcan.Basic

/-! The commands that move resources to the trashcan and back. -/
namespace Trashcan

open CString Transaction

/-! Roles. -/

/-- `ROLE_UUID_ADMIN`, `ROLE_UUID_INFO`, `ROLE_UUID_USER` and `ROLE_UUID_OBSERVER`. -/
def predefinedRoles : List CString :=
  [lit "7a8cb5b4-b74d-11e2-8187-406186ea4fc5", lit "5f8fd16c-c550-11e3-b6ab-406186ea4fc5",
    lit "8d453140-b74d-11e2-b0be-406186ea4fc5", lit "87a7ebce-b74d-11e2-a81f-406186ea4fc5"]

/-- Whether the role is one of those that cannot be deleted. -/
def roleIsPredefined (db : Database) (role : Nat) : Bool :=
  db.roles.any fun number row => number = role && predefinedRoles.any (· = row.uuid)

/-- Inserts the role and its users. -/
def insertRole (env : Env) (name comment : CString) (users : List Nat)
    (session : Session Database) : Except Abort (Session Database) := do
  let db := session.db
  let rows : List Resource := [⟨env.makeUuid 0, env.user, name, comment, env.now, env.now⟩]
  let roles ← insertUnique (·.uuid) db.roles rows
  let role := lastInsertRowid db.roles rows session.lastInsert
  let members := users.map (RoleUser.mk role)
  return { session with
    db := { db with roles, roleUsers := db.roleUsers.insertAll members }
    lastInsert := lastInsertRowid db.roleUsers members role }

/-- `users` is what `add_users` makes of the names: an answer, or the users. -/
def createRole (env : Env) (name : CString) (comment : Option CString)
    (users : Except Int (List Nat)) : Command Database :=
  beginImmediate fun session =>
    if !env.userMay session.db (lit "create_role") then rollback 99 session
    else if session.db.roles.any fun _ row => row.name = name then rollback 1 session
    else
      match users with
      | .error code => rollback code session
      | .ok users => perform (insertRole env name (comment.getD []) users) (commit 0) session

/-- Copies a role into the trashcan. The users are copied with the old number of the
role. -/
def trashRole (role : Nat) (session : Session Database) : Except Abort (Session Database) := do
  let db := session.db
  let rows := (db.roles.get? role).toList
  let rolesTrash ← insertUnique (·.uuid) db.rolesTrash rows
  let trashRole := lastInsertRowid db.rolesTrash rows session.lastInsert
  let users := db.roleUsers.select (·.role = role)
  let db := { db with rolesTrash, roleUsersTrash := db.roleUsersTrash.insertAll users }
  return { session with
    db := permissionsSetSubjects .role role trashRole .trash
      (tagsSetLocations .role role trashRole .trash db)
    lastInsert := lastInsertRowid session.db.roleUsersTrash users trashRole }

/-- Whether a permission is given to a subject in a location. -/
def hasSubject (type : SubjectType) (subject : Nat) (location : Location) (row : Permission) :
    Bool :=
  row.subjectType = type && row.subject = subject && row.subjectLocation = location

/-- Removes the permissions of a role, and its tags point nowhere. -/
def dropRole (role : Nat) (location : Location) (db : Database) : Database :=
  tagsSetOrphans .role role location
    { db with
      permissions := db.permissions.delete fun _ row => hasSubject .role role location row
      permissionsTrash := db.permissionsTrash.delete fun _ row =>
        hasSubject .role role location row }

def removeTrashRole (role : Nat) (db : Database) : Database :=
  { db with
    rolesTrash := db.rolesTrash.delete fun number _ => number = role
    roleUsersTrash := db.roleUsersTrash.delete fun _ row => row.role = role }

def removeRole (role : Nat) (db : Database) : Database :=
  { db with
    roles := db.roles.delete fun number _ => number = role
    roleUsers := db.roleUsers.delete fun _ row => row.role = role }

/-- Applies changes without insertions. -/
def change (f : Database → Database) (session : Session Database) : Session Database :=
  { session with db := f session.db }

/-- A role is moved to the trashcan, or deleted from it or from its table for good. -/
def deleteRole (env : Env) (roleId : CString) (ultimate : Bool) : Command Database :=
  beginImmediate fun session =>
    if !env.userMay session.db (lit "delete_role") then rollback 99 session
    else
      match findResource id env session.db.roles roleId with
      | none =>
          match findResource id env session.db.rolesTrash roleId with
          | none => rollback 2 session
          | some role =>
              if !ultimate then commit 0 session
              else commit 0 (change (fun db => removeTrashRole role (dropRole role .trash db)) session)
      | some role =>
          if roleIsPredefined session.db role then rollback 3 session
          else if !ultimate then
            perform (trashRole role) (fun session => commit 0 (change (removeRole role) session)) session
          else commit 0 (change (fun db => removeRole role (dropRole role .table db)) session)

/-- Copies a role from the trashcan. The users are copied with the number in the
trashcan. -/
def untrashRole (resource : Nat) (session : Session Database) :
    Except Abort (Session Database) := do
  let db := session.db
  let rows := (db.rolesTrash.get? resource).toList
  let roles ← insertUnique (·.uuid) db.roles rows
  let role := lastInsertRowid db.roles rows session.lastInsert
  let users := db.roleUsersTrash.select (·.role = resource)
  let db := { db with roles, roleUsers := db.roleUsers.insertAll users }
  return { session with
    db := permissionsSetSubjects .role resource role .table
      (tagsSetLocations .role resource role .table
        (permissionsSetLocations .role resource role .table db))
    lastInsert := lastInsertRowid session.db.roleUsers users role }

/-! Port lists. -/

/-- The UUIDs of `port_list_is_predefined`. -/
def predefinedPortLists : List CString :=
  [lit "c7e03b6c-3bbe-11e1-a057-406186ea4fc5", lit "fd591a34-56fd-11e1-9f27-406186ea4fc5",
    lit "730ef368-57e2-11e1-a90f-406186ea4fc5", lit "9ddce1ae-57e7-11e1-b13c-406186ea4fc5",
    lit "492b72f4-56fe-11e1-98a7-406186ea4fc5", lit "5f2029f6-56fe-11e1-bb94-406186ea4fc5",
    lit "33d0cd82-57c6-11e1-8ed1-406186ea4fc5", lit "ab33f6b0-57f8-11e1-96f5-406186ea4fc5",
    lit "4a4717fe-57d2-11e1-9a26-406186ea4fc5"]

def portListIsPredefined (db : Database) (portList : Nat) : Bool :=
  db.portLists.any fun number row => number = portList && predefinedPortLists.any (· = row.uuid)

/-- Points the port list of a trashcan target to a new number. -/
def moveTarget (old new : Nat) (dest : Location) (row : TrashTarget) : TrashTarget :=
  if row.portRange = old ∧ row.portListLocation = dest.other then
    { row with portRange := new, portListLocation := dest }
  else row

/-- Copies a port list and its ranges into the trashcan. -/
def trashPortList (portList : Nat) (session : Session Database) :
    Except Abort (Session Database) := do
  let db := session.db
  let rows := (db.portLists.get? portList).toList
  let portListsTrash ← insertUnique (·.uuid) db.portListsTrash rows
  let trashPortList := lastInsertRowid db.portListsTrash rows session.lastInsert
  let ranges := (db.portRanges.select (·.portList = portList)).map fun row =>
    { row with portList := trashPortList }
  let portRangesTrash ← insertUnique (·.uuid) db.portRangesTrash ranges
  let db := { db with
    portListsTrash, portRangesTrash,
    targetsTrash := db.targetsTrash.update (moveTarget portList trashPortList .trash) }
  return { session with
    db := tagsSetLocations .portList portList trashPortList .trash
      (permissionsSetLocations .portList portList trashPortList .trash db)
    lastInsert := lastInsertRowid session.db.portRangesTrash ranges trashPortList }

/-- What refers to a resource that is deleted for good. -/
def setOrphans (type : ResourceType) (resource : Nat) (location : Location) (db : Database) :
    Database :=
  tagsSetOrphans type resource location (permissionsSetOrphans type resource location db)

def removeTrashPortList (portList : Nat) (db : Database) : Database :=
  { db with
    portListsTrash := db.portListsTrash.delete fun number _ => number = portList
    portRangesTrash := db.portRangesTrash.delete fun _ row => row.portList = portList }

def removePortList (portList : Nat) (db : Database) : Database :=
  { db with
    portLists := db.portLists.delete fun number _ => number = portList
    portRanges := db.portRanges.delete fun _ row => row.portList = portList }

/-- A port list is moved to the trashcan, or deleted for good. -/
def deletePortList (env : Env) (portListId : CString) (ultimate : Bool) : Command Database :=
  beginImmediate fun session =>
    if !env.userMay session.db (lit "delete_port_list") then rollback 99 session
    else
      match findResourceWithPermission id env session.db .portList session.db.portLists portListId
        (lit "delete_port_list") with
      | none =>
          match findResource id env session.db.portListsTrash portListId with
          | none => rollback 2 session
          | some portList =>
              if !ultimate then commit 0 session
              else if session.db.targetsTrash.any fun _ row =>
                row.portRange = portList && row.portListLocation = .trash then rollback 1 session
              else commit 0 (change (fun db => removeTrashPortList portList
                (setOrphans .portList portList .trash db)) session)
      | some portList =>
          if portListIsPredefined session.db portList then rollback 3 session
          else if session.db.targets.any fun _ row => row.portRange = portList then
            rollback 1 session
          else if !ultimate then
            perform (trashPortList portList)
              (fun session => commit 0 (change (removePortList portList) session)) session
          else
            commit 0 (change (fun db => removePortList portList
              (setOrphans .portList portList .table db)) session)

/-- Copies a port list and its ranges from the trashcan. The permissions are pointed to
the new number, the tags to the number of the last insertion. -/
def untrashPortList (resource : Nat) (session : Session Database) :
    Except Abort (Session Database) := do
  let db := session.db
  let rows := (db.portListsTrash.get? resource).toList
  let portLists ← insertUnique (·.uuid) db.portLists rows
  let tablePortList := lastInsertRowid db.portLists rows session.lastInsert
  let ranges := (db.portRangesTrash.select (·.portList = resource)).map fun row =>
    { row with portList := tablePortList }
  let portRanges ← insertUnique (·.uuid) db.portRanges ranges
  let last := lastInsertRowid db.portRanges ranges tablePortList
  let db := { db with
    portLists, portRanges,
    targetsTrash := db.targetsTrash.update (moveTarget resource tablePortList .table) }
  return { session with
    db := tagsSetLocations .portList resource last .table
      (permissionsSetLocations .portList resource tablePortList .table db)
    lastInsert := last }

/-! Schedules. -/

/-- Points the schedule of a task to a new number. -/
def moveTask (old new : Nat) (dest : Location) (row : Task) : Task :=
  if row.schedule = old ∧ row.scheduleLocation = dest.other then
    { row with schedule := new, scheduleLocation := dest }
  else row

/-- Points everything that refers to a schedule to a new number. -/
def moveSchedule (old new : Nat) (dest : Location) (db : Database) : Database :=
  tagsSetLocations .schedule old new dest
    (permissionsSetLocations .schedule old new dest
      { db with tasks := db.tasks.update (moveTask old new dest) })

/-- A schedule gets a row in the trashcan, and what refers to it follows. -/
def trashSchedule (schedule : Nat) (session : Session Database) : Session Database :=
  let db := session.db
  let rows := (db.schedules.get? schedule).toList
  let last := lastInsertRowid db.schedulesTrash rows session.lastInsert
  { session with
    db := moveSchedule schedule last .trash
      { db with schedulesTrash := db.schedulesTrash.insertAll rows }
    lastInsert := last }

def removeTrashSchedule (schedule : Nat) (db : Database) : Database :=
  { db with schedulesTrash := db.schedulesTrash.delete fun number _ => number = schedule }

def removeSchedule (schedule : Nat) (db : Database) : Database :=
  { db with schedules := db.schedules.delete fun number _ => number = schedule }

/-- A schedule is moved to the trashcan, or deleted for good. -/
def deleteSchedule (env : Env) (scheduleId : CString) (ultimate : Bool) : Command Database :=
  beginImmediate fun session =>
    if !env.userMay session.db (lit "delete_schedule") then rollback 99 session
    else
      match findResourceWithPermission Schedule.toResource env session.db .schedule
        session.db.schedules scheduleId (lit "delete_schedule") with
      | none =>
          match findResource Schedule.toResource env session.db.schedulesTrash scheduleId with
          | none => rollback 2 session
          | some schedule =>
              if !ultimate then commit 0 session
              else if session.db.tasks.any fun _ row =>
                row.schedule = schedule && row.scheduleLocation = .trash then rollback 1 session
              else commit 0 (change (fun db => removeTrashSchedule schedule
                (setOrphans .schedule schedule .trash db)) session)
      | some schedule =>
          if !ultimate then
            if session.db.tasks.any fun _ row => row.schedule = schedule &&
              row.scheduleLocation = .table && (row.hidden = 0 || row.hidden = 1) then
              rollback 1 session
            else commit 0 (change (removeSchedule schedule) (trashSchedule schedule session))
          else if session.db.tasks.any fun _ row =>
            row.schedule = schedule && row.scheduleLocation = .table then rollback 1 session
          else commit 0 (change (fun db => removeSchedule schedule
            (setOrphans .schedule schedule .table db)) session)

/-- A schedule gets a row in its table again. -/
def untrashSchedule (resource : Nat) (session : Session Database) : Session Database :=
  let db := session.db
  let rows := (db.schedulesTrash.get? resource).toList
  let last := lastInsertRowid db.schedules rows session.lastInsert
  { session with
    db := moveSchedule resource last .table
      { db with schedules := db.schedules.insertAll rows }
    lastInsert := last }

/-! Restoring. -/

/-- A resource is brought back: port lists are searched first, then roles, then schedules. -/
def manageRestore (env : Env) (resourceId : CString) : Command Database :=
  beginImmediate fun session =>
    let db := session.db
    if !env.userMay db (lit "restore") then rollback 99 session
    else
      match findResource id env db.portListsTrash resourceId with
      | some resource =>
          if nameUsed id env db.portLists ((db.portListsTrash.get? resource).map (·.name)) then
            rollback 3 session
          else
            perform (untrashPortList resource)
              (fun session => commit 0 (change (removeTrashPortList resource) session)) session
      | none =>
          match findResource id env db.rolesTrash resourceId with
          | some resource =>
              if nameUsed id env db.roles ((db.rolesTrash.get? resource).map (·.name)) then
                rollback 3 session
              else
                perform (untrashRole resource)
                  (fun session => commit 0 (change (removeTrashRole resource) session)) session
          | none =>
              match findResource Schedule.toResource env db.schedulesTrash resourceId with
              | some resource =>
                  if nameUsed Schedule.toResource env db.schedules
                    ((db.schedulesTrash.get? resource).map (·.name)) then rollback 3 session
                  else
                    commit 0 (change (removeTrashSchedule resource)
                      (untrashSchedule resource session))
              | none => rollback 2 session

end Trashcan
