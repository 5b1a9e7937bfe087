import OpenVAS.Trashcan.Basic

/-! The access rules of `manage_acl.c`: who owns a resource, who may see one resource by its
UUID, and which rows of a table a list shows. -/
namespace Acl

open CString
open Trashcan (Location SubjectType)

/-- The types for which the access functions are called. -/
inductive ResourceType where
  | agent
  | alert
  | config
  | filter
  | group
  | lscCredential
  | note
  | override
  | permission
  | portList
  | report
  | reportFormat
  | result
  | role
  | schedule
  | slave
  | tag
  | target
  | task
  | user
  | nvt
  | cve
  | cpe
  | ovaldef
  | dfnCertAdv
  deriving DecidableEq, Repr

/-- The types of information that comes with feeds. -/
def ResourceType.isInfo (type : ResourceType) : Bool :=
  type = .nvt || type = .cve || type = .cpe || type = .ovaldef || type = .dfnCertAdv

/-- Whether the table of a type has a column for the owner. -/
def ResourceType.hasOwner (type : ResourceType) : Bool := !type.isInfo && type ≠ .result

/-- What the conditions read of a row: `hidden` is a column of tasks, and `task` one of
reports and results. -/
structure Row where
  uuid : CString
  owner : Option Nat
  hidden : Nat
  task : Nat
  deriving DecidableEq

structure User where
  uuid : CString
  name : CString
  deriving DecidableEq

/-- A permission on a command has no resource; its columns are then 0 and empty. -/
structure Permission where
  uuid : CString
  owner : Option Nat
  name : CString
  resourceType : Option ResourceType
  resource : Nat
  resourceUuid : CString
  resourceLocation : Location
  subjectType : SubjectType
  subject : Nat
  subjectLocation : Location
  deriving DecidableEq

/-- Groups and roles are pairs with their users, and report results pairs of a report and a
result. The table of permissions has a record of its own. -/
structure Database where
  users : Table User
  groupUsers : List (Nat × Nat)
  roleUsers : List (Nat × Nat)
  permissions : Table Permission
  tables : ResourceType → Location → Table Row
  reportResults : List (Nat × Nat)

namespace Database

/-- Tasks stay in their table when they are in the trashcan. -/
def location (type : ResourceType) (trash : Bool) : Location :=
  if type ≠ .task && trash then .trash else .table

/-- The table of a type, or its trashcan. -/
def table (db : Database) (type : ResourceType) (trash : Bool) : Table Row :=
  db.tables type (location type trash)

/-- `(SELECT ROWID FROM users WHERE users.uuid = '...')` -/
def userRow (db : Database) (user : CString) : Option Nat := db.users.find? (·.uuid = user)

/-- The condition on the subject of a permission, which four statements share. -/
def isSubject (db : Database) (user : CString) (permission : Permission) : Bool :=
  permission.subjectLocation = .table &&
    match permission.subjectType with
    | .user => db.userRow user = some permission.subject
    | .group => db.groupUsers.any fun row =>
        row.1 = permission.subject && db.userRow user = some row.2
    | .role => db.roleUsers.any fun row =>
        row.1 = permission.subject && db.userRow user = some row.2

/-- `(owner IS NULL) OR (owner = (SELECT ... ))` -/
def owns (db : Database) (user : CString) (owner : Option Nat) : Bool :=
  match owner with
  | none => true
  | some number => db.userRow user = some number

end Database

/-! One resource. -/

/-- Whether the user has the permission `Everything`. -/
def userCanEverything (db : Database) (user : CString) : Bool :=
  db.permissions.any fun _ permission =>
    permission.resource = 0 && db.isSubject user permission && permission.name = lit "Everything"

/-- Whether the user owns the report of the result. -/
def userOwnsResult (db : Database) (user uuid : CString) : Bool :=
  (db.table .result false).any fun result row =>
    row.uuid = uuid && db.reportResults.any fun link =>
      link.2 = result && (db.table .report false).any fun report row =>
        report = link.1 && db.owns user row.owner

/-- Whether the user owns the resource, in the table or in its trashcan. -/
def userOwnsUuid (db : Database) (user : CString) (type : ResourceType) (uuid : CString)
    (trash : Bool) : Bool :=
  if type = .result then userOwnsResult db user uuid
  else if type.isInfo then true
  else
    (db.table type trash).any fun _ row =>
      row.uuid = uuid &&
        (if type ≠ .task then true else if trash then row.hidden = 2 else row.hidden < 2) &&
        db.owns user row.owner

/-- Any permission implies that the resource may be read. -/
def isGet : Option CString → Bool
  | none => true
  | some permission => 3 < permission.length && permission.take 3 = lit "get"

/-- The UUID of a task, or the text that stands for it where there is none. -/
def taskUuid (db : Database) (task : Nat) (uuid : CString) : CString :=
  (((db.table .task false).get? task).map (·.uuid)).getD uuid

/-- The last query of `user_has_access_uuid`. -/
def hasPermission (db : Database) (user uuid : CString) (name : Option CString) : Bool :=
  db.permissions.any fun _ permission =>
    permission.resourceUuid = uuid && db.isSubject user permission &&
      (isGet name || permission.name = name.getD [])

/-- Whether the number that is returned is not zero. -/
def userHasAccessUuid (db : Database) (user : CString) (type : ResourceType) (uuid : CString)
    (permission : Option CString) (trash : Bool) : Bool :=
  if userOwnsUuid db user type uuid trash then true
  -- For simplicity, trashcan items are visible only to their owners.
  else if trash then false
  else
    match type with
    | .report =>
        match (db.table .report false).find? (·.uuid = uuid) with
        | none => false
        | some report =>
            let task := (((db.table .report false).get? report).map (·.task)).getD 0
            if task = 0 then false
            else hasPermission db user (taskUuid db task uuid) permission
    | .result =>
        match (db.table .result false).find? (·.uuid = uuid) with
        | none => false
        | some result =>
            let task := (((db.table .result false).get? result).map (·.task)).getD 0
            hasPermission db user (taskUuid db task uuid) permission
    | .permission =>
        if isGet permission then
          db.permissions.any fun _ row =>
            (row.resourceUuid = uuid || row.uuid = uuid) && db.isSubject user row
        else userCanEverything db user
    | _ => hasPermission db user uuid permission

/-! Lists. -/

/-- The clause for the permissions of a filter; they are written into it between apostrophes,
and this is what the clause means for permissions without apostrophes. -/
def permissionClause (db : Database) (user : CString) (type : ResourceType) (trash : Bool)
    (permissions : List CString) (number : Nat) (row : Row) : Bool :=
  let named (permission : Permission) : Bool :=
    permissions.any (strcaseeq · (lit "any")) || permissions.any (permission.name = ·)
  (db.permissions.any fun _ permission =>
    permission.resource = number && permission.resourceType = some type &&
      permission.resourceLocation = (if trash then .trash else .table) &&
      db.isSubject user permission && named permission) ||
  (type = .report && db.permissions.any fun _ permission =>
    permission.resource = row.task && permission.resourceType = some .task &&
      db.isSubject user permission && named permission)

/-- The part of `where_owned` before the owner filter, for a current user and no resource. -/
def ownedClause (db : Database) (user : CString) (type : ResourceType) (trash : Bool)
    (permissions : List CString) (number : Nat) (row : Row) : Bool :=
  -- Without permissions in the filter only owned and global resources are listed.
  let permitted := !permissions.isEmpty &&
    permissionClause db user type trash permissions number row
  if trash && type = .task then
    row.hidden = 2 && (db.owns user row.owner || permitted)
  else if trash then db.owns user row.owner || permitted
  else if type = .permission then
    (row.owner.isSome && db.owns user row.owner) ||
      (db.permissions.get? number).any (fun permission =>
        (userCanEverything db user && permission.resource = 0) || db.isSubject user permission) ||
      permitted
  else db.owns user row.owner || permitted

/-- Whether a row meets the condition that `where_owned` returns; the statement fails where it
asks for the owner of a row that has no such column. A missing user is printed as `(null)`. -/
def whereOwned (db : Database) (user : Option CString) (type : ResourceType) (trash owned : Bool)
    (ownerFilter : Option CString) (resource : Nat) (permissions : List CString) (number : Nat)
    (row : Row) : Option Bool :=
  if !owned then some true
  else
    let clause :=
      match user with
      | none => some true
      | some user =>
          if resource ≠ 0 then some true
          else if type.hasOwner then some (ownedClause db user type trash permissions number row)
          else none
    match ownerFilter with
    | none =>
        if type.hasOwner then
          clause.map (db.owns (user.getD (lit "(null)")) row.owner && ·)
        else none
    | some name =>
        if name = lit "any" then clause
        else if type.hasOwner then
          clause.map ((row.owner.isSome && db.users.find? (·.name = name) = row.owner) && ·)
        else none

end Acl
