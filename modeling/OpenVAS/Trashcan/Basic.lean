import OpenVAS.Lib.CString
import OpenVAS.Lib.Table
import OpenVAS.Lib.Transaction

/-! The database of the manager, as far as the trashcan reaches: resources are moved
between a table and its trashcan, where they get another row number, and the rows that
refer to them are pointed to the new number. -/
namespace Trashcan

open Transaction

/-- Whether a resource is in its table or in the trashcan, `LOCATION_TABLE` or `LOCATION_TRASH`.
-/
inductive Location where
  | table
  | trash
  deriving DecidableEq, Repr

/-- The other place. -/
def Location.other : Location → Location
  | .table => .trash
  | .trash => .table

/-- The types of resources that are modelled by their rows, and the rest. -/
inductive ResourceType where
  | portList
  | role
  | schedule
  | other (name : CString)
  deriving DecidableEq, Repr

inductive SubjectType where
  | user
  | group
  | role
  deriving DecidableEq, Repr

/-- What every resource has. The owner is the row number of a user, or missing. -/
structure Resource where
  uuid : CString
  owner : Option Nat
  name : CString
  comment : CString
  creationTime : Int
  modificationTime : Int
  deriving DecidableEq

/-- A row of `schedules`. -/
structure Schedule extends Resource where
  firstTime : Int
  period : Int
  periodMonths : Int
  duration : Int
  timezone : CString
  initialOffset : Int
  deriving DecidableEq

/-- A row of `role_users`. -/
structure RoleUser where
  role : Nat
  user : Nat
  deriving DecidableEq

/-- `PORT_PROTOCOL_TCP`, `PORT_PROTOCOL_UDP` and `PORT_PROTOCOL_OTHER`. -/
inductive PortProtocol where
  | tcp
  | udp
  | other
  deriving DecidableEq, Repr

/-- A row of `port_ranges`; `stop` is the column `end`. -/
structure PortRange where
  uuid : CString
  portList : Nat
  type : PortProtocol
  start : Int
  stop : Int
  comment : CString
  exclude : Bool
  deriving DecidableEq

/-- The port list of a target is in its column `port_range`. -/
structure Target where
  portRange : Nat
  deriving DecidableEq

structure TrashTarget where
  owner : Option Nat
  portRange : Nat
  portListLocation : Location
  deriving DecidableEq

/-- The task is in the trashcan when `hidden` is 2. -/
structure Task where
  owner : Option Nat
  hidden : Nat
  schedule : Nat
  scheduleLocation : Location
  deriving DecidableEq

/-- A row of `permissions`. -/
structure Permission where
  uuid : CString
  name : CString
  resourceType : ResourceType
  resource : Int
  resourceLocation : Location
  subjectType : SubjectType
  subject : Nat
  subjectLocation : Location
  deriving DecidableEq

/-- A row of `tags`. -/
structure Tag where
  uuid : CString
  owner : Option Nat
  name : CString
  comment : CString
  creationTime : Int
  modificationTime : Int
  resourceType : ResourceType
  resource : Int
  resourceUuid : CString
  resourceLocation : Location
  active : Bool
  value : CString
  deriving DecidableEq

/-- The trashcan tables of the other types, whose rows are modelled by their owner. -/
inductive Bin where
  | agents
  | configs
  | alerts
  | filters
  | groups
  | lscCredentials
  | notes
  | overrides
  | reportFormats
  | slaves
  deriving DecidableEq, Repr

/-- The tables of what belongs to a row of another trashcan table, whose rows are
modelled by the number of that row. -/
inductive BinChild where
  | groupUsers
  | configPreferences
  | alertConditionData
  | alertEventData
  | alertMethodData
  | reportFormatParams
  | reportFormatParamOptions
  deriving DecidableEq, Repr

structure Database where
  roles : Table Resource
  rolesTrash : Table Resource
  roleUsers : Table RoleUser
  roleUsersTrash : Table RoleUser
  portLists : Table Resource
  portListsTrash : Table Resource
  portRanges : Table PortRange
  portRangesTrash : Table PortRange
  schedules : Table Schedule
  schedulesTrash : Table Schedule
  targets : Table Target
  targetsTrash : Table TrashTarget
  tasks : Table Task
  permissions : Table Permission
  permissionsTrash : Table Permission
  tags : Table Tag
  tagsTrash : Table Tag
  bins : Bin → Table (Option Nat)
  binChildren : BinChild → Table Nat

/-- What a command finds around the database. -/
structure Env where
  /-- The row number of the current user. -/
  user : Option Nat
  userMay : Database → CString → Bool
  /-- What the permissions of the user allow beyond what the user owns. -/
  granted : Database → ResourceType → CString → CString → Bool
  now : Int
  /-- The UUIDs that are made, one after the other. -/
  makeUuid : Nat → CString

/-- `(owner IS NULL) OR (owner = ...)` for the current user. -/
def Env.owns (env : Env) (owner : Option Nat) : Bool :=
  owner.isNone || (env.user.isSome && owner = env.user)

section Finding

variable {Row : Type} (view : Row → Resource)

/-- `user_owns_uuid`, in the table that holds the type. -/
def userOwnsUuid (env : Env) (table : Table Row) (uuid : CString) : Bool :=
  table.any fun _ row => (view row).uuid = uuid && env.owns (view row).owner

/-- `find_resource`, and `find_trash` for a table of the trashcan. -/
def findResource (env : Env) (table : Table Row) (uuid : CString) : Option Nat :=
  if userOwnsUuid view env table uuid then table.find? fun row => (view row).uuid = uuid
  else none

/-- `find_resource_with_permission`, for a resource that is not in the trashcan. -/
def findResourceWithPermission (env : Env) (db : Database) (type : ResourceType)
    (table : Table Row) (uuid permission : CString) : Option Nat :=
  if userOwnsUuid view env table uuid || env.granted db type uuid permission then
    table.find? fun row => (view row).uuid = uuid
  else none

/-- Whether the name of a trashcan row is used by a resource that the user owns or that
everybody has. -/
def nameUsed (env : Env) (table : Table Row) (name : Option CString) : Bool :=
  table.any fun _ row => name = some (view row).name && env.owns (view row).owner

end Finding

/-- Points the rows of an old number in one place to a new number in the other. -/
def movePermission (type : ResourceType) (old new : Nat) (dest : Location) (row : Permission) :
    Permission :=
  if row.resourceType = type ∧ row.resource = old ∧ row.resourceLocation = dest.other then
    { row with resourceLocation := dest, resource := new }
  else row

/-- The permissions on a resource follow it to its new number. -/
def permissionsSetLocations (type : ResourceType) (old new : Nat) (dest : Location) (db : Database) :
    Database :=
  { db with
    permissions := db.permissions.update (movePermission type old new dest)
    permissionsTrash := db.permissionsTrash.update (movePermission type old new dest) }

def orphanPermission (type : ResourceType) (resource : Nat) (location : Location)
    (row : Permission) : Permission :=
  if row.resourceType = type ∧ row.resource = resource ∧ row.resourceLocation = location then
    { row with resource := -1 }
  else row

/-- The permissions on a resource lose it. -/
def permissionsSetOrphans (type : ResourceType) (resource : Nat) (location : Location)
    (db : Database) : Database :=
  { db with
    permissions := db.permissions.update (orphanPermission type resource location)
    permissionsTrash := db.permissionsTrash.update (orphanPermission type resource location) }

def moveSubject (type : SubjectType) (old new : Nat) (dest : Location) (row : Permission) :
    Permission :=
  if row.subjectLocation = dest.other ∧ row.subjectType = type ∧ row.subject = old then
    { row with subjectLocation := dest, subject := new }
  else row

/-- The permissions of a subject follow it to its new number. -/
def permissionsSetSubjects (type : SubjectType) (old new : Nat) (dest : Location) (db : Database) :
    Database :=
  { db with
    permissions := db.permissions.update (moveSubject type old new dest)
    permissionsTrash := db.permissionsTrash.update (moveSubject type old new dest) }

def moveTag (type : ResourceType) (old new : Nat) (dest : Location) (row : Tag) : Tag :=
  if row.resourceType = type ∧ row.resource = old ∧ row.resourceLocation = dest.other then
    { row with resourceLocation := dest, resource := new }
  else row

/-- The tags of a resource follow it to its new number. -/
def tagsSetLocations (type : ResourceType) (old new : Nat) (dest : Location) (db : Database) :
    Database :=
  { db with
    tags := db.tags.update (moveTag type old new dest)
    tagsTrash := db.tagsTrash.update (moveTag type old new dest) }

def orphanTag (type : ResourceType) (resource : Nat) (location : Location) (row : Tag) : Tag :=
  if row.resourceType = type ∧ row.resource = resource ∧ row.resourceLocation = location then
    { row with resource := 0, resourceLocation := .table }
  else row

/-- The tags of a resource lose it. -/
def tagsSetOrphans (type : ResourceType) (resource : Nat) (location : Location) (db : Database) :
    Database :=
  { db with
    tags := db.tags.update (orphanTag type resource location)
    tagsTrash := db.tagsTrash.update (orphanTag type resource location) }

section Inserting

variable {Row : Type}

/-- `INSERT INTO ... SELECT` for a table with a `UNIQUE` column. -/
def insertUnique (uuid : Row → CString) (table : Table Row) (rows : List Row) :
    Except Abort (Table Row) :=
  if (rows.map uuid).Nodup ∧ rows.all (fun row => !table.any fun _ old => uuid old = uuid row) then
    .ok (table.insertAll rows)
  else .error .constraint

/-- `sqlite3_last_insert_rowid` after an insertion of rows. -/
def lastInsertRowid (table : Table Row) (rows : List Row) (before : Nat) : Nat :=
  if rows.isEmpty then before else table.next + rows.length - 1

end Inserting

end Trashcan
