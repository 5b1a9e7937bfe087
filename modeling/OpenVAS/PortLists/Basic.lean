import Mathlib.Data.List.Sort
import OpenVAS.Ports.Lists
import OpenVAS.Trashcan.Commands

/-! The commands on port lists and their ranges. -/
namespace PortLists

open CString Transaction Trashcan

/-! Ranges. -/

/-- `range_t` without its comment and id; `stop` is the field `end`. -/
structure Range where
  type : PortProtocol
  start : Int
  stop : Int
  exclude : Bool
  deriving DecidableEq

/-- The number of the protocol in the enumeration. -/
def typeNumber : PortProtocol → Nat
  | .tcp => 0
  | .udp => 1
  | .other => 2

def rangeCompare (one two : Range) : Int :=
  if typeNumber one.type > typeNumber two.type then 1
  else if typeNumber one.type < typeNumber two.type then -1
  else if one.start > two.start then 1
  else if one.start < two.start then -1
  else 0

/-- The loop of `ranges_sort_merge` behind the first range. -/
def mergeRanges (last : Range) : List Range → List Range
  | [] => [last]
  | range :: rest =>
      if range.type = last.type ∧ range.start ≤ last.stop then
        mergeRanges (if range.stop > last.stop then { last with stop := range.stop } else last) rest
      else last :: mergeRanges range rest

def rangesSortMerge (ranges : List Range) : List Range :=
  if 1 < ranges.length then
    match ranges.insertionSort fun one two => rangeCompare one two ≤ 0 with
    | [] => []
    | first :: rest => mergeRanges first rest
  else ranges

/-- A range that `port_range_ranges` has read. -/
def ofText (range : Ports.PortRange) : Range where
  type := match range.type with
    | .tcp => .tcp
    | .udp => .udp
  start := range.start.toInt
  stop := range.stop.toInt
  exclude := range.exclude

/-- The rows of ranges in a list, with the UUIDs that are made from a number on. -/
def rangeRows (env : Env) (first portList : Nat) (ranges : List Range) : List PortRange :=
  ranges.mapIdx fun i range =>
    ⟨env.makeUuid (first + i), portList, range.type, range.start, range.stop, [], range.exclude⟩

/-! Names. -/

/-- The first name that is not used, of at most `fuel` names and the one behind them. -/
def firstUnused (used : CString → Bool) (candidate : Nat → CString) : Nat → Nat → CString
  | 0, number => candidate number
  | fuel + 1, number =>
      if used (candidate number) then firstUnused used candidate fuel (number + 1)
      else candidate number

/-- The name, or the name with a number behind it. -/
def numbered (name : CString) : Nat → CString
  | 0 => name
  | number + 1 => name ++ ch ' ' :: showNat (number + 1)

/-- The loop of `create_port_list` that makes the name unique. One candidate more than there are
rows is enough. -/
def uniqueName (env : Env) (table : Table Resource) (name : CString) : CString :=
  firstUnused (fun name => nameUsed id env table (some name)) (numbered name) table.rows.length 0

/-- `uniquify` for a clone. -/
def uniquify (env : Env) (table : Table Resource) (name : CString) : CString :=
  firstUnused (fun name => nameUsed id env table (some name)) (numbered (name ++ lit " Clone"))
    table.rows.length 1

/-! Creating. -/

/-- `create_port_list_lock`. -/
def createPortListLock (env : Env) (uuid name comment : CString) (ranges : List Range)
    (session : Session Database) : Except Abort (Session Database) := do
  let db := session.db
  let rows : List Resource := [⟨uuid, env.user, name, comment, env.now, env.now⟩]
  let portLists ← insertUnique (·.uuid) db.portLists rows
  let portList := lastInsertRowid db.portLists rows session.lastInsert
  let ranges := rangeRows env 1 portList (rangesSortMerge ranges)
  let portRanges ← insertUnique (·.uuid) db.portRanges ranges
  return { session with
    db := { db with portLists, portRanges }
    lastInsert := lastInsertRowid db.portRanges ranges portList }

/-- Inserts a port list with the ranges of `make_port_ranges_openvas_default`. -/
def createDefault (env : Env) (name comment : CString) (defaults : List Range)
    (session : Session Database) : Except Abort (Session Database) := do
  let db := session.db
  let rows : List Resource := [⟨env.makeUuid 0, env.user, name, comment, env.now, env.now⟩]
  let portLists ← insertUnique (·.uuid) db.portLists rows
  let portList := lastInsertRowid db.portLists rows session.lastInsert
  let ranges := rangeRows env 1 portList defaults
  let portRanges ← insertUnique (·.uuid) db.portRanges ranges
  return { session with
    db := { db with portLists, portRanges }
    lastInsert := lastInsertRowid db.portRanges ranges portList }

/-- `create_port_list` with ranges. -/
def importPortList (env : Env) (portListId : Option CString) (name : CString)
    (comment : Option CString) (ranges : List Range) : Command Database :=
  match portListId with
  | none => answer (-1)
  | some portListId =>
      beginImmediate fun session =>
        let db := session.db
        if !env.userMay db (lit "create_port_list") then rollback 99 session
        else if userOwnsUuid id env db.portLists portListId then rollback 1 session
        else if userOwnsUuid id env db.portListsTrash portListId then rollback 2 session
        else
          perform (createPortListLock env portListId (uniqueName env db.portLists name)
            (comment.getD []) ranges) (commit 0) session

/-- The ranges of a port range text that was validated. -/
def createFromText (env : Env) (name comment portRanges : CString) (session : Session Database) :
    Except Abort (Session Database) :=
  match Ports.portRangeRanges portRanges with
  | none => .error .assertion
  | some ranges => createPortListLock env (env.makeUuid 0) name comment (ranges.map ofText) session

/-- `create_port_list` without ranges; `defaults` are the ranges of the word default. -/
def describePortList (env : Env) (name : CString) (comment : Option CString)
    (portRanges : Option CString) (defaults : List Range) : Command Database :=
  let portRanges := portRanges.getD (lit "default")
  if !Ports.validatePortRange (some portRanges) then answer 4
  else
    beginImmediate fun session =>
      if !env.userMay session.db (lit "create_port_list") then rollback 99 session
      else if nameUsed id env session.db.portLists (some name) then rollback 1 session
      else if portRanges = lit "default" then
        perform (createDefault env name (comment.getD []) defaults) (commit 0) session
      else perform (createFromText env name (comment.getD []) portRanges) (commit 0) session

def createPortList (env : Env) (portListId : Option CString) (name : CString)
    (comment portRanges : Option CString) (ranges : Option (List Range)) (defaults : List Range) :
    Command Database :=
  match ranges with
  | some ranges => importPortList env portListId name comment ranges
  | none => describePortList env name comment portRanges defaults

/-- `port_list_in_use`. -/
def portListInUse (db : Database) (portList : Nat) : Bool :=
  portListIsPredefined db portList || db.targets.any fun _ row => row.portRange = portList

/-- Whether a new range meets a range of the same list and protocol. -/
def rangeMeets (portList : Nat) (type : PortProtocol) (first last : Int) (row : PortRange) : Bool :=
  row.portList = portList && row.type = type &&
    ((row.start ≤ first && row.stop ≥ first) || (row.start ≤ last && row.stop ≥ last) ||
      (row.start ≥ first && row.start ≤ last) || (row.stop ≥ first && row.stop ≤ last))

/-- Inserts one range. The comment is not stored. -/
def insertRange (env : Env) (portList : Nat) (type : PortProtocol) (first last : Int)
    (session : Session Database) : Except Abort (Session Database) := do
  let db := session.db
  let rows := rangeRows env 0 portList [⟨type, first, last, false⟩]
  let portRanges ← insertUnique (·.uuid) db.portRanges rows
  return { session with
    db := { db with portRanges }
    lastInsert := lastInsertRowid db.portRanges rows session.lastInsert }

/-- The transaction of `create_port_range`, with `first` before `last`. -/
def addPortRange (env : Env) (portListId : CString) (type : PortProtocol) (first last : Int) :
    Command Database :=
  beginImmediate fun session =>
    let db := session.db
    if !env.userMay db (lit "create_port_range") then rollback 99 session
    else
      match findResource id env db.portLists portListId with
      | none => rollback 3 session
      | some portList =>
          if portListInUse db portList then rollback 5 session
          else if db.portRanges.any fun _ row => rangeMeets portList type first last row then
            rollback 6 session
          else perform (insertRange env portList type first last) (commit 0) session

def createPortRange (env : Env) (portListId type start stop : CString) : Command Database :=
  let first := (atoi start).toInt
  let last := (atoi stop).toInt
  if first < 1 ∨ 65535 < first then answer 1
  else if last < 1 ∨ 65535 < last then answer 2
  else if strcaseeq type (lit "TCP") then
    addPortRange env portListId .tcp (min first last) (max first last)
  else if strcaseeq type (lit "UDP") then
    addPortRange env portListId .udp (min first last) (max first last)
  else answer 4

/-! Changing. -/

/-- `UPDATE port_lists SET ... WHERE ROWID = `. -/
def renameRow (env : Env) (name comment : CString) (row : Resource) : Resource :=
  { row with name, comment, modificationTime := env.now }

def modifyPortList (env : Env) (portListId name comment : Option CString) : Command Database :=
  match portListId with
  | none => answer 3
  | some portListId =>
      beginImmediate fun session =>
        let db := session.db
        if !env.userMay db (lit "modify_port_list") then rollback 99 session
        else
          match findResourceWithPermission id env db .portList db.portLists portListId
            (lit "modify_port_list") with
          | none => rollback 1 session
          | some portList =>
              if db.portLists.any fun number row => name = some row.name && number ≠ portList &&
                env.owns row.owner then rollback 2 session
              else
                commit 0 (change (fun db => { db with
                  portLists := db.portLists.updateAt portList
                    (renameRow env (name.getD []) (comment.getD [])) }) session)

/-! Copying. -/

/-- The row that `copy_resource_lock` makes of a row. -/
def cloneRow (env : Env) (table : Table Resource) (name comment : Option CString) (i : Nat)
    (row : Resource) : Resource :=
  ⟨env.makeUuid i, env.user, name.getD (uniquify env table row.name), comment.getD row.comment,
    env.now, env.now⟩

def cloneTag (env : Env) (first new : Nat) (resourceUuid : CString) (i : Nat) (row : Tag) : Tag :=
  { row with
    uuid := env.makeUuid (first + i), owner := env.user, creationTime := env.now,
    modificationTime := env.now, resource := new, resourceUuid }

def cloneRange (env : Env) (first new : Nat) (i : Nat) (row : PortRange) : PortRange :=
  { row with uuid := env.makeUuid (first + i), portList := new }

/-- The text, if it is not empty. -/
def nonEmpty (text : Option CString) : Option CString := text.filter (· ≠ [])

/-- What `copy_resource_lock` leaves: the session, the number of the copy, and how many
UUIDs were made. -/
structure Copied where
  session : Session Database
  new : Nat
  made : Nat

/-- The insertions of `copy_resource_lock` for a port list. -/
def copyRows (env : Env) (name comment : Option CString) (portListId : CString) (old : Nat)
    (session : Session Database) : Except Abort Copied := do
  let db := session.db
  let rows := (db.portLists.select (·.uuid = portListId)).mapIdx
    (cloneRow env db.portLists name comment)
  let portLists ← insertUnique (·.uuid) db.portLists rows
  let new := lastInsertRowid db.portLists rows session.lastInsert
  let tags := (db.tags.select fun row => row.resourceType = .portList && row.resource = old &&
    row.resourceLocation = .table).mapIdx
      (cloneTag env rows.length new (((portLists.get? new).map (·.uuid)).getD []))
  let tagTable ← insertUnique (·.uuid) db.tags tags
  return {
    session := { session with
      db := { db with portLists, tags := tagTable }
      lastInsert := lastInsertRowid db.tags tags new }
    new
    made := rows.length + tags.length }

/-- Copies the ranges of a list. -/
def copyRanges (env : Env) (first old new : Nat) (session : Session Database) :
    Except Abort (Session Database) := do
  let db := session.db
  let ranges := (db.portRanges.select (·.portList = old)).mapIdx (cloneRange env first new)
  let portRanges ← insertUnique (·.uuid) db.portRanges ranges
  return { session with
    db := { db with portRanges }
    lastInsert := lastInsertRowid db.portRanges ranges session.lastInsert }

/-- The statements of `copy_port_list` behind its checks. -/
def copyAll (env : Env) (name comment : Option CString) (portListId : CString) (old : Nat) :
    Command Database := fun session =>
  match copyRows env name comment portListId old session with
  | .error reason => .error reason
  | .ok copied =>
      if copied.session.lastInsert = 0 then rollback (-1) copied.session
      else perform (copyRanges env copied.made old copied.new) (commit 0) copied.session

def copyPortList (env : Env) (name comment portListId : Option CString) : Command Database :=
  beginImmediate fun session =>
    let db := session.db
    match portListId with
    | none => rollback (-1) session
    | some portListId =>
        if !env.userMay db (lit "create_port_list") then rollback 99 session
        else
          match findResource id env db.portLists portListId with
          | none => rollback 2 session
          | some old =>
              if env.user.isNone then rollback (-1) session
              else if nameUsed id env db.portLists (nonEmpty name) then rollback 1 session
              else copyAll env (nonEmpty name) (nonEmpty comment) portListId old session

/-! Deleting. -/

/-- `delete_port_list`, with a missing UUID. -/
def deletePortListWithout (env : Env) : Command Database :=
  beginImmediate fun session =>
    if !env.userMay session.db (lit "delete_port_list") then rollback 99 session
    else rollback (-1) session

/-- The UUIDs of the lists whose ranges `delete_port_range` does not delete. These are not
all the predefined lists. -/
def keptPortLists : List CString :=
  [lit "c7e03b6c-3bbe-11e1-a057-406186ea4fc5", lit "730ef368-57e2-11e1-a90f-406186ea4fc5",
    lit "9ddce1ae-57e7-11e1-b13c-406186ea4fc5", lit "492b72f4-56fe-11e1-98a7-406186ea4fc5",
    lit "5f2029f6-56fe-11e1-bb94-406186ea4fc5", lit "33d0cd82-57c6-11e1-8ed1-406186ea4fc5",
    lit "4a4717fe-57d2-11e1-9a26-406186ea4fc5", lit "ab33f6b0-57f8-11e1-96f5-406186ea4fc5"]

/-- The list of the range with a UUID. -/
def portRangePortList (db : Database) (portRangeId : CString) : Option Resource :=
  match db.portRanges.find? (·.uuid = portRangeId) with
  | none => none
  | some portRange =>
      match db.portRanges.get? portRange with
      | none => none
      | some row => db.portLists.get? row.portList

/-- `find_port_range_with_permission`; a range that is not found is an error. -/
def findPortRangeWithPermission (env : Env) (db : Database) (portRangeId permission : CString) :
    Option Nat :=
  match portRangePortList db portRangeId with
  | none => none
  | some list =>
      match findResourceWithPermission id env db .portList db.portLists list.uuid permission with
      | none => none
      | some _ => db.portRanges.find? (·.uuid = portRangeId)

/-- Whether a range is in a list whose ranges are not deleted. -/
def rangeKept (db : Database) (portRange : Nat) : Bool :=
  db.portLists.any fun number row =>
    (db.portRanges.get? portRange).map (·.portList) = some number &&
      keptPortLists.any (· = row.uuid)

/-- A range of a predefined list is refused in the middle of the transaction. -/
def deletePortRange (env : Env) (portRangeId : Option CString) : Command Database :=
  beginImmediate fun session =>
    let db := session.db
    if !env.userMay db (lit "delete_port_range") then rollback 99 session
    else
      match portRangeId.bind fun uuid =>
        findPortRangeWithPermission env db uuid (lit "delete_port_range") with
      | none => rollback (-1) session
      | some portRange =>
          if rangeKept db portRange then answer 3 session
          else
            commit 0 (change (fun db => { db with
              portRanges := db.portRanges.delete fun number _ => number = portRange }) session)

end PortLists
