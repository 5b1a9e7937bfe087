import OpenVAS.Hosts.Cleaning
import OpenVAS.Lib.Sql
import OpenVAS.PortLists.Basic

/-! Creating a target, as `create_target` of `manage_sql.c` does it for hosts that are
given directly. -/
namespace Targets

open CString Transaction Trashcan PortLists Hosts
open Sql (Value Arg Place bindArgs insertText)

/-- A row of `targets`. The port list is in the column `port_range`. -/
structure Target extends Resource where
  hosts : CString
  excludeHosts : CString
  lscCredential : Int
  sshPort : Option CString
  smbLscCredential : Int
  portRange : Int
  reverseLookupOnly : CString
  reverseLookupUnify : CString
  aliveTest : Int
  deriving DecidableEq

/-- The database with all columns of the targets; the other tables are those of the manager. -/
structure Database where
  manager : Trashcan.Database
  targets : Table Target

/-- What the command finds around the database. The UUID is that of the current user, and
`maxHosts` is the variable `max_hosts`. -/
structure Context where
  env : Env
  names : Names
  credentialsUuid : CString
  uuid_plain : Sql.apostrophe ∉ credentialsUuid
  maxHosts : Int32

/-- The arguments of the command. -/
structure Request where
  name : CString
  hosts : Option CString
  excludeHosts : Option CString
  comment : Option CString
  portListId : Option CString
  portRange : Option CString
  sshLscCredential : Int
  sshPort : Option CString
  smbLscCredential : Int
  reverseLookupOnly : Option CString
  reverseLookupUnify : Option CString
  aliveTests : Option CString
  makeNameUnique : Bool

/-- Why the command does not come to an answer: it is halted while it reads hosts, or the
arguments of a statement do not fit its format. -/
inductive Fault where
  | hosts (halt : Halt)
  | arguments
  deriving DecidableEq

abbrev Result := Except Fault (Answer Database)

/-! Checks. -/

/-- Whether `validate_port` returns 0. -/
def validatePort (port : CString) : Bool :=
  let port := port.dropWhile isblank
  let first := port.dropWhile isdigit
  port ≠ [] && first ≠ port && first.dropWhile isblank = [] && 0 < (strtol port).1 &&
    (strtol port).1 ≤ 65535

/-- The names of alive tests and their bits. -/
def aliveTestNames : List (CString × Int) :=
  [([], 0), (lit "Scan Config Default", 0), (lit "ICMP, TCP-ACK Service & ARP Ping", 1 + 2 + 4),
    (lit "TCP-ACK Service & ARP Ping", 1 + 4), (lit "ICMP & ARP Ping", 2 + 4),
    (lit "ICMP & TCP-ACK Service Ping", 2 + 1), (lit "ARP Ping", 4),
    (lit "TCP-ACK Service Ping", 1), (lit "TCP-SYN Service Ping", 16), (lit "ICMP Ping", 2),
    (lit "Consider Alive", 8)]

def aliveTestFromString : Option CString → Int
  | none => 0
  | some aliveTests => (aliveTestNames.lookup aliveTests).getD (-1)

/-- The number of hosts, or -1 for a string that is refused or has more than the
maximum. Names among the excluded hosts are not resolved. -/
def manageCountHosts (context : Context) (fuel : Nat) (givenHosts excludeHosts : Option CString) :
    Except Halt Int32 := do
  match ← openvasHostsNewWithMax fuel givenHosts context.maxHosts.toUInt32 with
  | none => return -1
  | some hosts =>
      match excludeHosts with
      | none => return hosts.count.toInt32
      | some excludeHosts =>
          let (_, hosts) ← openvasHostsExclude fuel context.names hosts excludeHosts false
          return hosts.count.toInt32

/-- Whether the user has a target of this name, or everybody has. -/
def targetNamed (env : Env) (targets : Table Target) (name : CString) : Bool :=
  nameUsed (fun target => target.toResource) env targets (some name)

/-- The name for the row; no name when it is used and is not to be made unique. -/
def rowName (env : Env) (targets : Table Target) (name : CString) (makeNameUnique : Bool) :
    Option CString :=
  if makeNameUnique then
    some (firstUnused (targetNamed env targets) (numbered name) targets.rows.length 0)
  else if targetNamed env targets name then none
  else some name

def lookupFlag (flag : Option CString) : CString :=
  match flag with
  | none => lit "0"
  | some flag => if flag = lit "0" then lit "0" else lit "1"

/-! The port list. -/

def portListUuidDefault : CString := lit "c7e03b6c-3bbe-11e1-a057-406186ea4fc5"

/-- What `create_port_list_unique` leaves: its answer, the port list, how many UUIDs were
made, and the session. -/
structure Obtained where
  code : Int
  portList : Nat
  made : Nat
  session : Session Trashcan.Database

def createPortListUnique (env : Env) (name comment : CString) (portRange : Option CString)
    (session : Session Trashcan.Database) : Except Abort Obtained :=
  match portRange.filter (· ≠ lit "default") with
  | none =>
      match findResource id env session.db.portLists portListUuidDefault with
      | none => .ok ⟨-1, 0, 0, session⟩
      | some portList => .ok ⟨0, portList, 0, session⟩
  | some portRange =>
      if !Ports.validatePortRange (some portRange) then .ok ⟨4, 0, 0, session⟩
      else
        match Ports.portRangeRanges portRange with
        | none => .error .assertion
        | some ranges =>
            let ranges := ranges.map ofText
            (createPortListLock env (env.makeUuid 0) (uniqueName env session.db.portLists name)
              comment ranges session).map fun after =>
                ⟨0, session.db.portLists.next, 1 + (rangesSortMerge ranges).length, after⟩

/-- The session as the commands on port lists see it. -/
def managerSession (session : Session Database) : Session Trashcan.Database where
  db := session.db.manager
  begun := session.begun.map fun old => old.manager
  lastInsert := session.lastInsert

def setManager (session : Session Database) (after : Session Trashcan.Database) :
    Session Database :=
  { session with
    db := { session.db with manager := after.db }
    lastInsert := after.lastInsert }

/-- The port list that is made for a target, or the default one. -/
def newPortList (env : Env) (request : Request) (session : Session Database) :
    Except Abort Obtained :=
  createPortListUnique env request.name
    (lit "Autogenerated for target " ++ request.name ++ lit ".") request.portRange
    (managerSession session)

/-! The row. -/

/-- `(SELECT ROWID FROM users WHERE users.uuid = ...)` for the current user. -/
def selectUser (context : Context) (uuid : CString) : Value :=
  if uuid = context.credentialsUuid then
    context.env.user.elim .null fun user : Nat => .number user
  else .null

/-- The format of the two statements, which differ in the place of the comment. -/
def insertPlaces (context : Context) (made : Nat) (comment : Place) : List Place :=
  [.fixed (.text (context.env.makeUuid made)), .literal, .select (selectUser context), .literal,
    .literal, comment, .number, .expression, .number, .number, .literal, .literal, .number,
    .fixed (.number context.env.now), .fixed (.number context.env.now)]

/-- The row of the values, in the order in which the statements name the columns. -/
def ofValues : List Value → Option Target
  | [uuid, name, owner, hosts, excludeHosts, comment, lscCredential, sshPort, smbLscCredential,
      portRange, reverseLookupOnly, reverseLookupUnify, aliveTest, creationTime,
      modificationTime] => do
      return {
        uuid := ← uuid.asText
        name := ← name.asText
        owner := owner.asNumber.map Int.toNat
        hosts := ← hosts.asText
        excludeHosts := ← excludeHosts.asText
        comment := ← comment.asText
        lscCredential := ← lscCredential.asNumber
        sshPort := sshPort.asText
        smbLscCredential := ← smbLscCredential.asNumber
        portRange := ← portRange.asNumber
        reverseLookupOnly := ← reverseLookupOnly.asText
        reverseLookupUnify := ← reverseLookupUnify.asText
        aliveTest := ← aliveTest.asNumber
        creationTime := ← creationTime.asNumber
        modificationTime := ← modificationTime.asNumber
      }
  | _ => none

/-- The arguments of the two statements. Without a comment the excluded hosts are
passed a second time, where the comment stands otherwise. -/
def insertArgs (context : Context) (request : Request) (name clean : CString) (portList : Nat)
    (aliveTest : Int) : List Arg :=
  let quotedExcludeHosts := (request.excludeHosts.map Sql.quote).getD []
  let quotedSshPort :=
    if request.sshLscCredential ≠ 0 then insertText (some (request.sshPort.getD (lit "22")))
    else lit "NULL"
  [.text (Sql.quote name), .text context.credentialsUuid, .text (Sql.quote clean),
    .text quotedExcludeHosts, .text ((request.comment.map Sql.quote).getD quotedExcludeHosts),
    .number request.sshLscCredential, .text quotedSshPort, .number request.smbLscCredential,
    .number portList, .text (lookupFlag request.reverseLookupOnly),
    .text (lookupFlag request.reverseLookupUnify), .number aliveTest]

def insertValues (context : Context) (request : Request) (name clean : CString)
    (portList made : Nat) (aliveTest : Int) : Option (List Value) :=
  let comment : Place := if request.comment.isSome then .literal else .fixed (.text [])
  bindArgs (insertPlaces context made comment)
    (insertArgs context request name clean portList aliveTest)

/-- Inserts a row and ends the transaction. -/
def insertTarget (row : Target) : Command Database :=
  perform (fun session => do
    let targets ← insertUnique (fun target => target.uuid) session.db.targets [row]
    return { session with
      db := { session.db with targets }
      lastInsert := lastInsertRowid session.db.targets [row] session.lastInsert }) (commit 0)

/-! The command. -/

/-- From the insertion on. -/
def createRow (context : Context) (request : Request) (name clean : CString) (portList made : Nat)
    (aliveTest : Int) (session : Session Database) : Result :=
  match (insertValues context request name clean portList made aliveTest).bind ofValues with
  | none => .error .arguments
  | some row => .ok (insertTarget row session)

/-- From the search for the port list on. A port list that is not found does not end
the transaction. -/
def createWithHosts (context : Context) (request : Request) (name clean : CString)
    (aliveTest : Int) (session : Session Database) : Result :=
  match request.portListId with
  | some portListId =>
      match findResource id context.env session.db.manager.portLists portListId with
      | none => .ok (answer 6 session)
      | some portList => createRow context request name clean portList 0 aliveTest session
  | none =>
      match newPortList context.env request session with
      | .error reason => .ok (.error reason)
      | .ok obtained =>
          let session := setManager session obtained.session
          if obtained.code ≠ 0 then .ok (rollback obtained.code session)
          else
            createRow context request name clean obtained.portList obtained.made aliveTest session

/-- From the check of the hosts on. -/
def createNamed (context : Context) (fuel : Nat) (request : Request) (name : CString)
    (aliveTest : Int) (session : Session Database) : Result :=
  let quotedExcludeHosts := (request.excludeHosts.map Sql.quote).getD []
  match manageCountHosts context fuel request.hosts (some quotedExcludeHosts) with
  | .error halt => .error (.hosts halt)
  | .ok max =>
      if max ≤ 0 then .ok (rollback 2 session)
      else
        match cleanHosts (request.hosts.getD []) (some max.toInt) with
        | none => .error (.hosts .undefined)
        | some (clean, max) =>
            if max.any (context.maxHosts.toInt < ·) then .ok (rollback 3 session)
            else createWithHosts context request name clean aliveTest session

/-- The transaction. -/
def createBegun (context : Context) (fuel : Nat) (request : Request) (aliveTest : Int)
    (session : Session Database) : Result :=
  if !context.env.userMay session.db.manager (lit "create_target") then .ok (rollback 99 session)
  else
    match rowName context.env session.db.targets request.name request.makeNameUnique with
    | none => .ok (rollback 1 session)
    | some name => createNamed context fuel request name aliveTest session

def createTarget (context : Context) (fuel : Nat) (request : Request) (session : Session Database) :
    Result :=
  if request.portRange.any fun portRange => !Ports.validatePortRange (some portRange) then
    .ok (answer 4 session)
  else if request.sshPort.any fun sshPort => !validatePort sshPort then .ok (answer 5 session)
  else
    let aliveTest := aliveTestFromString request.aliveTests
    if aliveTest ≤ -1 then .ok (answer 7 session)
    else
      match session.begun with
      | some _ => .ok (.error .nested)
      | none =>
          createBegun context fuel request aliveTest { session with begun := some session.db }

end Targets
