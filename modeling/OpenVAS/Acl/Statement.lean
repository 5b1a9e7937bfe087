import OpenVAS.Acl.Basic
import OpenVAS.Lib.SqlConditions

/-! The condition of `where_owned` as it is written, and the expression that it is when no
permission of the filter breaks out of its quotes. -/
namespace Acl

open CString Sql

/-- The name of a type in statements. -/
def ResourceType.text : ResourceType → CString
  | .agent => lit "agent"
  | .alert => lit "alert"
  | .config => lit "config"
  | .filter => lit "filter"
  | .group => lit "group"
  | .lscCredential => lit "lsc_credential"
  | .note => lit "note"
  | .override => lit "override"
  | .permission => lit "permission"
  | .portList => lit "port_list"
  | .report => lit "report"
  | .reportFormat => lit "report_format"
  | .result => lit "result"
  | .role => lit "role"
  | .schedule => lit "schedule"
  | .slave => lit "slave"
  | .tag => lit "tag"
  | .target => lit "target"
  | .task => lit "task"
  | .user => lit "user"
  | .nvt => lit "nvt"
  | .cve => lit "cve"
  | .cpe => lit "cpe"
  | .ovaldef => lit "ovaldef"
  | .dfnCertAdv => lit "dfn_cert_adv"

namespace Statement

/-! The text. -/

/-- The permissions of the filter, any of which is enough. -/
def permissionOr (permissions : List CString) : CString :=
  if permissions.any (strcaseeq · (lit "any")) then lit "1"
  else
    match permissions with
    | [] => []
    | first :: rest =>
        lit "name = '" ++ first ++ lit "'" ++
          rest.flatMap fun permission => lit " OR name = '" ++ permission ++ lit "'"

/-- The subject is the user. -/
def userSubject : CString :=
  lit "  AND subject_location      = 0  AND ((subject_type = 'user'        AND subject " ++
    lit "           = (SELECT ROWID FROM users               WHERE users.uuid = '"

/-- Or it is a group of the user. -/
def groupSubject : CString :=
  lit "'))       OR (subject_type = 'group'           AND subject               IN " ++
    lit "(SELECT DISTINCT `group`                   FROM group_users                   " ++
    lit "WHERE user = (SELECT ROWID                                 FROM users " ++
    lit "                                WHERE users.uuid                                       = '"

/-- Or it is a role of the user. -/
def roleSubject : CString :=
  lit "')))       OR (subject_type = 'role'           AND subject               IN " ++
    lit "(SELECT DISTINCT role                   FROM role_users                   " ++
    lit "WHERE user = (SELECT ROWID                                 FROM users " ++
    lit "                                WHERE users.uuid                                       = '"

/-- The subject of a permission and its name, with which two of the formats end. -/
def subjectClause (user permissionOr : CString) : CString :=
  userSubject ++ user ++ groupSubject ++ user ++ roleSubject ++ user ++ lit "'))))  AND (" ++
    permissionOr ++ lit "))"

/-- The text of the clause for permissions: for a report, on its task as well. -/
def permissionClause (user : CString) (type : ResourceType) (trash : Bool)
    (permissions : List CString) : CString :=
  let clause :=
    lit "OR EXISTS (SELECT ROWID FROM permissions  WHERE resource = " ++ (type.text ++ lit "s" ++
      if trash && type ≠ .task then lit "_trash" else []) ++
      lit ".ROWID  AND resource_type = '" ++ type.text ++ lit "'  AND resource_location = " ++
      (if trash then lit "1" else lit "0") ++ subjectClause user (permissionOr permissions)
  if type = .report then
    clause ++ lit " OR EXISTS (SELECT ROWID FROM permissions  WHERE resource = " ++
      (lit "reports" ++ if trash then lit "_trash" else []) ++
      lit ".task  AND resource_type = 'task'" ++ subjectClause user (permissionOr permissions)
  else clause

/-- The clause for permissions, which are seen by those whom they involve. -/
def ownPermissions (user : CString) (admin : Bool) (permissionClause : CString) : CString :=
  lit " ((permissions.owner = (SELECT ROWID FROM users                WHERE users.uuid = '" ++
    user ++ lit "'))  " ++ (if admin then lit "OR (permissions.resource = 0)" else []) ++
    lit "  OR (permissions.subject_type = 'user'      AND permissions.subject_location " ++
    lit "         = 0      AND permissions.subject          = (SELECT ROWID FROM users " ++
    lit "            WHERE users.uuid = '" ++ user ++
    lit "'))  OR (permissions.subject_type = 'group'      AND permissions.subject_location " ++
    lit "         = 0      AND permissions.subject          IN (SELECT DISTINCT `group` " ++
    lit "             FROM group_users              WHERE user = (SELECT ROWID " ++
    lit "                           FROM users                            WHERE users.uuid " ++
    lit "                                 = '" ++ user ++
    lit "')))  OR (permissions.subject_type = 'role'      AND permissions.subject_location " ++
    lit "         = 0      AND permissions.subject          IN (SELECT DISTINCT role " ++
    lit "             FROM role_users              WHERE user = (SELECT ROWID " ++
    lit "                           FROM users                            WHERE users.uuid " ++
    lit "                                 = '" ++ user ++ lit "')))  " ++ permissionClause ++ lit ")"

/-- The condition before the owner filter. Every type has permissions, and none is shared. -/
def ownedClause (user : CString) (admin : Bool) (type : ResourceType) (trash : Bool)
    (permissions : List CString) : CString :=
  let permissionClause :=
    if permissions = [] then [] else permissionClause user type trash permissions
  if trash && type = .task then
    lit " (tasks.hidden = 2  AND ((tasks.owner IS NULL)       OR (tasks.owner " ++
      lit "          = (SELECT ROWID FROM users              WHERE users.uuid = '" ++ user ++
      lit "'))       " ++ permissionClause ++ lit "))"
  else if trash then
    lit " ((" ++ (type.text ++ lit "s_trash") ++ lit ".owner IS NULL)  OR (" ++
      (type.text ++ lit "s_trash") ++
      lit ".owner      = (SELECT ROWID FROM users         WHERE users.uuid = '" ++ user ++
      lit "'))  " ++ permissionClause ++ lit ")"
  else if type = .permission then ownPermissions user admin permissionClause
  else
    lit " ((" ++ (type.text ++ lit "s") ++ lit ".owner IS NULL)  OR (" ++ (type.text ++ lit "s") ++
      lit ".owner      = (SELECT ROWID FROM users         WHERE users.uuid = '" ++ user ++
      lit "'))  " ++ permissionClause ++ lit ")"

/-- The condition in front of which the owner filter is put. -/
def unfiltered (user : Option CString) (admin : Bool) (type : ResourceType) (trash : Bool)
    (resource : Nat) (permissions : List CString) : CString :=
  match user with
  | none => lit " (1)"
  | some user => if resource ≠ 0 then lit " (1)" else ownedClause user admin type trash permissions

/-- What `where_owned` returns. A missing user is printed as `(null)`. -/
def whereOwned (user : Option CString) (admin : Bool) (type : ResourceType) (trash owned : Bool)
    (ownerFilter : Option CString) (resource : Nat) (permissions : List CString) : CString :=
  if !owned then lit " 1"
  else
    let clause := unfiltered user admin type trash resource permissions
    match ownerFilter with
    | none =>
        lit "((owner = (SELECT ROWID FROM users           WHERE uuid = '" ++
          user.getD (lit "(null)") ++ lit "')  OR owner IS NULL) AND " ++ clause ++ lit ")"
    | some name =>
        if name = lit "any" then clause
        else
          lit "(owner = (SELECT ROWID FROM users          WHERE name = '" ++ quote name ++
            lit "') AND " ++ clause ++ lit ")"

/-! The expression. -/

def named (name : String) : Name := ⟨false, lit name⟩

def columnOf (name : String) : Expr := .column none (named name)

def equal (a b : Expr) : Expr := .compare .equal false a b

def zero : Expr := .number false (lit "0")

/-- The number of the user of whom a column says a text. -/
def selectUser (column : Expr) (string : CString) : Expr :=
  .select ⟨false, some (named "ROWID"), named "users"⟩ (equal column (.literal string))

/-- `(SELECT ROWID FROM users WHERE users.uuid = '…')`. -/
def selectUuid (user : CString) : Expr :=
  selectUser (.column (some (named "users")) (named "uuid")) user

/-- A type of subjects, with a test of their number. -/
def subjectOf (type : String) (test : Expr) : Expr :=
  .paren (.and (equal (columnOf "subject_type") (.literal (lit type))) test)

/-- The subject has the user as a member. -/
def hasMember (column : Name) (table : String) (user : CString) : Expr :=
  .isIn (columnOf "subject") ⟨true, some column, named table⟩
    (equal (columnOf "user") (selectUuid user))

def subject (user : CString) : Expr :=
  .paren (.or (subjectOf "user" (equal (columnOf "subject") (selectUuid user)))
    (.or (subjectOf "group" (hasMember ⟨true, lit "group"⟩ "group_users" user))
      (subjectOf "role" (hasMember (named "role") "role_users" user))))

def nameIs (name : CString) : Expr := equal (columnOf "name") (.literal name)

/-- The test of the name of a permission, for the names that the texts between the quotes stand for. -/
def nameTest (permissions : List CString) : Expr :=
  if permissions.any (strcaseeq · (lit "any")) then .number false (lit "1")
  else
    match permissions.filterMap unquote with
    | [] => .null
    | first :: rest => anyOf (nameIs first) (rest.map nameIs)

/-- The end of the condition on a permission. -/
def subjectTest (user : CString) (test : Expr) : Expr :=
  .and (equal (columnOf "subject_location") zero) (.and (subject user) (.paren test))

def permissionSource : Source := ⟨false, some (named "ROWID"), named "permissions"⟩

/-- The table of a type. Tasks stay in their table when they are in the trashcan. -/
def tableOf (type : ResourceType) (trash : Bool) : Name :=
  ⟨false, type.text ++ lit "s" ++ if trash && type ≠ .task then lit "_trash" else []⟩

def location (trash : Bool) : Expr := .number false (if trash then lit "1" else lit "0")

/-- There is a permission on the row. -/
def permitted (user : CString) (type : ResourceType) (trash : Bool) (test : Expr) : Expr :=
  .existsRow permissionSource
    (.and (equal (columnOf "resource") (.column (some (tableOf type trash)) (named "ROWID")))
      (.and (equal (columnOf "resource_type") (.literal type.text))
        (.and (equal (columnOf "resource_location") (location trash)) (subjectTest user test))))

/-- There is a permission on the task of the report. -/
def taskPermitted (user : CString) (trash : Bool) (test : Expr) : Expr :=
  .existsRow permissionSource
    (.and (equal (columnOf "resource") (.column (some (tableOf .report trash)) (named "task")))
      (.and (equal (columnOf "resource_type") (.literal (lit "task"))) (subjectTest user test)))

/-- What a permission adds, when its text goes on with further alternatives. -/
def permission (user : CString) (type : ResourceType) (trash : Bool) (test : Expr) (more : List Expr) :
    List Expr :=
  permitted user type trash test :: more ++
    if type = .report then taskPermitted user trash test :: more else []

/-- What the permissions of the filter add. -/
def permissionOf (user : CString) (type : ResourceType) (trash : Bool)
    (permissions : List CString) : List Expr :=
  if permissions = [] then [] else permission user type trash (nameTest permissions) []

def ownerOf (type : ResourceType) (trash : Bool) : Expr :=
  .column (some (tableOf type trash)) (named "owner")

/-- The row has no owner, or is the user's, or there is a permission on it. -/
def visible (user : CString) (type : ResourceType) (trash : Bool) (permission : List Expr) : Expr :=
  .paren (anyOf (.paren (.isNull (ownerOf type trash)))
    (.paren (equal (ownerOf type trash) (selectUuid user)) :: permission))

/-- The condition before the owner filter. -/
def owned (user : CString) (type : ResourceType) (trash : Bool) (permission : List Expr) : Expr :=
  if trash && type = .task then
    .paren (.and (equal (.column (some (tableOf .task true)) (named "hidden")) (.number false (lit "2")))
      (visible user type trash permission))
  else visible user type trash permission

def one : Expr := .number false (lit "1")

/-- The expression where there is no owner filter. -/
def unfilteredExpr (user : Option CString) (type : ResourceType) (trash : Bool) (resource : Nat)
    (permissions : List CString) : Expr :=
  match user with
  | none => .paren one
  | some user =>
      if resource ≠ 0 then .paren one
      else owned user type trash (permissionOf user type trash permissions)

/-- The rows of the user and the rows without owner. -/
def ownRows (user : CString) (clause : Expr) : Expr :=
  .paren (.and (.paren (.or (equal (columnOf "owner") (selectUser (columnOf "uuid") user))
    (.isNull (columnOf "owner")))) clause)

/-- The rows of the user with a name. -/
def rowsOf (name : CString) (clause : Expr) : Expr :=
  .paren (.and (equal (columnOf "owner") (selectUser (columnOf "name") name)) clause)

/-- The whole condition. -/
def whereOwnedExpr (user : Option CString) (type : ResourceType) (trash owned : Bool)
    (ownerFilter : Option CString) (resource : Nat) (permissions : List CString) : Expr :=
  if !owned then one
  else
    let clause := unfilteredExpr user type trash resource permissions
    match ownerFilter with
    | none => ownRows (user.getD (lit "(null)")) clause
    | some name => if name = lit "any" then clause else rowsOf name clause

end Statement

end Acl
