import OpenVAS.Acl.Reading
import OpenVAS.Lib.SqlMeaning

/-! What the condition of `where_owned` says about a row of the database. -/
namespace Acl

open CString Sql
open Trashcan (Location SubjectType)

/-! The tables. Columns that no condition reads are left out. -/

/-- The value in a column `owner`. -/
def ownerValue : Option Nat → Value
  | none => .null
  | some number => .number number

def locationValue : Location → Value
  | .table => .number 0
  | .trash => .number 1

def subjectText : SubjectType → CString
  | .user => lit "user"
  | .group => lit "group"
  | .role => lit "role"

theorem subjectText_inj {one two : SubjectType} : subjectText one = subjectText two ↔ one = two := by
  cases one <;> cases two <;> decide

def userHeader : Header := ⟨lit "users", [lit "ROWID", lit "uuid", lit "name"]⟩

def groupUsersHeader : Header := ⟨lit "group_users", [lit "group", lit "user"]⟩

def roleUsersHeader : Header := ⟨lit "role_users", [lit "role", lit "user"]⟩

def permissionHeader : Header :=
  ⟨lit "permissions", [lit "ROWID", lit "uuid", lit "owner", lit "name", lit "resource_type",
    lit "resource", lit "resource_uuid", lit "resource_location", lit "subject_type", lit "subject",
    lit "subject_location"]⟩

/-- Tables without owners have no column for them. -/
def rowHeader (type : ResourceType) (trash : Bool) : Header where
  name := (Statement.tableOf type trash).text
  columns :=
    [lit "ROWID", lit "uuid"] ++ (if type.hasOwner then [lit "owner"] else []) ++
      (if type = .task then [lit "hidden"] else []) ++
      (if type = .report ∨ type = .result then [lit "task"] else [])

def userValues (entry : Nat × User) : List Value :=
  [.number entry.1, .text entry.2.uuid, .text entry.2.name]

def pairValues (pair : Nat × Nat) : List Value := [.number pair.1, .number pair.2]

def permissionValues (entry : Nat × Permission) : List Value :=
  [.number entry.1, .text entry.2.uuid, ownerValue entry.2.owner, .text entry.2.name,
    .text (entry.2.resourceType.elim [] ResourceType.text), .number entry.2.resource,
    .text entry.2.resourceUuid, locationValue entry.2.resourceLocation,
    .text (subjectText entry.2.subjectType), .number entry.2.subject,
    locationValue entry.2.subjectLocation]

/-- The columns of a row, its number first. -/
def rowValues (type : ResourceType) (number : Nat) (row : Row) : List Value :=
  [.number number, .text row.uuid] ++ (if type.hasOwner then [ownerValue row.owner] else []) ++
    (if type = .task then [.number row.hidden] else []) ++
    (if type = .report ∨ type = .result then [.number row.task] else [])

namespace Database

/-- The tables from which the condition selects. -/
def relations (db : Database) : List Relation :=
  [⟨userHeader, db.users.rows.map userValues⟩,
    ⟨groupUsersHeader, db.groupUsers.map pairValues⟩,
    ⟨roleUsersHeader, db.roleUsers.map pairValues⟩,
    ⟨permissionHeader, db.permissions.rows.map permissionValues⟩]

variable (db : Database)

theorem findRelation_users :
    findRelation db.relations (lit "users") = some ⟨userHeader, db.users.rows.map userValues⟩ := rfl

theorem findRelation_groupUsers :
    findRelation db.relations (lit "group_users") =
      some ⟨groupUsersHeader, db.groupUsers.map pairValues⟩ := rfl

theorem findRelation_roleUsers :
    findRelation db.relations (lit "role_users") =
      some ⟨roleUsersHeader, db.roleUsers.map pairValues⟩ := rfl

theorem findRelation_permissions :
    findRelation db.relations (lit "permissions") =
      some ⟨permissionHeader, db.permissions.rows.map permissionValues⟩ := rfl

end Database

namespace Statement

section Meaning

variable {dialect : Dialect} {db : Database} {scopes : Scopes}

theorem comparedAs_number (m : Nat) (n : Nat) :
    comparedAs dialect .equal (.number m) (.number n) = some (decide (m = n)) := by
  simp [comparedAs, dialect.compare_numbers]

theorem comparedAs_text (s t : CString) :
    comparedAs dialect .equal (.text s) (.text t) = some (decide (s = t)) := by
  simp [comparedAs, dialect.compare_texts]

/-- An owner that is missing is equal to none. -/
theorem comparedAs_owner (number : Nat) (owner : Option Nat) :
    comparedAs dialect .equal (.number number) (ownerValue owner) = some true ↔
      owner = some number := by
  cases owner with
  | none => simp [comparedAs, ownerValue]
  | some other => simp [ownerValue, comparedAs_number, eq_comm]

/-- The sub-select on the users. -/
theorem eval_selectUser {column : Expr} {field : User → CString}
    (hColumn : ∀ entry : Nat × User,
      eval dialect db.relations ((userHeader, userValues entry) :: scopes) column =
        .text (field entry.2))
    (string : CString) :
    eval dialect db.relations scopes (selectUser column string) =
      ownerValue (db.users.find? (field · = string)) := by
  have hTest (entry : Nat × User) :
      meets dialect db.relations ((userHeader, userValues entry) :: scopes)
        (equal column (.literal string)) = decide (field entry.2 = string) := by
    simp [equal, hColumn, eval, comparedAs_text]
  rw [selectUser, eval_select (db.findRelation_users) rfl, List.find?_map, Table.find?]
  have hRows : (fun row => meets dialect db.relations ((userHeader, row) :: scopes)
      (equal column (.literal string))) ∘ userValues =
        fun entry : Nat × User => decide (field entry.2 = string) := funext hTest
  rw [hRows]
  cases db.users.rows.find? fun entry => decide (field entry.2 = string) with
  | none => rfl
  | some entry => rfl

/-- The subquery gives the number of the user. -/
@[simp]
theorem eval_selectUuid (user : CString) :
    eval dialect db.relations scopes (selectUuid user) = ownerValue (db.userRow user) :=
  eval_selectUser (fun _ => rfl) user

/-! The subject. -/

/-- The subject has the user as a member, for a table of pairs with users. -/
theorem meets_hasMember {column : Name} {table : String} {header : Header}
    {pairs : List (Nat × Nat)} {user : CString} {entry : Nat × Permission}
    (hRelation : findRelation db.relations (lit table) = some ⟨header, pairs.map pairValues⟩)
    (hColumn : ∀ (pair : Nat × Nat) scopes,
      lookup ((header, pairValues pair) :: scopes) none column = some (.number pair.1))
    (hUser : ∀ (pair : Nat × Nat) scopes,
      lookup ((header, pairValues pair) :: scopes) none (named "user") = some (.number pair.2)) :
    meets dialect db.relations ((permissionHeader, permissionValues entry) :: scopes)
        (hasMember column table user) = true ↔
      (pairs.any fun pair => pair.1 = entry.2.subject && db.userRow user = some pair.2) = true := by
  have hSubject (scopes : Scopes) :
      eval dialect db.relations ((permissionHeader, permissionValues entry) :: scopes)
        (columnOf "subject") = .number entry.2.subject := rfl
  have hTest (pair : Nat × Nat) (scopes : Scopes) :
      meets dialect db.relations ((header, pairValues pair) :: scopes)
        (equal (columnOf "user") (selectUuid user)) = true ↔ db.userRow user = some pair.2 := by
    have hColumn : eval dialect db.relations ((header, pairValues pair) :: scopes)
        (columnOf "user") = .number pair.2 := by
      rw [columnOf, eval, hUser]
      rfl
    rw [equal, meets_equal, hColumn, eval_selectUuid, decide_eq_true_eq, comparedAs_owner]
  rw [hasMember, meets_isIn hRelation rfl, hSubject, List.any_eq_true]
  constructor
  · rintro ⟨_, hRow, hMember, hEqual⟩
    obtain ⟨pair, hPair, rfl⟩ := List.mem_map.mp hRow
    rw [hColumn, Option.getD_some, comparedAs_number, Option.some_inj, decide_eq_true_eq] at hEqual
    exact ⟨pair, hPair, by simp [hEqual, (hTest pair _).mp hMember]⟩
  · rintro ⟨pair, hPair, hMember⟩
    obtain ⟨hEqual, hRow⟩ : pair.1 = entry.2.subject ∧ db.userRow user = some pair.2 := by
      simpa using hMember
    refine ⟨pairValues pair, List.mem_map_of_mem hPair, (hTest pair _).mpr hRow, ?_⟩
    rw [hColumn, Option.getD_some, comparedAs_number, hEqual]
    simp

theorem eval_zero : eval dialect db.relations scopes zero = .number 0 :=
  dialect.number_digit (ch '0') rfl

theorem eval_location (trash : Bool) :
    eval dialect db.relations scopes (location trash) =
      locationValue (if trash then .trash else .table) := by
  cases trash with
  | false => exact dialect.number_digit (ch '0') rfl
  | true => exact dialect.number_digit (ch '1') rfl

theorem comparedAs_location (one two : Location) :
    comparedAs dialect .equal (locationValue one) (locationValue two) = some (decide (one = two)) := by
  cases one <;> cases two <;> simp [comparedAs, locationValue, dialect.compare_numbers]

/-- The subject is the user, a group of the user or a role of the user. -/
theorem meets_subject (user : CString) (entry : Nat × Permission) :
    meets dialect db.relations ((permissionHeader, permissionValues entry) :: scopes)
      (.and (equal (columnOf "subject_location") zero) (subject user)) =
      db.isSubject user entry.2 := by
  have hLocation : meets dialect db.relations ((permissionHeader, permissionValues entry) :: scopes)
      (equal (columnOf "subject_location") zero) = decide (entry.2.subjectLocation = .table) := by
    have hColumn : eval dialect db.relations ((permissionHeader, permissionValues entry) :: scopes)
        (columnOf "subject_location") = locationValue entry.2.subjectLocation := rfl
    have hZero : eval dialect db.relations ((permissionHeader, permissionValues entry) :: scopes)
        zero = locationValue .table := eval_zero
    simp [equal, hColumn, hZero, comparedAs_location]
  have hType (type : SubjectType) :
      meets dialect db.relations ((permissionHeader, permissionValues entry) :: scopes)
        (equal (columnOf "subject_type") (.literal (subjectText type))) =
        decide (entry.2.subjectType = type) := by
    have hColumn : eval dialect db.relations ((permissionHeader, permissionValues entry) :: scopes)
        (columnOf "subject_type") = .text (subjectText entry.2.subjectType) := rfl
    simp [equal, hColumn, eval, comparedAs_text, subjectText_inj]
  have hUser : meets dialect db.relations ((permissionHeader, permissionValues entry) :: scopes)
      (equal (columnOf "subject") (selectUuid user)) =
        decide (db.userRow user = some entry.2.subject) := by
    have hColumn : eval dialect db.relations ((permissionHeader, permissionValues entry) :: scopes)
        (columnOf "subject") = .number entry.2.subject := rfl
    simp [equal, hColumn, comparedAs_owner]
  have hGroup : meets dialect db.relations ((permissionHeader, permissionValues entry) :: scopes)
      (hasMember ⟨true, lit "group"⟩ "group_users" user) =
        db.groupUsers.any fun pair => pair.1 = entry.2.subject && db.userRow user = some pair.2 :=
    Bool.eq_iff_iff.mpr
      (meets_hasMember db.findRelation_groupUsers (fun _ _ => rfl) (fun _ _ => rfl))
  have hRole : meets dialect db.relations ((permissionHeader, permissionValues entry) :: scopes)
      (hasMember (named "role") "role_users" user) =
        db.roleUsers.any fun pair => pair.1 = entry.2.subject && db.userRow user = some pair.2 :=
    Bool.eq_iff_iff.mpr
      (meets_hasMember db.findRelation_roleUsers (fun _ _ => rfl) (fun _ _ => rfl))
  have hUserType := hType .user
  have hGroupType := hType .group
  have hRoleType := hType .role
  simp only [subjectText] at hUserType hGroupType hRoleType
  simp only [subject, subjectOf, meets_and, meets_or, meets_paren, hLocation, hUserType, hGroupType,
    hRoleType, hUser, hGroup, hRole, Database.isSubject]
  cases entry.2.subjectType with
  | user => simp
  | group => simp
  | role => simp

/-! The name of a permission. -/

theorem meets_nameIs (entry : Nat × Permission) (name : CString) :
    meets dialect db.relations ((permissionHeader, permissionValues entry) :: scopes) (nameIs name) =
      decide (entry.2.name = name) := by
  have hColumn : eval dialect db.relations ((permissionHeader, permissionValues entry) :: scopes)
      (columnOf "name") = .text entry.2.name := rfl
  simp [nameIs, equal, hColumn, eval, comparedAs_text]

/-- What the texts between the quotes stand for. -/
def names (permissions : List CString) : List CString := permissions.filterMap unquote

theorem unquote_of_any {permission : CString} (h : strcaseeq permission (lit "any") = true) :
    unquote permission = some permission := by
  refine unquote_plain fun hMem => ?_
  have hLower : permission.map tolower = (lit "any").map tolower := of_decide_eq_true h
  have hImage : tolower apostrophe ∈ (lit "any").map tolower := hLower ▸ List.mem_map_of_mem hMem
  exact absurd hImage (by decide)

theorem any_names (permissions : List CString) :
    (names permissions).any (strcaseeq · (lit "any")) =
      permissions.any (strcaseeq · (lit "any")) := by
  rw [Bool.eq_iff_iff, List.any_eq_true, List.any_eq_true]
  constructor
  · rintro ⟨plain, hPlain, hAny⟩
    obtain ⟨permission, hMem, hUnquote⟩ := List.mem_filterMap.mp hPlain
    have hSame : quote plain = permission := quote_unquote hUnquote
    have hSelf : quote plain = plain := quote_unquote (unquote_of_any hAny)
    exact ⟨permission, hMem, by rwa [← hSame, hSelf]⟩
  · rintro ⟨permission, hMem, hAny⟩
    exact ⟨permission, List.mem_filterMap.mpr ⟨permission, hMem, unquote_of_any hAny⟩, hAny⟩

/-- The permission has one of the names. -/
def isNamed (names : List CString) (permission : Permission) : Bool :=
  names.any (strcaseeq · (lit "any")) || names.any (permission.name = ·)

/-- The test of the name of a permission means that it is one of the names. -/
theorem meets_nameTest (entry : Nat × Permission) (permissions : List CString) :
    meets dialect db.relations ((permissionHeader, permissionValues entry) :: scopes)
        (nameTest permissions) = isNamed (names permissions) entry.2 := by
  rw [isNamed, any_names, nameTest]
  by_cases hAny : permissions.any (strcaseeq · (lit "any")) = true
  · rw [if_pos hAny, hAny, Bool.true_or]
    have hOne : eval dialect db.relations ((permissionHeader, permissionValues entry) :: scopes)
        (.number false (lit "1")) = .number 1 := dialect.number_digit (ch '1') rfl
    simp [meets, hOne, truthOf]
  · rw [if_neg hAny, Bool.eq_false_iff.mpr hAny, Bool.false_or, names]
    cases permissions.filterMap unquote with
    | nil => rfl
    | cons first rest =>
        simp only [meets_anyOf, ← List.map_cons, List.any_map]
        exact congrArg (List.any _) (funext fun name => meets_nameIs entry name)

/-! The permissions on a row. -/

/-- The test of the subject means that the permission is given to the user, a group or a role of
his. -/
theorem meets_subjectTest (user : CString) (entry : Nat × Permission) (permissions : List CString) :
    meets dialect db.relations ((permissionHeader, permissionValues entry) :: scopes)
        (subjectTest user (nameTest permissions)) =
      (db.isSubject user entry.2 && isNamed (names permissions) entry.2) := by
  have hSubject : (meets dialect db.relations ((permissionHeader, permissionValues entry) :: scopes)
        (equal (columnOf "subject_location") zero) &&
      meets dialect db.relations ((permissionHeader, permissionValues entry) :: scopes)
        (subject user)) = db.isSubject user entry.2 := by
    rw [← meets_and, meets_subject]
  rw [subjectTest, meets_and, meets_and, meets_paren, meets_nameTest, ← Bool.and_assoc, hSubject]

end Meaning

section Rows

variable {dialect : Dialect} {db : Database} {type : ResourceType} {trash : Bool}

/-- Where the column of the owner is, if the type has one. -/
theorem position_owner (type : ResourceType) (trash : Bool) (table : Option Name)
    (hTable : table = none ∨ table = some (tableOf type trash)) :
    (rowHeader type trash).position table (named "owner") =
      if type.hasOwner then some 2 else none := by
  rcases hTable with rfl | rfl <;> cases type <;> cases trash <;> decide

/-- The table of permissions is not the table of the row. -/
theorem position_permissions (hType : trash = false → type ≠ .permission) (name : Name) :
    permissionHeader.position (some (tableOf type trash)) name = none := by
  have hOther : strcaseeq (tableOf type trash).text permissionHeader.name = false := by
    cases trash with
    | true => cases type <;> decide
    | false =>
        cases type with
        | permission => exact absurd rfl (hType rfl)
        | _ => decide
  simp [Header.position, hOther]

/-- A column of the row is read through the permission. -/
theorem lookup_row (hType : trash = false → type ≠ .permission) (name : Name)
    (entry : Nat × Permission) (values : List Value) :
    lookup [(permissionHeader, permissionValues entry), (rowHeader type trash, values)]
        (some (tableOf type trash)) name =
      ((rowHeader type trash).position (some (tableOf type trash)) name).map
        fun position => values.getD position .null := by
  simp only [lookup, List.findSome?_cons, position_permissions hType, Option.map_none]
  cases (rowHeader type trash).position (some (tableOf type trash)) name with
  | none => rfl
  | some position => rfl

theorem position_rowid (type : ResourceType) (trash : Bool) :
    (rowHeader type trash).position (some (tableOf type trash)) (named "ROWID") = some 0 := by
  cases type <;> cases trash <;> decide

theorem text_inj {one two : ResourceType} : one.text = two.text ↔ one = two := by
  constructor
  · intro h
    cases one <;> cases two <;> first | rfl | exact absurd h (by decide)
  · exact congrArg _

/-- The permission has the type of the row. -/
theorem meets_resourceType (scopes : Scopes) (entry : Nat × Permission) (type : ResourceType) :
    meets dialect db.relations ((permissionHeader, permissionValues entry) :: scopes)
      (equal (columnOf "resource_type") (.literal type.text)) =
      decide (entry.2.resourceType = some type) := by
  have hColumn : eval dialect db.relations ((permissionHeader, permissionValues entry) :: scopes)
      (columnOf "resource_type") = .text (entry.2.resourceType.elim [] ResourceType.text) := rfl
  cases hResource : entry.2.resourceType with
  | none =>
      have hEmpty : [] ≠ type.text := by cases type <;> decide
      simp [equal, hColumn, hResource, eval, comparedAs_text, hEmpty]
  | some other => simp [equal, hColumn, hResource, eval, comparedAs_text, text_inj]

/-- A permission is tested against the number in a column of the row. -/
theorem meets_resource {name : Name} {number : Nat} {values : List Value}
    (hType : trash = false → type ≠ .permission) (entry : Nat × Permission)
    (hName : ((rowHeader type trash).position (some (tableOf type trash)) name).map
      (fun position => values.getD position .null) = some (.number number)) :
    meets dialect db.relations
      [(permissionHeader, permissionValues entry), (rowHeader type trash, values)]
      (equal (columnOf "resource") (.column (some (tableOf type trash)) name)) =
      decide (entry.2.resource = number) := by
  have hColumn : eval dialect db.relations
      [(permissionHeader, permissionValues entry), (rowHeader type trash, values)]
      (columnOf "resource") = .number entry.2.resource := rfl
  have hOther : eval dialect db.relations
      [(permissionHeader, permissionValues entry), (rowHeader type trash, values)]
      (.column (some (tableOf type trash)) name) = .number number := by
    rw [eval, lookup_row hType, hName]
    rfl
  simp [equal, hColumn, hOther, comparedAs_number]

/-- The `EXISTS` of a type means that there is a permission on the row. -/
theorem meets_permitted (hType : trash = false → type ≠ .permission) (user : CString)
    (permissions : List CString) (number : Nat) (row : Row) :
    meets dialect db.relations [(rowHeader type trash, rowValues type number row)]
        (permitted user type trash (nameTest permissions)) =
      db.permissions.any fun _ permission =>
        permission.resource = number && permission.resourceType = some type &&
          permission.resourceLocation = (if trash then .trash else .table) &&
          db.isSubject user permission && isNamed (names permissions) permission := by
  rw [permitted, meets_existsRow db.findRelation_permissions, List.any_map, Table.any]
  refine congrArg db.permissions.rows.any (funext fun entry => ?_)
  have hNumber : ((rowHeader type trash).position (some (tableOf type trash)) (named "ROWID")).map
      (fun position => (rowValues type number row).getD position .null) = some (.number number) := by
    rw [position_rowid]
    rfl
  have hPlace (scopes : Scopes) :
      meets dialect db.relations ((permissionHeader, permissionValues entry) :: scopes)
        (equal (columnOf "resource_location") (location trash)) =
        decide (entry.2.resourceLocation = if trash then .trash else .table) := by
    have hColumn : eval dialect db.relations ((permissionHeader, permissionValues entry) :: scopes)
        (columnOf "resource_location") = locationValue entry.2.resourceLocation := rfl
    simp [equal, hColumn, eval_location, comparedAs_location]
  simp only [Function.comp_apply, meets_and, meets_resource hType entry hNumber, meets_resourceType,
    hPlace, meets_subjectTest, Bool.and_assoc]

/-- The `EXISTS` of a report means that there is a permission on its task. -/
theorem meets_taskPermitted (user : CString) (permissions : List CString) (number : Nat) (row : Row) :
    meets dialect db.relations [(rowHeader .report trash, rowValues .report number row)]
        (taskPermitted user trash (nameTest permissions)) =
      db.permissions.any fun _ permission =>
        permission.resource = row.task && permission.resourceType = some .task &&
          db.isSubject user permission && isNamed (names permissions) permission := by
  rw [taskPermitted, meets_existsRow db.findRelation_permissions, List.any_map, Table.any]
  refine congrArg db.permissions.rows.any (funext fun entry => ?_)
  have hTask : ((rowHeader .report trash).position (some (tableOf .report trash)) (named "task")).map
      (fun position => (rowValues .report number row).getD position .null) =
        some (.number row.task) := by
    cases trash <;> rfl
  have hType : meets dialect db.relations
      [(permissionHeader, permissionValues entry),
        (rowHeader .report trash, rowValues .report number row)]
      (equal (columnOf "resource_type") (.literal (lit "task"))) =
        decide (entry.2.resourceType = some .task) := meets_resourceType _ entry .task
  have hReport : trash = false → ResourceType.report ≠ .permission := fun _ => by decide
  simp only [Function.comp_apply, meets_and, meets_resource hReport entry hTask, hType,
    meets_subjectTest, Bool.and_assoc]

/-- All of them together mean the clause of the model. -/
theorem meets_permission (hType : trash = false → type ≠ .permission) (user : CString)
    (permissions : List CString) (number : Nat) (row : Row) :
    (permission user type trash (nameTest permissions) []).any
        (meets dialect db.relations [(rowHeader type trash, rowValues type number row)]) =
      Acl.permissionClause db user type trash (names permissions) number row := by
  by_cases hReport : type = .report
  · subst hReport
    simp only [permission, if_true, List.singleton_append, List.any_cons, List.any_nil, Bool.or_false,
      meets_permitted hType, meets_taskPermitted, isNamed, Acl.permissionClause, decide_true,
      Bool.true_and]
  · simp only [permission, hReport, if_false, List.append_nil, List.any_cons, List.any_nil,
      meets_permitted hType, isNamed, Acl.permissionClause, decide_false, Bool.false_and,
      Bool.or_false]

/-! The owner of a row. -/

/-- The column of the owner in a row. -/
theorem eval_owner (hOwner : type.hasOwner = true) (table : Option Name)
    (hTable : table = none ∨ table = some (tableOf type trash)) (number : Nat) (row : Row) :
    eval dialect db.relations [(rowHeader type trash, rowValues type number row)]
      (.column table (named "owner")) = ownerValue row.owner := by
  have hPosition := position_owner type trash table hTable
  rw [if_pos hOwner] at hPosition
  simp only [eval, lookup, List.findSome?_cons, hPosition, Option.map_some, rowValues, if_pos hOwner]
  rfl

theorem comparedAs_owners (one two : Option Nat) :
    comparedAs dialect .equal (ownerValue one) (ownerValue two) = some true ↔
      one.isSome = true ∧ two = one := by
  cases one with
  | none => simp [comparedAs, ownerValue]
  | some number =>
      rw [ownerValue, comparedAs_owner]
      simp

/-- The row has no owner or is the user's. -/
theorem owns_eq (dialect : Dialect) (user : CString) (owner : Option Nat) :
    db.owns user owner = (decide (ownerValue owner = .null) ||
      decide (comparedAs dialect .equal (ownerValue owner) (ownerValue (db.userRow user)) =
        some true)) := by
  cases owner with
  | none => rfl
  | some number =>
      have hValue : ownerValue (some number) = .number number := rfl
      rw [hValue]
      simp [comparedAs_owner, Database.owns]

/-- A row is visible for its owner, and by a permission. -/
theorem meets_visible (hOwner : type.hasOwner = true) (user : CString) (permission : List Expr)
    (number : Nat) (row : Row) :
    meets dialect db.relations [(rowHeader type trash, rowValues type number row)]
        (visible user type trash permission) =
      (db.owns user row.owner || permission.any
        (meets dialect db.relations [(rowHeader type trash, rowValues type number row)])) := by
  have hColumn : eval dialect db.relations [(rowHeader type trash, rowValues type number row)]
      (ownerOf type trash) = ownerValue row.owner := eval_owner hOwner _ (.inr rfl) number row
  simp [visible, meets_anyOf, equal, hColumn, owns_eq dialect, Bool.or_assoc]

theorem isEmpty_names {permissions : List CString} (h : Quoted permissions) :
    (names permissions).isEmpty = permissions.isEmpty := by
  cases permissions with
  | nil => rfl
  | cons first rest =>
      rcases h with hAny | hAll
      · obtain ⟨permission, hMem, hAny⟩ := List.any_eq_true.mp hAny
        have hName : permission ∈ names (first :: rest) :=
          List.mem_filterMap.mpr ⟨permission, hMem, unquote_of_any hAny⟩
        rw [List.isEmpty_cons, List.isEmpty_eq_false_iff]
        exact List.ne_nil_of_mem hName
      · obtain ⟨plain, hFirst⟩ := Option.isSome_iff_exists.mp (hAll first List.mem_cons_self)
        rw [names, filterMap_unquote_cons hFirst]
        rfl

/-- The condition before the owner filter, for a type that has owners. -/
theorem meets_owned (hType : trash = false → type ≠ .permission) (hOwner : type.hasOwner = true)
    (user : CString) {permissions : List CString} (hQuoted : Quoted permissions) (number : Nat)
    (row : Row) :
    meets dialect db.relations [(rowHeader type trash, rowValues type number row)]
        (owned user type trash (permissionOf user type trash permissions)) =
      Acl.ownedClause db user type trash (names permissions) number row := by
  have hPermission : (permissionOf user type trash permissions).any
      (meets dialect db.relations [(rowHeader type trash, rowValues type number row)]) =
        (!(names permissions).isEmpty &&
          Acl.permissionClause db user type trash (names permissions) number row) := by
    rw [isEmpty_names hQuoted, permissionOf]
    by_cases hNone : permissions = []
    · rw [if_pos hNone, hNone]
      rfl
    · rw [if_neg hNone, meets_permission hType, List.isEmpty_eq_false_iff.mpr hNone]
      rfl
  have hVisible := @meets_visible dialect db type trash hOwner user
    (permissionOf user type trash permissions) number row
  rw [hPermission] at hVisible
  cases trash with
  | false => simpa [owned, Acl.ownedClause, hType rfl] using hVisible
  | true =>
      by_cases hTask : type = .task
      · subst hTask
        have hHidden : meets dialect db.relations
            [(rowHeader .task true, rowValues .task number row)]
            (equal (.column (some (tableOf .task true)) (named "hidden")) (.number false (lit "2"))) =
              decide (row.hidden = 2) := by
          have hColumn : eval dialect db.relations
              [(rowHeader .task true, rowValues .task number row)]
              (.column (some (tableOf .task true)) (named "hidden")) = .number row.hidden := rfl
          have hTwo : eval dialect db.relations
              [(rowHeader .task true, rowValues .task number row)] (.number false (lit "2")) =
                .number ((2 : Nat) : Int) := dialect.number_digit (ch '2') rfl
          rw [equal, meets_equal, hColumn, hTwo, comparedAs_number]
          simp
        simp only [owned, Acl.ownedClause, Bool.true_and, decide_true, if_true, meets_paren,
          meets_and, hHidden, hVisible]
      · simpa [owned, Acl.ownedClause, hTask] using hVisible

end Rows

/-! The names of columns. -/

section Columns

variable {db : Database} {headers : List Header}

theorem resolves_nameTest (permissions : List CString) :
    resolves db.relations (permissionHeader :: headers) (nameTest permissions) = true := by
  unfold nameTest
  split
  · rfl
  · split
    · rfl
    · rw [resolves_anyOf, List.all_eq_true, ← List.map_cons]
      intro e he
      obtain ⟨name, -, rfl⟩ := List.mem_map.mp he
      rfl

theorem resolves_subjectTest (user : CString) {test : Expr}
    (h : resolves db.relations (permissionHeader :: headers) test = true) :
    resolves db.relations (permissionHeader :: headers) (subjectTest user test) = true := by
  have hTest : resolves db.relations (permissionHeader :: headers) (.paren test) = true := h
  have hLocation : resolves db.relations (permissionHeader :: headers)
      (equal (columnOf "subject_location") zero) = true := rfl
  have hSubject : resolves db.relations (permissionHeader :: headers) (subject user) = true := rfl
  rw [subjectTest, resolves, resolves, hLocation, hSubject, hTest]
  rfl

theorem resolves_existsPermission (e : Expr) :
    resolves db.relations headers (.existsRow permissionSource e) =
      resolves db.relations (permissionHeader :: headers) e := rfl

variable {type : ResourceType} {trash : Bool}

theorem resolves_resource {name : Name}
    (hName : ((rowHeader type trash).position (some (tableOf type trash)) name).isSome = true) :
    resolves db.relations [permissionHeader, rowHeader type trash]
      (equal (columnOf "resource") (.column (some (tableOf type trash)) name)) = true := by
  have hColumn : resolves db.relations [permissionHeader, rowHeader type trash]
      (columnOf "resource") = true := rfl
  rw [equal, resolves, hColumn, resolves, List.any_cons, List.any_cons, hName]
  simp

theorem resolves_permitted (user : CString) {test : Expr}
    (h : resolves db.relations [permissionHeader, rowHeader type trash] test = true) :
    resolves db.relations [rowHeader type trash] (permitted user type trash test) = true := by
  have hNumber := @resolves_resource db type trash (named "ROWID") (by rw [position_rowid]; rfl)
  have hType : resolves db.relations [permissionHeader, rowHeader type trash]
      (equal (columnOf "resource_type") (.literal type.text)) = true := rfl
  have hPlace : resolves db.relations [permissionHeader, rowHeader type trash]
      (equal (columnOf "resource_location") (location trash)) = true := rfl
  rw [permitted, resolves_existsPermission, resolves, resolves, resolves, hNumber, hType, hPlace,
    resolves_subjectTest user h]
  rfl

theorem resolves_taskPermitted (user : CString) {test : Expr}
    (h : resolves db.relations [permissionHeader, rowHeader .report trash] test = true) :
    resolves db.relations [rowHeader .report trash] (taskPermitted user trash test) = true := by
  have hTask := @resolves_resource db .report trash (named "task") (by cases trash <;> rfl)
  have hType : resolves db.relations [permissionHeader, rowHeader .report trash]
      (equal (columnOf "resource_type") (.literal (lit "task"))) = true := rfl
  rw [taskPermitted, resolves_existsPermission, resolves, resolves, hTask, hType,
    resolves_subjectTest user h]
  rfl

/-- The names in the `EXISTS` are found. -/
theorem resolves_permission (user : CString) {test : Expr}
    (h : resolves db.relations [permissionHeader, rowHeader type trash] test = true)
    {more : List Expr} (hMore : more.all (resolves db.relations [rowHeader type trash]) = true) :
    (permission user type trash test more).all (resolves db.relations [rowHeader type trash]) =
      true := by
  rw [permission, List.all_append, List.all_cons, resolves_permitted user h, hMore]
  by_cases hReport : type = .report
  · subst hReport
    rw [if_pos rfl, List.all_cons, resolves_taskPermitted user h, hMore]
    rfl
  · rw [if_neg hReport]
    rfl

theorem resolves_permissionOf (user : CString) (permissions : List CString) :
    (permissionOf user type trash permissions).all (resolves db.relations [rowHeader type trash]) =
      true := by
  unfold permissionOf
  split
  · rfl
  · exact resolves_permission user (resolves_nameTest permissions) rfl

theorem resolves_owner (type : ResourceType) (trash : Bool) (table : Option Name)
    (hTable : table = none ∨ table = some (tableOf type trash)) :
    resolves db.relations [rowHeader type trash] (.column table (named "owner")) = type.hasOwner := by
  rw [resolves, List.any_cons, position_owner type trash table hTable]
  cases type.hasOwner <;> rfl

/-- The names in the clause are found where the type has owners. -/
theorem resolves_visible (user : CString) {permission : List Expr}
    (h : permission.all (resolves db.relations [rowHeader type trash]) = true) :
    resolves db.relations [rowHeader type trash] (visible user type trash permission) =
      type.hasOwner := by
  have hOwner := @resolves_owner db type trash _ (.inr rfl)
  have hUser : resolves db.relations [rowHeader type trash] (selectUuid user) = true := rfl
  have hOwn : resolves db.relations [rowHeader type trash]
      (.paren (equal (ownerOf type trash) (selectUuid user))) = type.hasOwner := by
    rw [resolves, equal, resolves, ownerOf, hOwner, hUser, Bool.and_true]
  have hNull : resolves db.relations [rowHeader type trash]
      (.paren (.isNull (ownerOf type trash))) = type.hasOwner := hOwner
  rw [visible, resolves, resolves_anyOf, List.all_cons, List.all_cons, hNull, hOwn, h, Bool.and_true,
    Bool.and_self]

theorem resolves_owned (user : CString) {permission : List Expr}
    (h : permission.all (resolves db.relations [rowHeader type trash]) = true) :
    resolves db.relations [rowHeader type trash] (owned user type trash permission) =
      type.hasOwner := by
  have hVisible := resolves_visible user h
  by_cases hTask : (trash && type = .task) = true
  · obtain ⟨rfl, rfl⟩ : trash = true ∧ type = .task := by simpa using hTask
    have hHidden : resolves db.relations [rowHeader .task true]
        (equal (.column (some (tableOf .task true)) (named "hidden")) (.number false (lit "2"))) =
          true := rfl
    simp only [owned, Bool.true_and, decide_true, if_true]
    rw [resolves, resolves, hHidden, hVisible, Bool.true_and]
  · simpa only [owned, if_neg hTask] using hVisible

theorem resolves_ownRows (user : CString) (clause : Expr) :
    resolves db.relations [rowHeader type trash] (ownRows user clause) =
      (type.hasOwner && resolves db.relations [rowHeader type trash] clause) := by
  have hOwner := @resolves_owner db type trash none (.inl rfl)
  have hUser : resolves db.relations [rowHeader type trash] (selectUser (columnOf "uuid") user) =
      true := rfl
  have hOwn : resolves db.relations [rowHeader type trash]
      (.paren (.or (equal (columnOf "owner") (selectUser (columnOf "uuid") user))
        (.isNull (columnOf "owner")))) = type.hasOwner := by
    rw [resolves, resolves, resolves, equal, resolves, columnOf, hOwner, hUser, Bool.and_true,
      Bool.and_self]
  rw [ownRows, resolves, resolves, hOwn]

theorem resolves_rowsOf (name : CString) (clause : Expr) :
    resolves db.relations [rowHeader type trash] (rowsOf name clause) =
      (type.hasOwner && resolves db.relations [rowHeader type trash] clause) := by
  have hOwner := @resolves_owner db type trash none (.inl rfl)
  have hUser : resolves db.relations [rowHeader type trash] (selectUser (columnOf "name") name) =
      true := rfl
  rw [rowsOf, resolves, resolves, equal, resolves, columnOf, hOwner, hUser, Bool.and_true]

end Columns

/-! The whole condition. -/

/-- What a condition says about a row, if its names are known. -/
def answer (dialect : Dialect) (db : Database) (type : ResourceType) (trash : Bool) (number : Nat)
    (row : Row) (e : Expr) : Option Bool :=
  if resolves db.relations [rowHeader type trash] e then
    some (meets dialect db.relations [(rowHeader type trash, rowValues type number row)] e)
  else none

section Answers

variable {dialect : Dialect} {db : Database} {type : ResourceType} {trash : Bool} {number : Nat}
  {row : Row}

theorem answer_one : answer dialect db type trash number row one = some true := by
  have hValue : eval dialect db.relations [(rowHeader type trash, rowValues type number row)] one =
      .number 1 := dialect.number_digit (ch '1') rfl
  have hMeets : meets dialect db.relations [(rowHeader type trash, rowValues type number row)] one =
      true := by
    rw [meets, hValue]
    rfl
  rw [answer, hMeets]
  rfl

theorem answer_paren_one : answer dialect db type trash number row (.paren one) = some true :=
  @answer_one dialect db type trash number row

/-- The rows of the user, or of nobody, that meet the clause. -/
theorem answer_ownRows (user : CString) (clause : Expr) :
    answer dialect db type trash number row (ownRows user clause) =
      if type.hasOwner then
        (answer dialect db type trash number row clause).map (db.owns user row.owner && ·)
      else none := by
  cases hOwner : type.hasOwner with
  | false => simp [answer, resolves_ownRows, hOwner]
  | true =>
      have hColumn : eval dialect db.relations [(rowHeader type trash, rowValues type number row)]
          (columnOf "owner") = ownerValue row.owner := eval_owner hOwner none (.inl rfl) number row
      have hUser : eval dialect db.relations [(rowHeader type trash, rowValues type number row)]
          (selectUser (columnOf "uuid") user) = ownerValue (db.userRow user) :=
        eval_selectUser (fun _ => rfl) user
      have hOwn : meets dialect db.relations [(rowHeader type trash, rowValues type number row)]
          (ownRows user clause) = (db.owns user row.owner &&
            meets dialect db.relations [(rowHeader type trash, rowValues type number row)] clause) := by
        simp [ownRows, equal, hColumn, hUser, owns_eq dialect, Bool.or_comm]
      by_cases hClause : resolves db.relations [rowHeader type trash] clause = true
      · simp [answer, resolves_ownRows, hOwner, hClause, hOwn]
      · simp [answer, resolves_ownRows, hOwner, hClause]

/-- The rows of the owner that is asked for. -/
theorem answer_rowsOf (name : CString) (clause : Expr) :
    answer dialect db type trash number row (rowsOf name clause) =
      if type.hasOwner then
        (answer dialect db type trash number row clause).map
          ((row.owner.isSome && db.users.find? (·.name = name) = row.owner) && ·)
      else none := by
  cases hOwner : type.hasOwner with
  | false => simp [answer, resolves_rowsOf, hOwner]
  | true =>
      have hColumn : eval dialect db.relations [(rowHeader type trash, rowValues type number row)]
          (columnOf "owner") = ownerValue row.owner := eval_owner hOwner none (.inl rfl) number row
      have hUser : eval dialect db.relations [(rowHeader type trash, rowValues type number row)]
          (selectUser (columnOf "name") name) = ownerValue (db.users.find? (·.name = name)) :=
        eval_selectUser (fun _ => rfl) name
      have hOwn : meets dialect db.relations [(rowHeader type trash, rowValues type number row)]
          (rowsOf name clause) =
            ((row.owner.isSome && db.users.find? (·.name = name) = row.owner) &&
              meets dialect db.relations [(rowHeader type trash, rowValues type number row)] clause) := by
        simp [rowsOf, equal, hColumn, hUser, comparedAs_owners]
      by_cases hClause : resolves db.relations [rowHeader type trash] clause = true
      · simp [answer, resolves_rowsOf, hOwner, hClause, hOwn]
      · simp [answer, resolves_rowsOf, hOwner, hClause]

variable (hType : trash = false → type ≠ .permission) {permissions : List CString}
  (hQuoted : Quoted permissions)
include hType hQuoted

/-- The clause without an owner filter means what the model says. -/
theorem answer_owned (user : CString) :
    answer dialect db type trash number row
        (owned user type trash (permissionOf user type trash permissions)) =
      if type.hasOwner then
        some (Acl.ownedClause db user type trash (names permissions) number row)
      else none := by
  have hResolves := resolves_owned user (@resolves_permissionOf db type trash user permissions)
  cases hOwner : type.hasOwner with
  | false => simp [answer, hResolves, hOwner]
  | true => simp [answer, hResolves, hOwner, meets_owned hType hOwner user hQuoted]

/-- And so does the whole clause. -/
theorem answer_whereOwned (user : Option CString) (owned : Bool) (ownerFilter : Option CString)
    (resource : Nat) :
    answer dialect db type trash number row
        (whereOwnedExpr user type trash owned ownerFilter resource permissions) =
      Acl.whereOwned db user type trash owned ownerFilter resource (names permissions) number row := by
  cases owned with
  | false => exact answer_one
  | true =>
      have hNone : answer dialect db type trash number row
          (unfilteredExpr none type trash resource permissions) = some true := answer_paren_one
      have hSome (user : CString) : answer dialect db type trash number row
          (unfilteredExpr (some user) type trash resource permissions) =
            if resource ≠ 0 then some true
            else if type.hasOwner then
              some (Acl.ownedClause db user type trash (names permissions) number row)
            else none := by
        by_cases hResource : resource ≠ 0
        · rw [unfilteredExpr, if_pos hResource, if_pos hResource]
          exact answer_paren_one
        · rw [unfilteredExpr, if_neg hResource, if_neg hResource]
          exact answer_owned hType hQuoted user
      cases ownerFilter with
      | none =>
          refine (answer_ownRows _ _).trans ?_
          cases user with
          | none => rw [hNone]; rfl
          | some user => rw [hSome]; rfl
      | some name =>
          simp only [whereOwnedExpr, Acl.whereOwned, Bool.not_true, Bool.false_eq_true, if_false]
          by_cases hAny : name = lit "any"
          · rw [if_pos hAny, if_pos hAny]
            cases user with
            | none => exact hNone
            | some user => exact hSome user
          · rw [if_neg hAny, if_neg hAny, answer_rowsOf]
            cases user with
            | none => rw [hNone]
            | some user => rw [hSome]

end Answers

end Statement

/-- The text that `where_owned` returns finds the rows that the model of it lists, whatever bytes
are in the owner filter, when no permission of the filter leaves its quotes. -/
theorem finds_whereOwned (dialect : Dialect) (db : Database) {user : Option CString}
    (hUser : ∀ uuid ∈ user, apostrophe ∉ uuid) (admin : Bool) {type : ResourceType} {trash : Bool}
    (hType : trash = false → type ≠ .permission) (owned : Bool) (ownerFilter : Option CString)
    (resource : Nat) {permissions : List CString} (hQuoted : Statement.Quoted permissions)
    (number : Nat) (row : Row) :
    finds dialect db.relations (rowHeader type trash) (rowValues type number row)
        (Statement.whereOwned user admin type trash owned ownerFilter resource permissions) =
      whereOwned db user type trash owned ownerFilter resource (Statement.names permissions) number
        row := by
  have hText := Statement.condition_whereOwned (fun uuid hMem => unquote_plain (hUser uuid hMem))
    admin hType owned ownerFilter resource hQuoted
  rw [finds, hText]
  exact Statement.answer_whereOwned hType hQuoted user owned ownerFilter resource

/-- The role of a user who has the text of the owner filter in their name. -/
def ruled : Database where
  users := Table.empty.insert ⟨lit "u", lit "') OR ('1'='1"⟩
  groupUsers := []
  roleUsers := [(4, 1)]
  permissions := Table.empty.insert
    { uuid := lit "p"
      owner := none
      name := lit "get_tasks"
      resourceType := some .task
      resource := 3
      resourceUuid := lit "t"
      resourceLocation := .table
      subjectType := .role
      subject := 4
      subjectLocation := .table }
  tables _ _ := Table.empty
  reportResults := []

theorem finds_whereOwned_report :
    finds .plain ruled.relations (rowHeader .report false)
        (rowValues .report 9 ⟨lit "r", some 1, 0, 3⟩)
        (Statement.whereOwned (some (lit "u")) false .report false true
          (some (lit "') OR ('1'='1")) 0 [lit "get_tasks", lit "o''clock"]) =
      whereOwned ruled (some (lit "u")) .report false true (some (lit "') OR ('1'='1")) 0
        (Statement.names [lit "get_tasks", lit "o''clock"]) 9 ⟨lit "r", some 1, 0, 3⟩ :=
  finds_whereOwned .plain ruled (by decide) false (by decide) true _ 0 (by decide) 9 _

end Acl
