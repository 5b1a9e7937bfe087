import OpenVAS.Acl.Basic

/-! Access to one resource and the list of all resources. Both write the same rule as a
statement; this is where the two statements differ. -/
namespace Acl

open CString
open Trashcan (Location)

/-- A row is in a table or in the trashcan, which for tasks is the same table. -/
def InPlace (db : Database) (type : ResourceType) (location : Location) (number : Nat)
    (row : Row) : Prop :=
  (number, row) ∈ (db.table type (location = .trash)).rows ∧
    (type = .task → if location = .trash then row.hidden = 2 else row.hidden < 2)

/-- Every permission on a resource names the row that has its number and its UUID. -/
def Database.Consistent (db : Database) : Prop :=
  ∀ entry ∈ db.permissions.rows, ∀ type ∈ entry.2.resourceType, ∃ row,
    InPlace db type entry.2.resourceLocation entry.2.resource row ∧
      row.uuid = entry.2.resourceUuid

/-- A UUID is in one row of a table. -/
def Database.UuidsUnique (db : Database) : Prop :=
  ∀ type trash, ∀ one ∈ (db.table type trash).rows, ∀ two ∈ (db.table type trash).rows,
    one.2.uuid = two.2.uuid → one = two

/-- A permission of the user on the row itself. -/
def Permitted (db : Database) (user : CString) (type : ResourceType) (location : Location)
    (number : Nat) : Prop :=
  ∃ entry ∈ db.permissions.rows, db.isSubject user entry.2 = true ∧ entry.2.resource = number ∧
    entry.2.resourceType = some type ∧ entry.2.resourceLocation = location

/-- A permission of the user on something of another type or in another place that has the
UUID, too. -/
def PermittedElsewhere (db : Database) (user : CString) (type : ResourceType)
    (location : Location) (uuid : CString) : Prop :=
  ∃ entry ∈ db.permissions.rows, db.isSubject user entry.2 = true ∧
    entry.2.resourceUuid = uuid ∧
    ¬ (entry.2.resourceType = some type ∧ entry.2.resourceLocation = location)

/-- When both ways lead to the same answer. In the trashcan only the list asks for permissions;
outside only the single access mistakes a permission for one on this resource, and only the list
shows tasks that are in the trashcan. -/
def Agrees (db : Database) (user : CString) (type : ResourceType) (trash : Bool) (number : Nat)
    (row : Row) : Prop :=
  type.isInfo = false ∧
    if trash = true then
      (type = .task ∧ row.hidden ≠ 2) ∨ db.owns user row.owner = true ∨
        ¬ Permitted db user type .trash number
    else if type = .task ∧ ¬ row.hidden < 2 then
      (db.owns user row.owner = true ↔ PermittedElsewhere db user type .table row.uuid)
    else
      db.owns user row.owner = true ∨ Permitted db user type .table number ∨
        ¬ PermittedElsewhere db user type .table row.uuid

section Rules

variable {db : Database} {user : CString} {type : ResourceType} {number : Nat} {row : Row}

/-- The single access asks for the only row with the UUID. -/
theorem userOwnsUuid_iff {trash : Bool} (hUnique : db.UuidsUnique) (hResult : type ≠ .result)
    (hInfo : type.isInfo = false) (hRow : (number, row) ∈ (db.table type trash).rows) :
    userOwnsUuid db user type row.uuid trash = true ↔
      (type = .task → if trash = true then row.hidden = 2 else row.hidden < 2) ∧
        db.owns user row.owner = true := by
  rw [userOwnsUuid, if_neg hResult, if_neg (ne_true_of_eq_false hInfo)]
  simp only [Table.any, List.any_eq_true, Bool.and_eq_true, decide_eq_true_eq]
  constructor
  · rintro ⟨other, hOther, ⟨hUuid, hHidden⟩, hOwns⟩
    obtain rfl := hUnique type trash _ hOther _ hRow hUuid
    refine ⟨fun hTask => ?_, hOwns⟩
    simpa [hTask] using hHidden
  · rintro ⟨hHidden, hOwns⟩
    refine ⟨(number, row), hRow, ⟨rfl, ?_⟩, hOwns⟩
    by_cases hTask : type = .task
    · simpa [hTask] using hHidden hTask
    · simp [hTask]

/-- For the other types access is being the owner or, outside of the trashcan, a permission. -/
theorem userHasAccessUuid_eq {uuid : CString} {permission : Option CString} {trash : Bool}
    (hPermission : type ≠ .permission) (hReport : type ≠ .report) (hResult : type ≠ .result) :
    userHasAccessUuid db user type uuid permission trash =
      (userOwnsUuid db user type uuid trash ||
        (!trash && hasPermission db user uuid permission)) := by
  unfold userHasAccessUuid
  cases userOwnsUuid db user type uuid trash with
  | true => rfl
  | false =>
      cases trash with
      | true => rfl
      | false =>
          cases type with
          | permission => exact absurd rfl hPermission
          | report => exact absurd rfl hReport
          | result => exact absurd rfl hResult
          | _ => rfl

/-- Outside of the trashcan a permission on the row has its UUID, and one with its UUID that
is not on the row is on something else. -/
theorem hasPermission_iff {permission : Option CString} (hConsistent : db.Consistent)
    (hUnique : db.UuidsUnique) (hGet : isGet permission = true)
    (hRow : InPlace db type .table number row) :
    hasPermission db user row.uuid permission = true ↔
      Permitted db user type .table number ∨ PermittedElsewhere db user type .table row.uuid := by
  simp only [hasPermission, hGet, Table.any, List.any_eq_true, Bool.and_eq_true, decide_eq_true_eq,
    Bool.true_or, and_true]
  constructor
  · rintro ⟨entry, hEntry, hUuid, hSubject⟩
    by_cases hHere : entry.2.resourceType = some type ∧ entry.2.resourceLocation = .table
    · obtain ⟨other, hOther, hOtherUuid⟩ := hConsistent entry hEntry type hHere.1
      rw [hHere.2] at hOther
      have hSame := hUnique type false _ hOther.1 _ hRow.1 (hOtherUuid.trans hUuid)
      exact .inl ⟨entry, hEntry, hSubject, congrArg Prod.fst hSame, hHere.1, hHere.2⟩
    · exact .inr ⟨entry, hEntry, hSubject, hUuid, hHere⟩
  · rintro (⟨entry, hEntry, hSubject, hNumber, hType, hLocation⟩ |
      ⟨entry, hEntry, hSubject, hUuid, -⟩)
    · obtain ⟨other, hOther, hOtherUuid⟩ := hConsistent entry hEntry type hType
      rw [hLocation, hNumber] at hOther
      obtain rfl := Table.row_eq hOther.1 hRow.1
      exact ⟨entry, hEntry, hOtherUuid.symm, hSubject⟩
    · exact ⟨entry, hEntry, hUuid, hSubject⟩

/-- A task in the trashcan has no permission that is outside of it. -/
theorem not_permitted_of_hidden (hConsistent : db.Consistent)
    (hRow : (number, row) ∈ (db.table .task false).rows) (hHidden : ¬ row.hidden < 2) :
    ¬ Permitted db user .task .table number := by
  rintro ⟨entry, hEntry, -, hNumber, hType, hLocation⟩
  obtain ⟨other, hOther, -⟩ := hConsistent entry hEntry .task hType
  rw [hLocation, hNumber] at hOther
  obtain rfl := Table.row_eq hOther.1 hRow
  exact hHidden (hOther.2 rfl)

/-- The UUID of such a task is not that of a task outside of the trashcan. -/
theorem hasPermission_iff_of_hidden {permission : Option CString} (hConsistent : db.Consistent)
    (hUnique : db.UuidsUnique) (hGet : isGet permission = true)
    (hRow : (number, row) ∈ (db.table .task false).rows) (hHidden : ¬ row.hidden < 2) :
    hasPermission db user row.uuid permission = true ↔
      PermittedElsewhere db user .task .table row.uuid := by
  simp only [hasPermission, hGet, Table.any, List.any_eq_true, Bool.and_eq_true, decide_eq_true_eq,
    Bool.true_or, and_true]
  constructor
  · rintro ⟨entry, hEntry, hUuid, hSubject⟩
    refine ⟨entry, hEntry, hSubject, hUuid, fun ⟨hType, hLocation⟩ => ?_⟩
    obtain ⟨other, hOther, hOtherUuid⟩ := hConsistent entry hEntry .task hType
    rw [hLocation] at hOther
    have hSame := hUnique .task false _ hOther.1 _ hRow (hOtherUuid.trans hUuid)
    obtain ⟨-, rfl⟩ := Prod.mk.inj hSame
    exact hHidden (hOther.2 rfl)
  · rintro ⟨entry, hEntry, hSubject, hUuid, -⟩
    exact ⟨entry, hEntry, hUuid, hSubject⟩

/-- With any permission in the filter, the clause asks for a permission on the row. -/
theorem permissionClause_iff {trash : Bool} (hReport : type ≠ .report) :
    permissionClause db user type trash [lit "any"] number row = true ↔
      Permitted db user type (if trash then .trash else .table) number := by
  have hAny : [lit "any"].any (strcaseeq · (lit "any")) = true := by decide
  simp only [permissionClause, hAny, Bool.true_or, Bool.and_true, hReport, decide_false,
    Bool.false_and, Bool.or_false, Table.any, List.any_eq_true, Bool.and_eq_true,
    decide_eq_true_eq, Permitted]
  constructor
  · rintro ⟨entry, hEntry, ⟨⟨hNumber, hType⟩, hLocation⟩, hSubject⟩
    exact ⟨entry, hEntry, hSubject, hNumber, hType, hLocation⟩
  · rintro ⟨entry, hEntry, hSubject, hNumber, hType, hLocation⟩
    exact ⟨entry, hEntry, ⟨⟨hNumber, hType⟩, hLocation⟩, hSubject⟩

/-- A row is listed for its owner and for who has any permission on it. -/
theorem whereOwned_iff {trash : Bool} (hPermission : type ≠ .permission)
    (hReport : type ≠ .report) (hOwner : type.hasOwner = true) :
    whereOwned db (some user) type trash true (some (lit "any")) 0 [lit "any"] number row =
        some true ↔
      (trash = true → type = .task → row.hidden = 2) ∧
        (db.owns user row.owner = true ∨
          Permitted db user type (if trash then .trash else .table) number) := by
  simp only [whereOwned, Bool.not_true, hOwner, ownedClause]
  cases trash with
  | true =>
      have hClause : permissionClause db user type true [lit "any"] number row = true ↔
          Permitted db user type .trash number := permissionClause_iff hReport
      by_cases hTask : type = .task
      · subst hTask
        simp [hClause]
      · simp [hTask, hClause]
  | false =>
      have hClause : permissionClause db user type false [lit "any"] number row = true ↔
          Permitted db user type .table number := permissionClause_iff hReport
      simp [hPermission, hClause]

end Rules

/-- The two ways lead to the same answer exactly for the rows for which they agree. -/
theorem access_iff_listed_iff {db : Database} {user : CString} {type : ResourceType}
    {trash : Bool} {permission : Option CString} {number : Nat} {row : Row}
    (hConsistent : db.Consistent) (hUnique : db.UuidsUnique)
    (hType : type ≠ .permission ∧ type ≠ .report ∧ type ≠ .result)
    (hGet : isGet permission = true) (hRow : (number, row) ∈ (db.table type trash).rows) :
    (userHasAccessUuid db user type row.uuid permission trash = true ↔
        whereOwned db (some user) type trash true (some (lit "any")) 0 [lit "any"] number row =
          some true) ↔
      Agrees db user type trash number row := by
  obtain ⟨hPermission, hReport, hResult⟩ := hType
  rw [userHasAccessUuid_eq hPermission hReport hResult, Agrees]
  cases hInfo : type.isInfo with
  | true =>
      have hAccess : userOwnsUuid db user type row.uuid trash = true := by
        rw [userOwnsUuid, if_neg hResult, if_pos hInfo]
      have hListed : whereOwned db (some user) type trash true (some (lit "any")) 0 [lit "any"]
          number row = none := by
        simp [whereOwned, ResourceType.hasOwner, hInfo]
      simp [hAccess, hListed]
  | false =>
      have hOwner : type.hasOwner = true := by simp [ResourceType.hasOwner, hInfo, hResult]
      rw [Bool.or_eq_true, userOwnsUuid_iff hUnique hResult hInfo hRow,
        whereOwned_iff hPermission hReport hOwner]
      cases trash with
      | true =>
          simp only [if_true, Bool.not_true, Bool.false_and, Bool.false_eq_true, or_false, forall_const]
          by_cases hHidden : type = .task → row.hidden = 2
          · have hPlace : ¬ (type = .task ∧ row.hidden ≠ 2) := fun h => h.2 (hHidden h.1)
            grind only
          · have hPlace : type = .task ∧ row.hidden ≠ 2 := by simpa using hHidden
            grind only
      | false =>
          simp only [Bool.false_eq_true, if_false, Bool.not_false, Bool.true_and, false_imp_iff,
            true_and]
          by_cases hHidden : type = .task ∧ ¬ row.hidden < 2
          · obtain ⟨rfl, hHidden⟩ := hHidden
            have hNone := @not_permitted_of_hidden db user number row hConsistent hRow hHidden
            rw [hasPermission_iff_of_hidden hConsistent hUnique hGet hRow hHidden,
              if_pos ⟨rfl, hHidden⟩]
            grind only
          · have hFits : type = .task → row.hidden < 2 := fun hTask => by
              by_contra hNot
              exact hHidden ⟨hTask, hNot⟩
            have hPlace : InPlace db type .table number row := ⟨hRow, hFits⟩
            rw [hasPermission_iff hConsistent hUnique hGet hPlace, if_neg hHidden]
            grind only

/-- A target in the trashcan of `owner` on which `guest` has a permission. -/
def binned : Database where
  users := (Table.empty.insert ⟨lit "owner", lit "owner"⟩).insert ⟨lit "guest", lit "guest"⟩
  groupUsers := []
  roleUsers := []
  permissions := Table.empty.insert
    { uuid := lit "p"
      owner := some 1
      name := lit "get_targets"
      resourceType := some .target
      resource := 1
      resourceUuid := lit "t"
      resourceLocation := .trash
      subjectType := .user
      subject := 2
      subjectLocation := .table }
  tables type location :=
    if type = .target ∧ location = .trash then Table.empty.insert ⟨lit "t", some 1, 0, 0⟩
    else Table.empty
  reportResults := []

theorem binned_consistent : binned.Consistent := by
  intro entry hEntry type hType
  obtain rfl := List.mem_singleton.mp hEntry
  obtain rfl := Option.some_inj.mp hType
  exact ⟨⟨lit "t", some 1, 0, 0⟩, ⟨by decide +kernel, nofun⟩, rfl⟩

theorem binned_uuidsUnique : binned.UuidsUnique := by
  intro type trash one hOne two hTwo _
  by_cases hTable : type = .target ∧ Database.location type trash = .trash
  · simp only [Database.table, binned, if_pos hTable] at hOne hTwo
    rw [List.mem_singleton.mp hOne, List.mem_singleton.mp hTwo]
  · simp only [Database.table, binned, if_neg hTable] at hOne
    exact absurd hOne List.not_mem_nil

theorem access_iff_listed_iff_owner :
    userHasAccessUuid binned (lit "owner") .target (lit "t") (some (lit "get_targets")) true = true ↔
      whereOwned binned (some (lit "owner")) .target true true (some (lit "any")) 0 [lit "any"] 1
        ⟨lit "t", some 1, 0, 0⟩ = some true := by
  have hAgrees : Agrees binned (lit "owner") .target true 1 ⟨lit "t", some 1, 0, 0⟩ :=
    ⟨rfl, Or.inr (Or.inl (by decide +kernel))⟩
  exact (@access_iff_listed_iff binned (lit "owner") .target true (some (lit "get_targets")) 1
    ⟨lit "t", some 1, 0, 0⟩ binned_consistent binned_uuidsUnique (by decide) (by decide)
    (by decide +kernel)).mpr hAgrees

/-- The guest sees the target in the list and may not open it. -/
theorem not_access_iff_listed :
    binned.Consistent ∧ binned.UuidsUnique ∧
      (1, ⟨lit "t", some 1, 0, 0⟩) ∈ (binned.table .target true).rows ∧
      ¬ (userHasAccessUuid binned (lit "guest") .target (lit "t") (some (lit "get_targets")) true =
          true ↔
        whereOwned binned (some (lit "guest")) .target true true (some (lit "any")) 0 [lit "any"] 1
          ⟨lit "t", some 1, 0, 0⟩ = some true) :=
  ⟨binned_consistent, binned_uuidsUnique, by decide +kernel, by decide +kernel⟩

end Acl
