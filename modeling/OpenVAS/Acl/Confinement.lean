import OpenVAS.Acl.Agreement
import OpenVAS.Acl.Meaning
import OpenVAS.Filters.Clause

/-! What a list shows to a user, for every filter that the user may write. -/
namespace Acl

open CString Sql
open Statement (Quoted names)

/-- A permission of the user on the task of a report. -/
def TaskPermitted (db : Database) (user : CString) (row : Row) : Prop :=
  ∃ entry ∈ db.permissions.rows, db.isSubject user entry.2 = true ∧ entry.2.resource = row.task ∧
    entry.2.resourceType = some .task

/-- The rows of which a user may know. -/
def Visible (db : Database) (user : CString) (type : ResourceType) (number : Nat) (row : Row) : Prop :=
  row.owner = none ∨ (row.owner.isSome = true ∧ row.owner = db.userRow user) ∨
    Permitted db user type .table number ∨ (type = .report ∧ TaskPermitted db user row)

section Rules

variable {db : Database} {user : CString} {type : ResourceType} {number : Nat} {row : Row}

/-- An owner sees the row. -/
theorem visible_of_owns (h : db.owns user row.owner = true) : Visible db user type number row := by
  cases hOwner : row.owner with
  | none => exact .inl hOwner
  | some owner =>
      rw [hOwner] at h
      have hUser : db.userRow user = some owner := of_decide_eq_true h
      refine .inr (.inl ⟨?_, ?_⟩)
      · rw [hOwner]
        rfl
      · rw [hOwner, hUser]

/-- So does who has one of the permissions, whatever they are named. -/
theorem visible_of_permissionClause {permissions : List CString}
    (h : permissionClause db user type false permissions number row = true) :
    Visible db user type number row := by
  simp only [permissionClause, Table.any, Bool.or_eq_true, Bool.and_eq_true, List.any_eq_true,
    decide_eq_true_eq, Bool.false_eq_true, if_false] at h
  rcases h with ⟨entry, hEntry, ⟨⟨⟨hNumber, hType⟩, hLocation⟩, hSubject⟩, -⟩ |
    ⟨hReport, entry, hEntry, ⟨⟨hTask, hType⟩, hSubject⟩, -⟩
  · exact .inr (.inr (.inl ⟨entry, hEntry, hSubject, hNumber, hType, hLocation⟩))
  · exact .inr (.inr (.inr ⟨hReport, entry, hEntry, hSubject, hTask, hType⟩))

/-- The clause without an owner filter lists visible rows only. -/
theorem visible_of_ownedClause (hType : type ≠ .permission) {permissions : List CString}
    (h : ownedClause db user type false permissions number row = true) :
    Visible db user type number row := by
  have hOwned : db.owns user row.owner = true ∨ permissions ≠ [] ∧
      permissionClause db user type false permissions number row = true := by
    simpa [ownedClause, hType] using h
  rcases hOwned with hOwns | ⟨-, hPermission⟩
  · exact visible_of_owns hOwns
  · exact visible_of_permissionClause hPermission

/-- Whatever the owner filter and the permissions are, a list only shows what is visible. -/
theorem visible_of_whereOwned (hType : type ≠ .permission) {ownerFilter : Option CString}
    {permissions : List CString}
    (h : whereOwned db (some user) type false true ownerFilter 0 permissions number row = some true) :
    Visible db user type number row := by
  have hOwned : ownedClause db user type false permissions number row = true := by
    cases hOwner : type.hasOwner with
    | false => cases ownerFilter <;> simp [whereOwned, hOwner] at h
    | true =>
        cases ownerFilter with
        | none =>
            have hBoth : db.owns user row.owner = true ∧
                ownedClause db user type false permissions number row = true := by
              simpa [whereOwned, hOwner] using h
            exact hBoth.2
        | some name =>
            by_cases hAny : name = lit "any"
            · simpa [whereOwned, hOwner, hAny] using h
            · have hBoth := h
              simp only [whereOwned, hOwner, if_neg hAny] at hBoth
              simp at hBoth
              exact hBoth.2
  exact visible_of_ownedClause hType hOwned

end Rules

/-- For every filter whose permissions stay in their quotes, the rows that meet the condition are
rows of which the user may know. -/
theorem visible_of_finds (dialect : Dialect) (db : Database) (listing : Filters.Listing)
    (rowsPerPage : Int32) (filter : Option CString) {user : CString} (hUser : apostrophe ∉ user)
    (admin : Bool) {type : ResourceType} (hType : type ≠ .permission)
    (hQuoted : Quoted (Filters.filterClause listing rowsPerPage filter).permissions) {number : Nat}
    {row : Row}
    (hFound : finds dialect db.relations (rowHeader type false) (rowValues type number row)
      (Statement.whereOwned (some user) admin type false true
        (Filters.filterClause listing rowsPerPage filter).ownerFilter 0
        (Filters.filterClause listing rowsPerPage filter).permissions) = some true) :
    Visible db user type number row := by
  have hPlain : ∀ uuid ∈ some user, apostrophe ∉ uuid := by
    intro uuid hMem
    rwa [← Option.some.inj hMem]
  rw [finds, Statement.condition_whereOwned (fun uuid hMem => unquote_plain (hPlain uuid hMem)) admin
    (fun _ => hType) true _ 0 hQuoted] at hFound
  apply visible_of_whereOwned hType
  exact (Statement.answer_whereOwned (fun _ => hType) hQuoted (some user) true
    (Filters.filterClause listing rowsPerPage filter).ownerFilter 0).symm.trans hFound

/-- A list of targets for a filter with two permissions. -/
def targetListing : Filters.Listing where
  type := lit "target"
  columns := [lit "name", lit "_owner"]
  trash := false
  value _ := .string
  scansDouble _ := false

/-- A target of `owner` on which `guest` has a permission. -/
def shared : Database :=
  { binned with
    permissions := Table.empty.insert
      { uuid := lit "p"
        owner := some 1
        name := lit "get_targets"
        resourceType := some .target
        resource := 1
        resourceUuid := lit "t"
        resourceLocation := .table
        subjectType := .user
        subject := 2
        subjectLocation := .table }
    tables := fun type location =>
      if type = .target ∧ location = .table then Table.empty.insert ⟨lit "t", some 1, 0, 0⟩
      else Table.empty }

def guestFilter : CString := lit "owner=any permission=\"o''clock\" permission=get_targets"

theorem visible_of_finds_guest : Visible shared (lit "guest") .target 1 ⟨lit "t", some 1, 0, 0⟩ := by
  have hUser : ∀ uuid ∈ some (lit "guest"), apostrophe ∉ uuid := by decide
  have hQuoted : Quoted (Filters.filterClause targetListing 10 (some guestFilter)).permissions := by
    decide
  apply visible_of_finds .plain shared targetListing 10 (some guestFilter) (by decide) false
    (by decide) hQuoted
  rw [finds, Statement.condition_whereOwned (fun uuid hMem => unquote_plain (hUser uuid hMem)) false
    (fun _ => by decide) true _ 0 hQuoted]
  apply (Statement.answer_whereOwned (fun _ => by decide) hQuoted _ true _ 0).trans
  decide

/-! A permission that leaves its quotes. -/

/-- A filter whose permission closes the parentheses of the condition. -/
def everyRow : CString := lit "owner=any permission=\"x')) OR (('1'='1\""

/-- Sorting terms only change the order. -/
theorem sort_frame (listing : Filters.Listing) (reverse : Bool) (string : CString)
    (state : Filters.State) :
    (state.sort listing reverse string).permissions = state.permissions ∧
      (state.sort listing reverse string).ownerFilter = state.ownerFilter := by
  unfold Filters.State.sort
  dsimp only
  split
  · exact ⟨rfl, rfl⟩
  · split
    · exact ⟨rfl, rfl⟩
    · exact ⟨rfl, rfl⟩

/-- The term `owner=` sets the owner filter. -/
theorem term_owner {listing : Filters.Listing} (hOwner : lit "_owner" ∈ listing.columns)
    (string : CString) :
    Filters.State.start.term listing ⟨some (lit "owner"), .columnEqual, string, false, false⟩ =
      { Filters.State.start with ownerFilter := some string } := by
  have hEffect : Filters.columnEffect listing
      ⟨some (lit "owner"), .columnEqual, string, false, false⟩ (lit "owner") = .owner := by
    have hFound : Filters.vectorFindFilter listing.columns (lit "owner") ≠ none := by
      have hName : ch '_' :: lit "owner" ∈ listing.columns := hOwner
      unfold Filters.vectorFindFilter
      by_cases hPlain : lit "owner" ∈ listing.columns
      · simp [hPlain]
      · simp [hPlain, hName]
    obtain ⟨found, hFound⟩ := Option.ne_none_iff_exists'.mp hFound
    have hType : Filters.idType (lit "owner") = none := by decide
    simp [Filters.columnEffect, hFound, hType]
  simp [Filters.State.term, hEffect, Filters.State.start]

/-- What the filter gives: the text that closes the clause, and any owner. -/
theorem filterClause_everyRow {listing : Filters.Listing} (hOwner : lit "_owner" ∈ listing.columns)
    (rowsPerPage : Int32) :
    (Filters.filterClause listing rowsPerPage (some everyRow)).permissions =
        [lit "x')) OR (('1'='1"] ∧
      (Filters.filterClause listing rowsPerPage (some everyRow)).ownerFilter = some (lit "any") := by
  have hKeywords : Filters.filterKeywords (some everyRow) =
      [⟨some (lit "owner"), .columnEqual, lit "any", false, false⟩,
        ⟨some (lit "permission"), .columnEqual, lit "x')) OR (('1'='1", true, false⟩,
        ⟨some (lit "first"), .columnEqual, lit "1", false, false⟩,
        ⟨some (lit "rows"), .columnEqual, lit "-2", false, false⟩,
        ⟨some (lit "sort"), .columnEqual, lit "name", false, false⟩] := by
    decide
  have hOwnerKind : Filters.kind ⟨some (lit "owner"), .columnEqual, lit "any", false, false⟩ =
      .term := by decide
  have hPermissionKind : Filters.kind
      ⟨some (lit "permission"), .columnEqual, lit "x')) OR (('1'='1", true, false⟩ = .permission := by
    decide
  have hFirstKind : Filters.kind ⟨some (lit "first"), .columnEqual, lit "1", false, false⟩ = .first := by
    decide
  have hRowsKind : Filters.kind ⟨some (lit "rows"), .columnEqual, lit "-2", false, false⟩ = .rows := by
    decide
  have hSortKind : Filters.kind ⟨some (lit "sort"), .columnEqual, lit "name", false, false⟩ =
      .sort false := by decide
  simp only [Filters.filterClause, Filters.filterState, hKeywords, List.foldl_cons, List.foldl_nil,
    Filters.filterStep, hOwnerKind, hPermissionKind, hFirstKind, hRowsKind, hSortKind,
    term_owner hOwner, sort_frame]
  exact ⟨rfl, trivial⟩

/-- What the text adds to the condition. -/
def always : Expr := .paren (.paren (Statement.equal (.literal (lit "1")) (.literal (lit "1"))))

/-- With this filter every user sees every row of every type that has owners. Permissions are left
out: `where_owned` has a branch of its own for them. -/
theorem finds_everyRow (dialect : Dialect) (db : Database) {listing : Filters.Listing}
    (hOwner : lit "_owner" ∈ listing.columns) (rowsPerPage : Int32) {user : CString}
    (hUser : apostrophe ∉ user) (admin : Bool) {type : ResourceType} (hType : type ≠ .permission)
    (hHasOwner : type.hasOwner = true) (number : Nat) (row : Row) :
    finds dialect db.relations (rowHeader type false) (rowValues type number row)
      (Statement.whereOwned (some user) admin type false true
        (Filters.filterClause listing rowsPerPage (some everyRow)).ownerFilter 0
        (Filters.filterClause listing rowsPerPage (some everyRow)).permissions) = some true := by
  obtain ⟨hPermissions, hFilter⟩ := filterClause_everyRow hOwner rowsPerPage
  rw [hPermissions, hFilter]
  have hPermission : Reads .between (Statement.permissionOr [lit "x')) OR (('1'='1"] ++ lit "))")
      ((Statement.nameIs (lit "x")).words ++ sign ")" :: sign ")" ::
        Statement.alternatives [always]) .between := by
    decide
  have hWords : Reads .between (Statement.ownedClause user admin type false [lit "x')) OR (('1'='1"])
      (Statement.owned user type false
        (Statement.permission user type false (Statement.nameIs (lit "x")) [always])).words .between :=
    Statement.reads_ownedClause (unquote_plain hUser) admin (fun _ => hType)
      (Statement.reads_permissionClause (unquote_plain hUser) hPermission type false)
  have hFits : (Statement.owned user type false
      (Statement.permission user type false (Statement.nameIs (lit "x")) [always])).fits = true := by
    refine Statement.fits_owned user type false
      (Statement.joins_permission user type false rfl fun e he => ?_)
    obtain rfl := List.mem_singleton.mp he
    exact ⟨rfl, rfl⟩
  have hText : condition (Statement.whereOwned (some user) admin type false true (some (lit "any")) 0
      [lit "x')) OR (('1'='1"]) = some (Statement.owned user type false
        (Statement.permission user type false (Statement.nameIs (lit "x")) [always])) :=
    condition_words hFits hWords.tokens
  have hResolves : resolves db.relations [rowHeader type false] (Statement.owned user type false
      (Statement.permission user type false (Statement.nameIs (lit "x")) [always])) = true := by
    rw [Statement.resolves_owned user (Statement.resolves_permission user rfl rfl), hHasOwner]
  have hAlways : meets dialect db.relations [(rowHeader type false, rowValues type number row)]
      always = true := by
    simp [always, Statement.equal, eval, Statement.comparedAs_text]
  have hMeets : meets dialect db.relations [(rowHeader type false, rowValues type number row)]
      (Statement.owned user type false
        (Statement.permission user type false (Statement.nameIs (lit "x")) [always])) = true := by
    have hVisible := @Statement.meets_visible dialect db type false hHasOwner user
      (Statement.permission user type false (Statement.nameIs (lit "x")) [always]) number row
    have hMember : always ∈ Statement.permission user type false (Statement.nameIs (lit "x"))
        [always] := by simp [Statement.permission]
    simp only [Statement.owned, Bool.false_and, Bool.false_eq_true, if_false, hVisible]
    rw [List.any_eq_true.mpr ⟨always, hMember, hAlways⟩, Bool.or_true]
  rw [finds, hText, Option.bind_some, if_pos hResolves, hMeets]

theorem finds_everyRow_guest :
    finds .plain shared.relations (rowHeader .target false)
      (rowValues .target 7 ⟨lit "t", some 1, 0, 0⟩)
      (Statement.whereOwned (some (lit "guest")) false .target false true
        (Filters.filterClause targetListing 10 (some everyRow)).ownerFilter 0
        (Filters.filterClause targetListing 10 (some everyRow)).permissions) = some true :=
  finds_everyRow .plain shared (by decide) 10 (by decide) false (by decide) rfl 7
    ⟨lit "t", some 1, 0, 0⟩

end Acl
