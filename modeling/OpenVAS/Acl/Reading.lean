import OpenVAS.Acl.Statement

/-! The text of `where_owned` has the words of the expression, so it is read as the expression. -/
namespace Acl

open CString Sql

theorem Statement.isName_tableOf (type : ResourceType) (trash : Bool) :
    IsName (Statement.tableOf type trash).text := by
  cases type <;> cases trash <;> exact ⟨_, _, rfl, by decide, List.all_eq_true.mp (by decide)⟩

theorem ResourceType.unquote_text (type : ResourceType) : unquote type.text = some type.text := by
  cases type <;> exact unquote_plain (by decide)

namespace Statement

section Pieces

variable {user permissionOr : CString} {words : List Token}

/-- The user in the tables of the members of groups and roles. -/
theorem reads_memberUser : Reads .between
    (lit "WHERE user = (SELECT ROWID                                 FROM users ")
    [word "WHERE", word "user", sign "=", sign "(", word "SELECT", word "ROWID", word "FROM",
      word "users"] .between := by
  repeat rw [lit_ofList]
  decide

theorem reads_memberUuid : Reads .between
    (lit "                                WHERE users.uuid                                       = '")
    [word "WHERE", word "users", sign ".", word "uuid", sign "="] (.literal []) := by
  repeat rw [lit_ofList]
  decide

theorem closes_groupSubject : Closes groupSubject
    [sign ")", sign ")", word "OR", sign "(", word "subject_type", sign "=", .literal (lit "group"),
      word "AND", word "subject", word "IN", sign "(", word "SELECT", word "DISTINCT",
      .name (lit "group"), word "FROM", word "group_users", word "WHERE", word "user", sign "=",
      sign "(", word "SELECT", word "ROWID", word "FROM", word "users", word "WHERE", word "users",
      sign ".", word "uuid", sign "="] (.literal []) := by
  have hType : Closes
      (lit "'))       OR (subject_type = 'group'           AND subject               IN ")
      [sign ")", sign ")", word "OR", sign "(", word "subject_type", sign "=",
        .literal (lit "group"), word "AND", word "subject", word "IN"] .between := by
    repeat rw [lit_ofList]
    decide
  have hTable : Reads .between
      (lit "(SELECT DISTINCT `group`                   FROM group_users                   ")
      [sign "(", word "SELECT", word "DISTINCT", .name (lit "group"), word "FROM",
        word "group_users"] .between := by
    repeat rw [lit_ofList]
    decide
  exact ((hType.append hTable).append reads_memberUser).append reads_memberUuid

theorem closes_roleSubject : Closes roleSubject
    [sign ")", sign ")", sign ")", word "OR", sign "(", word "subject_type", sign "=",
      .literal (lit "role"), word "AND", word "subject", word "IN", sign "(", word "SELECT",
      word "DISTINCT", word "role", word "FROM", word "role_users", word "WHERE", word "user",
      sign "=", sign "(", word "SELECT", word "ROWID", word "FROM", word "users", word "WHERE",
      word "users", sign ".", word "uuid", sign "="] (.literal []) := by
  have hType : Closes
      (lit "')))       OR (subject_type = 'role'           AND subject               IN ")
      [sign ")", sign ")", sign ")", word "OR", sign "(", word "subject_type", sign "=",
        .literal (lit "role"), word "AND", word "subject", word "IN"] .between := by
    repeat rw [lit_ofList]
    decide
  have hTable : Reads .between
      (lit "(SELECT DISTINCT role                   FROM role_users                   ")
      [sign "(", word "SELECT", word "DISTINCT", word "role", word "FROM", word "role_users"]
      .between := by
    repeat rw [lit_ofList]
    decide
  exact ((hType.append hTable).append reads_memberUser).append reads_memberUuid

theorem reads_userSubject : Reads .between userSubject
    [word "AND", word "subject_location", sign "=", .number (lit "0"), word "AND", sign "(",
      sign "(", word "subject_type", sign "=", .literal (lit "user"), word "AND", word "subject",
      sign "=", sign "(", word "SELECT", word "ROWID", word "FROM", word "users", word "WHERE",
      word "users", sign ".", word "uuid", sign "="] (.literal []) := by
  unfold userSubject
  repeat rw [lit_ofList]
  decide

/-- The subject of a permission, and its name. -/
theorem reads_subjectClause (hUser : unquote user = some user) {test : Expr}
    (h : Reads .between (permissionOr ++ lit "))") (test.words ++ sign ")" :: sign ")" :: words)
      .between) :
    Reads .between (subjectClause user permissionOr)
      (word "AND" :: (subjectTest user test).words ++ sign ")" :: words) .between := by
  have hClose : Closes (lit "'))))  AND (")
      [sign ")", sign ")", sign ")", sign ")", word "AND", sign "("] .between := by decide
  have hText := reads_userSubject.append ((reads_literal hUser).append
    ((closes_groupSubject.literal user).append ((reads_literal hUser).append
      ((closes_roleSubject.literal user).append ((reads_literal hUser).append
        ((hClose.literal user).append h))))))
  simpa [subjectClause, subjectTest, subject, subjectOf, hasMember, selectUuid, selectUser, equal,
    columnOf, named, zero, Expr.words, Source.words, Name.word, Comparison.word] using hText

end Pieces

/-- The names stay in their quotes: each apostrophe in them is doubled, or none of them is used
since any permission is enough. -/
def Quoted (permissions : List CString) : Prop :=
  permissions.any (strcaseeq · (lit "any")) = true ∨
    ∀ permission ∈ permissions, (unquote permission).isSome = true

instance (permissions : List CString) : Decidable (Quoted permissions) :=
  inferInstanceAs (Decidable (_ ∨ _))

/-- The names of the permissions in a row, with an `OR` in between. -/
theorem reads_names {first plain : CString} (hFirst : unquote first = some plain)
    {rest : List CString} (hRest : ∀ permission ∈ rest, (unquote permission).isSome = true) :
    Reads .between
      (lit "name = '" ++ (first ++ apostrophe :: ((rest.flatMap fun permission =>
        lit " OR name = '" ++ permission ++ lit "'") ++ lit "))")))
      ((anyOf (nameIs plain) ((rest.filterMap unquote).map nameIs)).words ++ [sign ")", sign ")"])
      .between := by
  have hOpen : Reads .between (lit "name = '") [word "name", sign "="] (.literal []) := by decide
  induction rest generalizing first plain with
  | nil =>
      have hEnd : Reads .between (lit "))") [sign ")", sign ")"] .between := by decide
      have hText := hOpen.append ((reads_literal hFirst).append (Reads.closed rfl hEnd))
      simpa [anyOf, nameIs, equal, columnOf, named, Expr.words, Name.word, Comparison.word] using hText
  | cons next rest ih =>
      obtain ⟨other, hNext⟩ := Option.isSome_iff_exists.mp (hRest next List.mem_cons_self)
      have hLater := ih hNext fun permission hMem => hRest permission (List.mem_cons_of_mem _ hMem)
      have hOr : Reads .between (lit " OR ") [word "OR"] .between := by decide
      have hText := hOpen.append ((reads_literal hFirst).append
        (Reads.closed rfl (hOr.append hLater)))
      have hNextText : lit " OR name = '" ++ next ++ lit "'" =
          lit " OR " ++ (lit "name = '" ++ next ++ [apostrophe]) := rfl
      have hName : (nameIs plain).words = [word "name", sign "=", .literal plain] := rfl
      rw [List.flatMap_cons, hNextText, List.filterMap_cons, hNext, List.map_cons, anyOf, Expr.words,
        hName]
      simpa using hText

theorem filterMap_unquote_cons {first plain : CString} (h : unquote first = some plain)
    (rest : List CString) :
    (first :: rest).filterMap unquote = plain :: rest.filterMap unquote := by
  rw [List.filterMap_cons, h]

/-- The test of the names is read as it is meant where they stay quoted. -/
theorem reads_permissionOr {permissions : List CString} (hNe : permissions ≠ [])
    (h : Quoted permissions) :
    Reads .between (permissionOr permissions ++ lit "))")
      ((nameTest permissions).words ++ [sign ")", sign ")"]) .between := by
  unfold permissionOr nameTest
  by_cases hAny : permissions.any (strcaseeq · (lit "any")) = true
  · rw [if_pos hAny, if_pos hAny]
    decide
  · rw [if_neg hAny, if_neg hAny]
    obtain ⟨first, rest, rfl⟩ := List.exists_cons_of_ne_nil hNe
    have hAll := h.resolve_left hAny
    obtain ⟨plain, hFirst⟩ := Option.isSome_iff_exists.mp (hAll first List.mem_cons_self)
    rw [filterMap_unquote_cons hFirst]
    have hText := reads_names hFirst fun permission hMem => hAll permission (List.mem_cons_of_mem _ hMem)
    simpa [show lit "'" = [apostrophe] from rfl] using hText

theorem reads_location (trash : Bool) :
    Reads .between (if trash then lit "1" else lit "0") []
      (.number (if trash then lit "1" else lit "0")) := by
  cases trash <;> decide

/-- What follows on a permission. -/
def alternatives (more : List Expr) : List Token := more.flatMap fun e => word "OR" :: e.words

section Clauses

variable {user : CString} (hUser : unquote user = some user) {permissions : List CString} {test : Expr}
  {more : List Expr} (h : Reads .between (permissionOr permissions ++ lit "))")
    (test.words ++ sign ")" :: sign ")" :: alternatives more) .between)
include hUser h

/-- The clause begins with a space, so it ends the word in front of it. -/
theorem reads_permissionSubject {mode : Mode} (token : Token)
    (hEnd : step mode (ch ' ') = startBehind token (ch ' ')) :
    Reads mode (subjectClause user (permissionOr permissions))
      (token :: word "AND" :: (subjectTest user test).words ++ sign ")" :: alternatives more)
      .between := by
  have hSubject := reads_subjectClause hUser h
  have hHead : (subjectClause user (permissionOr permissions)).head? = some (ch ' ') := rfl
  refine hSubject.behind (fun c hc => ?_) (by simp [← List.head?_eq_none_iff, hHead])
  obtain rfl : ch ' ' = c := Option.some.inj (hHead.symm.trans hc)
  exact hEnd

/-- The text of an `EXISTS` is read as one, in front of what else there is. -/
theorem reads_permitted (type : ResourceType) (trash : Bool) :
    Reads .between
      (lit "OR EXISTS (SELECT ROWID FROM permissions  WHERE resource = " ++
        ((tableOf type trash).text ++ (lit ".ROWID  AND resource_type = '" ++ (type.text ++
          (lit "'  AND resource_location = " ++ ((if trash then lit "1" else lit "0") ++
            subjectClause user (permissionOr permissions)))))))
      (alternatives (permitted user type trash test :: more)) .between := by
  have hOpen : Reads .between (lit "OR EXISTS (SELECT ROWID FROM permissions  WHERE resource = ")
      [word "OR", word "EXISTS", sign "(", word "SELECT", word "ROWID", word "FROM",
        word "permissions", word "WHERE", word "resource", sign "="] .between := by
    repeat rw [lit_ofList]
    decide
  have hColumn : Reads .between (lit ".ROWID  AND resource_type = '")
      [sign ".", word "ROWID", word "AND", word "resource_type", sign "="] (.literal []) := by
    decide
  have hPlace : Closes (lit "'  AND resource_location = ")
      [word "AND", word "resource_location", sign "="] .between := by decide
  have hNumber : step (.number (if trash then lit "1" else lit "0")) (ch ' ') =
      startBehind (.number (if trash then lit "1" else lit "0")) (ch ' ') := by
    cases trash <;> decide
  have hText := hOpen.append (Reads.name (isName_tableOf type trash) rfl (hColumn.append
    ((reads_literal type.unquote_text).append ((hPlace.literal type.text).append
      ((reads_location trash).append (reads_permissionSubject hUser h _ hNumber))))))
  have hTable : (tableOf type trash).quoted = false := rfl
  simpa [alternatives, permitted, permissionSource, hTable, location, equal, columnOf, named,
    Expr.words, Source.words, Name.word, Comparison.word] using hText

/-- So is the text of the one for reports. -/
theorem reads_taskPermitted (trash : Bool) :
    Reads .between
      (lit " OR EXISTS (SELECT ROWID FROM permissions  WHERE resource = " ++
        ((tableOf .report trash).text ++ (lit ".task  AND resource_type = 'task'" ++
          subjectClause user (permissionOr permissions))))
      (alternatives (taskPermitted user trash test :: more)) .between := by
  have hOpen : Reads .between (lit " OR EXISTS (SELECT ROWID FROM permissions  WHERE resource = ")
      [word "OR", word "EXISTS", sign "(", word "SELECT", word "ROWID", word "FROM",
        word "permissions", word "WHERE", word "resource", sign "="] .between := by
    repeat rw [lit_ofList]
    decide
  have hTask : Reads .between (lit ".task  AND resource_type = 'task'")
      [sign ".", word "task", word "AND", word "resource_type", sign "="]
      (.literalEnd (lit "task")) := by decide
  have hEnd : step (.literalEnd (lit "task")) (ch ' ') =
      startBehind (.literal (lit "task")) (ch ' ') := by decide
  have hText := hOpen.append (Reads.name (isName_tableOf .report trash) rfl (hTask.append
    (reads_permissionSubject hUser h _ hEnd)))
  have hTable : (tableOf .report trash).quoted = false := rfl
  simpa [alternatives, taskPermitted, permissionSource, hTable, equal, columnOf, named, Expr.words,
    Source.words, Name.word, Comparison.word] using hText

/-- The words that the permissions add to the condition of the owner. -/
theorem reads_permissionClause (type : ResourceType) (trash : Bool) :
    Reads .between (permissionClause user type trash permissions)
      (alternatives (permission user type trash test more)) .between := by
  have hPermitted := reads_permitted hUser h type trash
  by_cases hReport : type = .report
  · have hTable : lit "reports" = ResourceType.report.text ++ lit "s" := rfl
    have hText := hPermitted.append (reads_taskPermitted hUser h trash)
    subst hReport
    simpa [permissionClause, permission, alternatives, tableOf, hTable] using hText
  · simpa [permissionClause, permission, tableOf, hReport] using hPermitted

end Clauses

/-- The clause of the permissions is read as its expressions. -/
theorem reads_permissionsClause {user : CString} (hUser : unquote user = some user)
    (type : ResourceType) (trash : Bool) {permissions : List CString} (hQuoted : Quoted permissions) :
    Reads .between (if permissions = [] then [] else permissionClause user type trash permissions)
      (alternatives (permissionOf user type trash permissions)) .between := by
  unfold permissionOf
  by_cases hNone : permissions = []
  · rw [if_pos hNone, if_pos hNone]
    exact Reads.nil
  · rw [if_neg hNone, if_neg hNone]
    exact reads_permissionClause hUser (reads_permissionOr hNone hQuoted) type trash

section Conditions

variable {user : CString} (hUser : unquote user = some user)
include hUser

/-- The owner of a row or a permission, however the clause is spaced. -/
theorem reads_visible (type : ResourceType) (trash : Bool)
    {opening null owner close clause last : CString} {front back : List Token}
    {permission : List Expr}
    (hOpen : Reads .between opening (front ++ [sign "(", sign "("]) .between)
    (hNull : Reads .between null
      [sign ".", word "owner", word "IS", word "NULL", sign ")", word "OR", sign "("] .between)
    (hNullNext : null.head?.any (!isWordByte ·) = true)
    (hOwner : Reads .between owner
      [sign ".", word "owner", sign "=", sign "(", word "SELECT", word "ROWID", word "FROM",
        word "users", word "WHERE", word "users", sign ".", word "uuid", sign "="] (.literal []))
    (hOwnerNext : owner.head?.any (!isWordByte ·) = true)
    (hClose : Closes close [sign ")", sign ")"] .between)
    (hClause : Reads .between clause (alternatives permission) .between)
    (hLast : Reads .between last (sign ")" :: back) .between) :
    Reads .between
      (opening ++ ((tableOf type trash).text ++ (null ++ ((tableOf type trash).text ++ (owner ++
        (user ++ (close ++ (clause ++ last))))))))
      (front ++ ((visible user type trash permission).words ++ back)) .between := by
  have hName := isName_tableOf type trash
  have hText := hOpen.append (Reads.name hName (head?_any_append hNullNext) (hNull.append
    (Reads.name hName (head?_any_append hOwnerNext) (hOwner.append ((reads_literal hUser).append
      ((hClose.literal user).append (hClause.append hLast)))))))
  have hTable : (tableOf type trash).quoted = false := rfl
  simpa [visible, anyOf, words_anyOf, alternatives, hTable, ownerOf, selectUuid, selectUser, equal,
    named, Expr.words, Source.words, Name.word, Comparison.word] using hText

variable (admin : Bool) {permissions : List CString} {permission : List Expr}

/-- A task in the trashcan is marked as hidden. -/
theorem reads_ownedClause_task
    (hClause : Reads .between
      (if permissions = [] then [] else permissionClause user .task true permissions)
      (alternatives permission) .between) :
    Reads .between (ownedClause user admin .task true permissions)
      (owned user .task true permission).words .between := by
  have hOpen : Reads .between (lit " (tasks.hidden = 2  AND ((")
      ([sign "(", word "tasks", sign ".", word "hidden", sign "=", .number (lit "2"), word "AND"] ++
        [sign "(", sign "("]) .between := by decide
  have hNull : Reads .between (lit ".owner IS NULL)       OR (")
      [sign ".", word "owner", word "IS", word "NULL", sign ")", word "OR", sign "("] .between := by
    decide
  have hOwner : Reads .between
      (lit ".owner " ++ lit "          = (SELECT ROWID FROM users              WHERE users.uuid = '")
      [sign ".", word "owner", sign "=", sign "(", word "SELECT", word "ROWID", word "FROM",
        word "users", word "WHERE", word "users", sign ".", word "uuid", sign "="]
      (.literal []) := by
    repeat rw [lit_ofList]
    decide
  have hClose : Closes (lit "'))       ") [sign ")", sign ")"] .between := by decide
  have hLast : Reads .between (lit "))") (sign ")" :: [sign ")"]) .between := by decide
  have hVisible := reads_visible hUser .task true hOpen hNull rfl hOwner rfl hClose hClause hLast
  have hPieces : lit " (tasks.hidden = 2  AND ((tasks.owner IS NULL)       OR (tasks.owner " =
      lit " (tasks.hidden = 2  AND ((" ++ ((tableOf .task true).text ++
        (lit ".owner IS NULL)       OR (" ++ ((tableOf .task true).text ++ lit ".owner "))) := by
    unfold tableOf ResourceType.text
    repeat rw [lit_ofList]
    rfl
  have hTable : tableOf .task true = ⟨false, lit "tasks"⟩ := by decide
  rw [hTable] at hVisible
  simpa [ownedClause, owned, hPieces, hTable, equal, named, Expr.words, Name.word,
    Comparison.word] using hVisible

/-- The clause without an owner filter is read as its expression. -/
theorem reads_ownedClause {type : ResourceType} {trash : Bool}
    (hType : trash = false → type ≠ .permission)
    (hClause : Reads .between
      (if permissions = [] then [] else permissionClause user type trash permissions)
      (alternatives permission) .between) :
    Reads .between (ownedClause user admin type trash permissions)
      (owned user type trash permission).words .between := by
  have hNull : Reads .between (lit ".owner IS NULL)  OR (")
      [sign ".", word "owner", word "IS", word "NULL", sign ")", word "OR", sign "("] .between := by
    decide
  have hOwner : Reads .between
      (lit ".owner      = (SELECT ROWID FROM users         WHERE users.uuid = '")
      [sign ".", word "owner", sign "=", sign "(", word "SELECT", word "ROWID", word "FROM",
        word "users", word "WHERE", word "users", sign ".", word "uuid", sign "="]
      (.literal []) := by
    repeat rw [lit_ofList]
    decide
  have hClose : Closes (lit "'))  ") [sign ")", sign ")"] .between := by decide
  have hOpen : Reads .between (lit " ((") ([] ++ [sign "(", sign "("]) .between := by decide
  have hLast : Reads .between (lit ")") (sign ")" :: []) .between := by decide
  have hVisible := reads_visible hUser type trash hOpen hNull rfl hOwner rfl hClose hClause hLast
  cases trash with
  | false => simpa [ownedClause, owned, hType rfl, tableOf] using hVisible
  | true =>
      have hTrash : lit "s_trash" = lit "s" ++ lit "_trash" := rfl
      by_cases hTask : type = .task
      · subst hTask
        exact reads_ownedClause_task hUser admin hClause
      · simpa [ownedClause, owned, hTask, tableOf, hTrash] using hVisible

end Conditions

section Filters

variable {clause : CString} {e : Expr} (h : Reads .between clause e.words .between)
include h

/-- So is the one for the rows of the user. -/
theorem reads_ownRows {user : CString} (hUser : unquote user = some user) :
    Reads .between
      (lit "((owner = (SELECT ROWID FROM users           WHERE uuid = '" ++ user ++
        lit "')  OR owner IS NULL) AND " ++ clause ++ lit ")")
      (ownRows user e).words .between := by
  have hOpen : Reads .between (lit "((owner = (SELECT ROWID FROM users           WHERE uuid = '")
      [sign "(", sign "(", word "owner", sign "=", sign "(", word "SELECT", word "ROWID",
        word "FROM", word "users", word "WHERE", word "uuid", sign "="] (.literal []) := by
    repeat rw [lit_ofList]
    decide
  have hClose : Closes (lit "')  OR owner IS NULL) AND ")
      [sign ")", word "OR", word "owner", word "IS", word "NULL", sign ")", word "AND"] .between := by
    decide
  have hEnd : Reads .between (lit ")") [sign ")"] .between := by decide
  have hText := hOpen.append ((reads_literal hUser).append ((hClose.literal user).append
    (h.append hEnd)))
  simpa [ownRows, selectUser, equal, columnOf, named, Expr.words, Source.words, Name.word,
    Comparison.word] using hText

/-- And the one for the rows of another owner, whose name is quoted. -/
theorem reads_rowsOf (name : CString) :
    Reads .between
      (lit "(owner = (SELECT ROWID FROM users          WHERE name = '" ++ quote name ++
        lit "') AND " ++ clause ++ lit ")")
      (rowsOf name e).words .between := by
  have hOpen : Reads .between (lit "(owner = (SELECT ROWID FROM users          WHERE name = '")
      [sign "(", word "owner", sign "=", sign "(", word "SELECT", word "ROWID", word "FROM",
        word "users", word "WHERE", word "name", sign "="] (.literal []) := by
    repeat rw [lit_ofList]
    decide
  have hClose : Closes (lit "') AND ") [sign ")", word "AND"] .between := by decide
  have hEnd : Reads .between (lit ")") [sign ")"] .between := by decide
  have hText := hOpen.append ((reads_quote name).append ((hClose.literal name).append
    (h.append hEnd)))
  simpa [rowsOf, selectUser, equal, columnOf, named, Expr.words, Source.words, Name.word,
    Comparison.word] using hText

end Filters

section Whole

variable {user : Option CString} (hUser : ∀ string ∈ user, unquote string = some string)
  (admin : Bool) {type : ResourceType} {trash : Bool} (hType : trash = false → type ≠ .permission)
  (resource : Nat) {permissions : List CString} (hQuoted : Quoted permissions)
include hUser hType hQuoted

/-- What is read where there is no owner filter. -/
theorem reads_unfiltered :
    Reads .between (unfiltered user admin type trash resource permissions)
      (unfilteredExpr user type trash resource permissions).words .between := by
  have hOne : Reads .between (lit " (1)") (Expr.paren one).words .between := by decide
  unfold unfiltered unfilteredExpr
  cases user with
  | none => exact hOne
  | some user =>
      by_cases hResource : resource ≠ 0
      · simpa only [if_pos hResource] using hOne
      · simpa only [if_neg hResource] using reads_ownedClause (hUser user rfl) admin hType
          (reads_permissionsClause (hUser user rfl) type trash hQuoted)

/-- The text is read as the expression. -/
theorem tokens_whereOwned (owned : Bool) (ownerFilter : Option CString) :
    tokens (whereOwned user admin type trash owned ownerFilter resource permissions) =
      (whereOwnedExpr user type trash owned ownerFilter resource permissions).words := by
  have hClause := reads_unfiltered hUser admin hType resource hQuoted
  cases owned with
  | false =>
      have hOne : tokens (lit " 1") = one.words := by decide
      exact hOne
  | true =>
      refine Reads.tokens ?_
      cases ownerFilter with
      | none =>
          have hSelf : unquote (user.getD (lit "(null)")) = some (user.getD (lit "(null)")) := by
            cases user with
            | none => decide
            | some user => exact hUser user rfl
          exact reads_ownRows hClause hSelf
      | some name =>
          simp only [whereOwned, whereOwnedExpr, Bool.not_true, Bool.false_eq_true, if_false]
          by_cases hAny : name = lit "any"
          · simpa only [if_pos hAny] using hClause
          · simpa only [if_neg hAny] using reads_rowsOf hClause name

end Whole

/-! The expression binds as it is written. -/

theorem fits_nameTest (permissions : List CString) : (nameTest permissions).fits = true := by
  unfold nameTest
  split
  · rfl
  · split
    · rfl
    · refine fits_anyOf fun e he => ?_
      rw [← List.map_cons] at he
      obtain ⟨name, -, rfl⟩ := List.mem_map.mp he
      exact ⟨rfl, rfl⟩

theorem fits_tableOf (type : ResourceType) (trash : Bool) : (tableOf type trash).fits = true := by
  cases type <;> cases trash <;> decide

theorem fits_location (trash : Bool) :
    (equal (columnOf "resource_location") (location trash)).fits = true := by
  cases trash <;> rfl

section Fits

variable (user : CString) (type : ResourceType) (trash : Bool)

theorem fits_columnOf_table {name : Name} (hName : name.fits = true) :
    (Expr.column (some (tableOf type trash)) name).fits = true := by
  simp only [Expr.fits, Option.all_some, fits_tableOf, hName, Bool.and_self]

variable {test : Expr} (h : test.fits = true)
include h

theorem fits_subjectTest : (subjectTest user test).fits = true := by
  have hTest : (Expr.paren test).fits = true := h
  exact Expr.fits_and rfl (Expr.fits_and rfl hTest rfl rfl) rfl rfl

/-- The parts are put together without parentheses, so each stands at a level that fits. -/
theorem fits_permitted : (permitted user type trash test).fits = true := by
  have hRow : (Expr.column (some (tableOf type trash)) (named "ROWID")).fits = true :=
    fits_columnOf_table type trash rfl
  have hType : (equal (columnOf "resource_type") (.literal type.text)).fits = true := rfl
  exact Expr.fits_and (Expr.fits_equal rfl hRow rfl rfl)
    (Expr.fits_and hType (Expr.fits_and (fits_location trash) (fits_subjectTest user h) rfl rfl)
      rfl rfl) rfl rfl

theorem fits_taskPermitted : (taskPermitted user trash test).fits = true := by
  have hTask : (Expr.column (some (tableOf .report trash)) (named "task")).fits = true :=
    fits_columnOf_table .report trash rfl
  exact Expr.fits_and (Expr.fits_equal rfl hTask rfl rfl)
    (Expr.fits_and rfl (fits_subjectTest user h) rfl rfl) rfl rfl

end Fits

/-- What can be joined by OR. -/
def Joins (permission : List Expr) : Prop :=
  ∀ e ∈ permission, e.fits = true ∧ decide (e.level.rank ≤ Level.and.rank) = true

/-- The expressions of the permissions can be joined by `OR`. -/
theorem joins_permission (user : CString) (type : ResourceType) (trash : Bool) {test : Expr}
    (h : test.fits = true) {more : List Expr} (hMore : Joins more) :
    Joins (permission user type trash test more) := by
  intro e he
  unfold permission at he
  rcases List.mem_append.mp he with he | he
  · rcases List.mem_cons.mp he with rfl | he
    · exact ⟨fits_permitted user type trash h, rfl⟩
    · exact hMore e he
  · by_cases hReport : type = .report
    · rw [if_pos hReport] at he
      rcases List.mem_cons.mp he with rfl | he
      · exact ⟨fits_taskPermitted user trash h, rfl⟩
      · exact hMore e he
    · rw [if_neg hReport] at he
      cases he

theorem joins_permissionOf (user : CString) (type : ResourceType) (trash : Bool)
    (permissions : List CString) : Joins (permissionOf user type trash permissions) := by
  unfold permissionOf
  split
  · intro e he
    cases he
  · refine joins_permission user type trash (fits_nameTest permissions) fun e he => ?_
    cases he

/-- The clause of the visible rows fits. -/
theorem fits_visible (user : CString) (type : ResourceType) (trash : Bool) {permission : List Expr}
    (h : Joins permission) : (visible user type trash permission).fits = true := by
  have hOwner : (ownerOf type trash).fits = true := fits_columnOf_table type trash rfl
  have hOwn : (Expr.paren (equal (ownerOf type trash) (selectUuid user))).fits = true :=
    Expr.fits_equal hOwner rfl rfl rfl
  have hNull : (Expr.paren (.isNull (ownerOf type trash))).fits = true := by
    simp only [Expr.fits, hOwner, Bool.true_and]
    rfl
  refine fits_anyOf fun e he => ?_
  rcases List.mem_cons.mp he with rfl | he
  · exact ⟨hNull, rfl⟩
  · rcases List.mem_cons.mp he with rfl | he
    · exact ⟨hOwn, rfl⟩
    · exact h e he

/-- And so does the clause without an owner filter. -/
theorem fits_owned (user : CString) (type : ResourceType) (trash : Bool) {permission : List Expr}
    (h : Joins permission) : (owned user type trash permission).fits = true := by
  have hVisible := fits_visible user type trash h
  by_cases hTask : (trash && type = .task) = true
  · simp only [owned, if_pos hTask]
    exact Expr.fits_and rfl hVisible rfl rfl
  · simpa only [owned, if_neg hTask] using hVisible

theorem fits_unfilteredExpr (user : Option CString) (type : ResourceType) (trash : Bool)
    (resource : Nat) (permissions : List CString) :
    (unfilteredExpr user type trash resource permissions).fits = true := by
  cases user with
  | none => rfl
  | some user =>
      by_cases hResource : resource ≠ 0
      · simp only [unfilteredExpr, if_pos hResource]
        rfl
      · simpa only [unfilteredExpr, if_neg hResource] using
          fits_owned user type trash (joins_permissionOf user type trash permissions)

theorem level_unfilteredExpr (user : Option CString) (type : ResourceType) (trash : Bool)
    (resource : Nat) (permissions : List CString) :
    (unfilteredExpr user type trash resource permissions).level = .primary := by
  cases user with
  | none => rfl
  | some user =>
      by_cases hResource : resource ≠ 0
      · simp only [unfilteredExpr, if_pos hResource]
        rfl
      · by_cases hTask : (trash && type = .task) = true
        · simp only [unfilteredExpr, if_neg hResource, owned, if_pos hTask]
          rfl
        · simp only [unfilteredExpr, if_neg hResource, owned, if_neg hTask]
          rfl

/-- The whole expression fits, so that it is read back from its words. -/
theorem fits_whereOwnedExpr (user : Option CString) (type : ResourceType) (trash owned : Bool)
    (ownerFilter : Option CString) (resource : Nat) (permissions : List CString) :
    (whereOwnedExpr user type trash owned ownerFilter resource permissions).fits = true := by
  have hClause := fits_unfilteredExpr user type trash resource permissions
  have hLevel : decide ((unfilteredExpr user type trash resource permissions).level.rank ≤
      Level.and.rank) = true := by
    rw [level_unfilteredExpr]
    rfl
  cases owned with
  | false => rfl
  | true =>
      cases ownerFilter with
      | none => exact Expr.fits_and rfl hClause rfl hLevel
      | some name =>
          simp only [whereOwnedExpr, Bool.not_true, Bool.false_eq_true, if_false]
          by_cases hAny : name = lit "any"
          · simpa only [if_pos hAny] using hClause
          · simp only [if_neg hAny]
            exact Expr.fits_and rfl hClause rfl hLevel

/-- The text is the condition. -/
theorem condition_whereOwned {user : Option CString}
    (hUser : ∀ string ∈ user, unquote string = some string) (admin : Bool) {type : ResourceType}
    {trash : Bool} (hType : trash = false → type ≠ .permission) (owned : Bool)
    (ownerFilter : Option CString) (resource : Nat) {permissions : List CString}
    (hQuoted : Quoted permissions) :
    condition (whereOwned user admin type trash owned ownerFilter resource permissions) =
      some (whereOwnedExpr user type trash owned ownerFilter resource permissions) :=
  condition_words (fits_whereOwnedExpr user type trash owned ownerFilter resource permissions)
    (tokens_whereOwned hUser admin hType resource hQuoted owned ownerFilter)

end Statement

end Acl
