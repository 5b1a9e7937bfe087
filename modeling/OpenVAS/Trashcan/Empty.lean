import OpenVAS.Trashcan.Roles

/-! Emptying the trashcan. The tables of the trashcan are emptied for all users at once,
and the parameters of the report formats are left behind. -/
namespace Trashcan

open CString Transaction

/-- `DELETE FROM` a table of the trashcan. -/
def clearBin (bin : Bin) (db : Database) : Database :=
  { db with bins := fun other => if other = bin then .empty else db.bins other }

def clearChild (child : BinChild) (db : Database) : Database :=
  { db with binChildren := fun other => if other = child then .empty else db.binChildren other }

/-- Removes the permissions of the subjects of a type that are in the trashcan. -/
def dropTrashSubjects {Row : Type} (type : SubjectType) (subjects : Table Row) (db : Database) :
    Database :=
  { db with
    permissions := db.permissions.delete fun _ row => row.subjectType = type &&
      (subjects.any fun number _ => number = row.subject) && row.subjectLocation = .trash }

/-- The deletions of `manage_empty_trashcan` up to the tasks. -/
def emptyTables (db : Database) : Database :=
  let db := clearBin .agents db
  let db := clearChild .configPreferences db
  let db := clearBin .configs db
  let db := dropTrashSubjects .group (db.bins .groups) db
  let db := clearBin .groups db
  let db := clearChild .groupUsers db
  let db := clearChild .alertConditionData db
  let db := clearChild .alertEventData db
  let db := clearChild .alertMethodData db
  let db := clearBin .alerts db
  let db := clearBin .filters db
  let db := clearBin .lscCredentials db
  let db := clearBin .notes db
  let db := clearBin .overrides db
  let db := { db with permissionsTrash := .empty }
  let db := { db with portRangesTrash := .empty }
  let db := { db with portListsTrash := .empty }
  let db := dropTrashSubjects .role db.rolesTrash db
  let db := { db with rolesTrash := .empty }
  let db := { db with roleUsersTrash := .empty }
  let db := { db with schedulesTrash := .empty }
  let db := clearBin .slaves db
  let db := { db with tagsTrash := .empty }
  { db with targetsTrash := .empty }

/-- What the removal of the reports of a task does to the tags and permissions. -/
structure ReportsGone where
  tag : Tag → Tag
  permission : Permission → Permission

/-- The tasks of `init_user_task_iterator` in the trashcan. -/
def trashTasks (env : Env) (db : Database) : List Nat :=
  (db.tasks.rows.filter fun row => env.owns row.2.owner && row.2.hidden = 2).map Prod.fst

/-- Deletes a task whose reports are gone. -/
def deleteTask (task : Nat) (gone : ReportsGone) (db : Database) : Database :=
  { db with
    tags := db.tags.update gone.tag
    tagsTrash := db.tagsTrash.update gone.tag
    permissions := db.permissions.update gone.permission
    permissionsTrash := db.permissionsTrash.update gone.permission
    tasks := db.tasks.delete fun number _ => number = task }

/-- `delete_trash_tasks`, where `deleteReports` says what `delete_reports` does. -/
def deleteTrashTasks (deleteReports : Nat → Option ReportsGone) :
    List Nat → Database → Option Database
  | [], db => some db
  | task :: tasks, db =>
      match deleteReports task with
      | none => none
      | some gone =>
          deleteTrashTasks deleteReports tasks (deleteTask task gone db)

/-- The statements after the tasks were deleted. -/
def emptyReferences (db : Database) : Database :=
  clearBin .reportFormats
    { db with
      permissions := db.permissions.update fun row =>
        if 0 < row.resource ∧ row.resourceLocation = .trash then { row with resource := -1 } else row
      tags := db.tags.update fun row =>
        if row.resourceLocation = .trash then
          { row with resource := 0, resourceLocation := .table }
        else row }

/-- `directory` says whether the directory of the report formats in the trashcan is
removed and made again. -/
def manageEmptyTrashcan (env : Env) (deleteReports : Nat → Option ReportsGone) (directory : Bool) :
    Command Database :=
  beginImmediate fun session =>
    if !env.userMay session.db (lit "empty_trashcan") then rollback 99 session
    else
      let db := emptyTables session.db
      match deleteTrashTasks deleteReports (trashTasks env db) db with
      | none => rollback (-1) (change emptyTables session)
      | some db =>
          if !directory then rollback (-1) (change (fun _ => emptyReferences db) session)
          else commit 0 (change (fun _ => emptyReferences db) session)

/-- Every row of another user's in a table is still there. -/
def KeepsOthers {Row : Type} (owner : Row → Option Nat) (env : Env) (before after : Table Row) :
    Prop :=
  ∀ number row, (number, row) ∈ before.rows → env.owns (owner row) = false →
    (number, row) ∈ after.rows

/-- No resource of another user's is removed from the trashcan. -/
structure KeepsTrash (env : Env) (before after : Database) : Prop where
  bins : ∀ bin, KeepsOthers id env (before.bins bin) (after.bins bin)
  portLists : KeepsOthers Resource.owner env before.portListsTrash after.portListsTrash
  roles : KeepsOthers Resource.owner env before.rolesTrash after.rolesTrash
  schedules : KeepsOthers (·.owner) env before.schedulesTrash after.schedulesTrash
  tags : KeepsOthers Tag.owner env before.tagsTrash after.tagsTrash
  targets : KeepsOthers TrashTarget.owner env before.targetsTrash after.targetsTrash

/-- What belongs to a resource in the trashcan belongs to one that is there. -/
structure TrashBelongs (db : Database) : Prop where
  groupUsers : Table.Belongs id (db.binChildren .groupUsers) (db.bins .groups)
  roleUsers : Table.Belongs RoleUser.role db.roleUsersTrash db.rolesTrash
  portRanges : Table.Belongs PortRange.portList db.portRangesTrash db.portListsTrash
  configPreferences : Table.Belongs id (db.binChildren .configPreferences) (db.bins .configs)
  alertConditionData : Table.Belongs id (db.binChildren .alertConditionData) (db.bins .alerts)
  alertEventData : Table.Belongs id (db.binChildren .alertEventData) (db.bins .alerts)
  alertMethodData : Table.Belongs id (db.binChildren .alertMethodData) (db.bins .alerts)
  reportFormatParams : Table.Belongs id (db.binChildren .reportFormatParams)
    (db.bins .reportFormats)
  reportFormatParamOptions : Table.Belongs id (db.binChildren .reportFormatParamOptions)
    (db.binChildren .reportFormatParams)

/-- Every resource in the trashcan is the user's or everybody's. -/
structure OwnTrash (env : Env) (db : Database) : Prop where
  bins : ∀ bin number owner, (number, owner) ∈ (db.bins bin).rows → env.owns owner = true
  portLists : ∀ number row, (number, row) ∈ db.portListsTrash.rows → env.owns row.owner = true
  roles : ∀ number row, (number, row) ∈ db.rolesTrash.rows → env.owns row.owner = true
  schedules : ∀ number row, (number, row) ∈ db.schedulesTrash.rows → env.owns row.owner = true
  tags : ∀ number row, (number, row) ∈ db.tagsTrash.rows → env.owns row.owner = true
  targets : ∀ number row, (number, row) ∈ db.targetsTrash.rows → env.owns row.owner = true

/-- The user may not empty the trashcan, the reports of a task of the user's cannot be
removed, or the directory cannot. -/
def Refuses (env : Env) (deleteReports : Nat → Option ReportsGone) (directory : Bool)
    (db : Database) : Prop :=
  env.userMay db (lit "empty_trashcan") = false ∨
    (∃ task ∈ trashTasks env db, deleteReports task = none) ∨ directory = false

section Emptying

variable {env : Env} {deleteReports : Nat → Option ReportsGone} {directory : Bool}
  {db db' : Database} {tasks : List Nat} {session after : Session Database} {code : Int}

theorem KeepsOthers.refl {Row : Type} (owner : Row → Option Nat) (env : Env) (table : Table Row) :
    KeepsOthers owner env table table :=
  fun _ _ hRow _ => hRow

/-- Nothing of the others' is lost from an emptied table when nothing was theirs. -/
theorem keepsOthers_empty {Row : Type} (owner : Row → Option Nat) (env : Env) (table : Table Row) :
    KeepsOthers owner env table .empty ↔
      ∀ number row, (number, row) ∈ table.rows → env.owns (owner row) = true := by
  constructor
  · intro h number row hRow
    by_contra hOther
    exact nomatch h number row hRow (Bool.eq_false_of_not_eq_true hOther)
  · intro h number row hRow hOther
    rw [h number row hRow] at hOther
    cases hOther

theorem KeepsTrash.refl (env : Env) (db : Database) : KeepsTrash env db db :=
  ⟨fun _ => .refl _ _ _, .refl _ _ _, .refl _ _ _, .refl _ _ _, .refl _ _ _, .refl _ _ _⟩

/-- The tasks are deleted unless the reports of one cannot be. -/
theorem deleteTrashTasks_eq_none (tasks : List Nat) (db : Database) :
    deleteTrashTasks deleteReports tasks db = none ↔ ∃ task ∈ tasks, deleteReports task = none := by
  induction tasks generalizing db with
  | nil => simp [deleteTrashTasks]
  | cons task tasks ih =>
      rw [deleteTrashTasks]
      split
      · rename_i hNone
        exact ⟨fun _ => ⟨task, List.mem_cons_self, hNone⟩, fun _ => rfl⟩
      · rename_i gone hSome
        rw [ih]
        simp [hSome]

/-- The trashcan in a database, apart from what refers to other resources. -/
structure SameTrash (before after : Database) : Prop where
  bins : after.bins = before.bins
  binChildren : after.binChildren = before.binChildren
  portLists : after.portListsTrash = before.portListsTrash
  portRanges : after.portRangesTrash = before.portRangesTrash
  roles : after.rolesTrash = before.rolesTrash
  roleUsers : after.roleUsersTrash = before.roleUsersTrash
  schedules : after.schedulesTrash = before.schedulesTrash
  targets : after.targetsTrash = before.targetsTrash
  tags : before.tagsTrash = .empty → after.tagsTrash = .empty

theorem SameTrash.refl (db : Database) : SameTrash db db :=
  ⟨rfl, rfl, rfl, rfl, rfl, rfl, rfl, rfl, id⟩

theorem SameTrash.trans {one two three : Database} (h : SameTrash one two)
    (h' : SameTrash two three) : SameTrash one three :=
  ⟨h'.bins.trans h.bins, h'.binChildren.trans h.binChildren, h'.portLists.trans h.portLists,
    h'.portRanges.trans h.portRanges, h'.roles.trans h.roles, h'.roleUsers.trans h.roleUsers,
    h'.schedules.trans h.schedules, h'.targets.trans h.targets, fun hTags => h'.tags (h.tags hTags)⟩

theorem deleteTask_sameTrash (task : Nat) (gone : ReportsGone) (db : Database) :
    SameTrash db (deleteTask task gone db) := by
  refine ⟨rfl, rfl, rfl, rfl, rfl, rfl, rfl, rfl, fun hTags => ?_⟩
  rw [deleteTask, hTags]
  rfl

/-- Deleting tasks leaves the rest of the trashcan, by induction on the tasks. -/
theorem deleteTrashTasks_sameTrash (h : deleteTrashTasks deleteReports tasks db = some db') :
    SameTrash db db' := by
  induction tasks generalizing db with
  | nil =>
      obtain rfl := Option.some.inj h
      exact .refl _
  | cons task tasks ih =>
      rw [deleteTrashTasks] at h
      split at h
      · cases h
      · exact (deleteTask_sameTrash task _ db).trans (ih h)

/-- What is left when the trashcan was emptied. -/
structure Emptied (before after : Database) : Prop where
  bins : ∀ bin, after.bins bin = .empty
  children : ∀ child, child ≠ .reportFormatParams → child ≠ .reportFormatParamOptions →
    after.binChildren child = .empty
  params : after.binChildren .reportFormatParams = before.binChildren .reportFormatParams
  options : after.binChildren .reportFormatParamOptions =
    before.binChildren .reportFormatParamOptions
  portLists : after.portListsTrash = .empty
  portRanges : after.portRangesTrash = .empty
  roles : after.rolesTrash = .empty
  roleUsers : after.roleUsersTrash = .empty
  schedules : after.schedulesTrash = .empty
  targets : after.targetsTrash = .empty
  tags : after.tagsTrash = .empty

/-- What is left once all that refers to the trashcan is cleared. -/
theorem emptied_emptyReferences (h : SameTrash (emptyTables db) db') :
    Emptied db (emptyReferences db') := by
  refine ⟨fun bin => ?_, fun child hParams hOptions => ?_, ?_, ?_, h.portLists, h.portRanges, h.roles,
    h.roleUsers, h.schedules, h.targets, h.tags rfl⟩
  · cases bin with
    | reportFormats => rfl
    | _ => exact congrFun h.bins _
  · cases child with
    | reportFormatParams => exact absurd rfl hParams
    | reportFormatParamOptions => exact absurd rfl hOptions
    | _ => exact congrFun h.binChildren _
  · exact congrFun h.binChildren _
  · exact congrFun h.binChildren _

theorem trashTasks_emptyTables (env : Env) (db : Database) :
    trashTasks env (emptyTables db) = trashTasks env db := by
  have hTasks : (emptyTables db).tasks = db.tasks := by
    simp only [emptyTables, clearBin, clearChild, dropTrashSubjects]
  rw [trashTasks, hTasks, trashTasks]

/-- What the command does: it refuses and leaves everything, or the trashcan is emptied. -/
theorem manageEmptyTrashcan_ok
    (h : manageEmptyTrashcan env deleteReports directory session = .ok (code, after)) :
    after.begun = none ∧
      (Refuses env deleteReports directory session.db → code ≠ 0 ∧ after.db = session.db) ∧
      (¬ Refuses env deleteReports directory session.db →
        code = 0 ∧ Emptied session.db after.db) := by
  obtain ⟨-, h⟩ := beginImmediate_ok h
  have hTasks := trashTasks_emptyTables env session.db
  split at h
  · rename_i hMay
    obtain ⟨rfl, hNone, hDb⟩ := rollback_ok rfl h
    refine ⟨hNone, fun _ => ⟨by decide, hDb⟩, fun hNot => (hNot (.inl ?_)).elim⟩
    simpa using hMay
  · rename_i hMay
    dsimp only at h
    split at h
    · rename_i hFails
      obtain ⟨rfl, hNone, hDb⟩ := rollback_ok rfl h
      refine ⟨hNone, fun _ => ⟨by decide, hDb⟩, fun hNot => (hNot (.inr (.inl ?_))).elim⟩
      rw [← hTasks]
      exact (deleteTrashTasks_eq_none _ _).mp hFails
    · rename_i db' hDeleted
      split at h
      · rename_i hDirectory
        obtain ⟨rfl, hNone, hDb⟩ := rollback_ok rfl h
        refine ⟨hNone, fun _ => ⟨by decide, hDb⟩, fun hNot => (hNot (.inr (.inr ?_))).elim⟩
        simpa using hDirectory
      · rename_i hDirectory
        obtain ⟨rfl, hNone, hDb⟩ := commit_ok h
        refine ⟨hNone, fun hRefuses => ?_, fun _ => ⟨rfl, ?_⟩⟩
        · rcases hRefuses with hNot | hTask | hNot
          · simp [hNot] at hMay
          · have hFails := (deleteTrashTasks_eq_none (trashTasks env (emptyTables session.db))
              (emptyTables session.db)).mpr (by rwa [hTasks])
            exact nomatch hFails.symm.trans hDeleted
          · simp [hNot] at hDirectory
        · rw [hDb]
          exact emptied_emptyReferences (deleteTrashTasks_sameTrash hDeleted)

/-- Others keep their trash exactly if all of it is the user's own. -/
theorem Emptied.keepsTrash_iff (h : Emptied db db') : KeepsTrash env db db' ↔ OwnTrash env db := by
  constructor
  · intro hKeeps
    refine ⟨fun bin => ?_, ?_, ?_, ?_, ?_, ?_⟩
    · exact (keepsOthers_empty _ _ _).mp (h.bins bin ▸ hKeeps.bins bin)
    · exact (keepsOthers_empty _ _ _).mp (h.portLists ▸ hKeeps.portLists)
    · exact (keepsOthers_empty _ _ _).mp (h.roles ▸ hKeeps.roles)
    · exact (keepsOthers_empty _ _ _).mp (h.schedules ▸ hKeeps.schedules)
    · exact (keepsOthers_empty _ _ _).mp (h.tags ▸ hKeeps.tags)
    · exact (keepsOthers_empty _ _ _).mp (h.targets ▸ hKeeps.targets)
  · intro hOwn
    refine ⟨fun bin => ?_, ?_, ?_, ?_, ?_, ?_⟩
    · exact h.bins bin ▸ (keepsOthers_empty _ _ _).mpr (hOwn.bins bin)
    · exact h.portLists ▸ (keepsOthers_empty _ _ _).mpr hOwn.portLists
    · exact h.roles ▸ (keepsOthers_empty _ _ _).mpr hOwn.roles
    · exact h.schedules ▸ (keepsOthers_empty _ _ _).mpr hOwn.schedules
    · exact h.tags ▸ (keepsOthers_empty _ _ _).mpr hOwn.tags
    · exact h.targets ▸ (keepsOthers_empty _ _ _).mpr hOwn.targets

/-- Nothing belongs to an emptied table. -/
theorem belongs_empty_iff {Row Row' : Type} (parent : Row → Nat) (children : Table Row) :
    Table.Belongs parent children (.empty : Table Row') ↔ children.rows = [] := by
  constructor
  · intro h
    apply List.eq_nil_iff_forall_not_mem.mpr
    rintro ⟨number, row⟩ hRow
    obtain ⟨row', hRow'⟩ := h number row hRow
    exact nomatch hRow'
  · intro h number row hRow
    rw [h] at hRow
    cases hRow

/-- The parameters of report formats are the rows that can lose what they belong to. -/
theorem Emptied.trashBelongs_iff (h : Emptied db db') :
    TrashBelongs db' ↔ (db.binChildren .reportFormatParams).rows = [] ∧
      (db.binChildren .reportFormatParamOptions).rows = [] := by
  have hEmpty {Row Row' : Type} (parent : Row → Nat) (parents : Table Row') :
      Table.Belongs parent (.empty : Table Row) parents := fun _ _ hRow => nomatch hRow
  have hChild (child : BinChild) (hParams : child ≠ .reportFormatParams)
      (hOptions : child ≠ .reportFormatParamOptions) {Row : Type} (parents : Table Row) :
      Table.Belongs id (db'.binChildren child) parents := by
    rw [h.children child hParams hOptions]
    exact hEmpty _ _
  constructor
  · intro hBelongs
    have hParams := hBelongs.reportFormatParams
    have hOptions := hBelongs.reportFormatParamOptions
    rw [h.bins, h.params, belongs_empty_iff] at hParams
    refine ⟨hParams, ?_⟩
    have hNone : db.binChildren .reportFormatParams = .empty := by
      generalize db.binChildren .reportFormatParams = table at hParams
      obtain ⟨rows, hDistinct⟩ := table
      obtain rfl : rows = [] := hParams
      rfl
    rwa [h.params, h.options, hNone, belongs_empty_iff] at hOptions
  · rintro ⟨hParams, hOptions⟩
    refine ⟨hChild _ (by decide) (by decide) _, ?_, ?_, hChild _ (by decide) (by decide) _,
      hChild _ (by decide) (by decide) _, hChild _ (by decide) (by decide) _,
      hChild _ (by decide) (by decide) _, ?_, ?_⟩
    · rw [h.roleUsers]
      exact hEmpty _ _
    · rw [h.portRanges]
      exact hEmpty _ _
    · rw [h.bins, h.params, belongs_empty_iff]
      exact hParams
    · intro number row hRow
      rw [h.options, hOptions] at hRow
      cases hRow

end Emptying

/-- The trashcan of the other users is kept and no part of a resource is left behind
exactly when everything in it is the user's or everybody's, and no report format with
parameters is in it; a refusal changes nothing. -/
theorem manageEmptyTrashcan_own_iff {env : Env} {deleteReports : Nat → Option ReportsGone}
    {directory : Bool} {session after : Session Database} {code : Int}
    (h : manageEmptyTrashcan env deleteReports directory session = .ok (code, after)) :
    KeepsTrash env session.db after.db ∧ TrashBelongs after.db ↔
      (Refuses env deleteReports directory session.db ∧ TrashBelongs session.db) ∨
      (¬ Refuses env deleteReports directory session.db ∧ OwnTrash env session.db ∧
        (session.db.binChildren .reportFormatParams).rows = [] ∧
        (session.db.binChildren .reportFormatParamOptions).rows = []) := by
  obtain ⟨-, hRefused, hDone⟩ := manageEmptyTrashcan_ok h
  by_cases hRefuses : Refuses env deleteReports directory session.db
  · obtain ⟨-, hSame⟩ := hRefused hRefuses
    rw [hSame]
    simp [hRefuses, KeepsTrash.refl]
  · obtain ⟨-, hEmptied⟩ := hDone hRefuses
    rw [hEmptied.keepsTrash_iff, hEmptied.trashBelongs_iff]
    simp [hRefuses]

/-- The current user has row 1. -/
def firstUser : Env := { anyone with user := some 1 }

/-- A user's own agent in the trashcan is removed. -/
theorem manageEmptyTrashcan_own_iff_agent :
    ∃ db after, (db.bins .agents).rows = [(1, some 1)] ∧
      manageEmptyTrashcan firstUser (fun _ => none) true ⟨db, none, 0⟩ = .ok (0, after) ∧
      KeepsTrash firstUser db after.db ∧ TrashBelongs after.db := by
  let agents : Table (Option Nat) := ⟨[(1, some 1)], by decide⟩
  let db : Database :=
    { emptyDatabase with bins := fun bin => if bin = .agents then agents else .empty }
  have hRun : manageEmptyTrashcan firstUser (fun _ => none) true ⟨db, none, 0⟩ = .ok (0,
    afterwards (manageEmptyTrashcan firstUser (fun _ => none) true) ⟨db, none, 0⟩) := rfl
  refine ⟨db, _, rfl, hRun, (manageEmptyTrashcan_own_iff hRun).mpr (.inr ⟨?_, ?_, rfl, rfl⟩)⟩
  · rintro (hMay | ⟨task, hTask, -⟩ | hDirectory)
    · cases hMay
    · exact nomatch hTask
    · cases hDirectory
  · refine ⟨fun bin number owner hRow => ?_, nofun, nofun, nofun, nofun, nofun⟩
    have hAgent : (number, owner) ∈ [(1, some 1)] := by
      cases bin with
      | agents => exact hRow
      | _ => exact nomatch hRow
    obtain ⟨-, rfl⟩ := Prod.mk.inj (List.mem_singleton.mp hAgent)
    rfl

/-- Another user's report format is removed, and its parameter is left behind. -/
theorem manageEmptyTrashcan_of_other : ∃ db after,
    (db.bins .reportFormats).rows = [(1, some 2)] ∧
      (db.binChildren .reportFormatParams).rows = [(1, 1)] ∧
      manageEmptyTrashcan firstUser (fun _ => none) true ⟨db, none, 0⟩ = .ok (0, after) ∧
      (after.db.bins .reportFormats).rows = [] ∧
      (after.db.binChildren .reportFormatParams).rows = [(1, 1)] ∧
      ¬ KeepsTrash firstUser db after.db ∧ ¬ TrashBelongs after.db := by
  let formats : Table (Option Nat) := ⟨[(1, some 2)], by decide⟩
  let params : Table Nat := ⟨[(1, 1)], by decide⟩
  let db : Database := { emptyDatabase with
    bins := fun bin => if bin = .reportFormats then formats else .empty
    binChildren := fun child => if child = .reportFormatParams then params else .empty }
  refine ⟨db, _, rfl, rfl, rfl, rfl, rfl, fun hKeeps => ?_, fun hBelongs => ?_⟩
  · exact nomatch hKeeps.bins .reportFormats 1 (some 2) (List.mem_singleton_self _) rfl
  · obtain ⟨row, hRow⟩ := hBelongs.reportFormatParams 1 1 (List.mem_singleton_self _)
    exact nomatch hRow

end Trashcan
