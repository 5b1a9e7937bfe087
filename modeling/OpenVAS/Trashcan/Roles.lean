import OpenVAS.Trashcan.Steps

/-! A role in the trashcan and back. The users of the role are kept under the number that
it had in its table and restored under the number that it has in the trashcan, so that
they follow the role only where its numbers stay the same. -/
namespace Trashcan

open CString Transaction

/-- The users of a role, in a table of users. -/
def members (table : Table RoleUser) (role : Nat) : List Nat :=
  (table.select (·.role = role)).map (·.user)

/-- Users belong to roles that are there, and the UUIDs in the trashcan differ. -/
structure RolesSound (db : Database) : Prop where
  users : Table.Belongs (·.role) db.roleUsers db.roles
  trashUsers : Table.Belongs (·.role) db.roleUsersTrash db.rolesTrash
  unique : ∀ number number' row row', (number, row) ∈ db.rolesTrash.rows →
    (number', row') ∈ db.rolesTrash.rows → row.uuid = row'.uuid → number = number'

/-- The commands on roles. -/
inductive RoleCommand where
  | create (env : Env) (name : CString) (comment : Option CString) (users : Except Int (List Nat))
  | delete (env : Env) (roleId : CString) (ultimate : Bool)
  | restore (env : Env) (resourceId : CString)

def RoleCommand.run : RoleCommand → Command Database
  | .create env name comment users => createRole env name comment users
  | .delete env roleId ultimate => deleteRole env roleId ultimate
  | .restore env resourceId => manageRestore env resourceId

/-- Whether the command is about a role. -/
def RoleCommand.Names (roleId : CString) : RoleCommand → Prop
  | .create .. => False
  | .delete _ id _ => id = roleId
  | .restore _ id => id = roleId

/-- A role with users keeps its number on the way to the trashcan and back. -/
def RoleCommand.KeepsNumber (db : Database) : RoleCommand → Prop
  | .create .. => True
  | .delete env roleId ultimate => ∀ role, ultimate = false →
      findResource id env db.roles roleId = some role →
      members db.roleUsers role = [] ∨ db.rolesTrash.next = role
  | .restore env resourceId => ∀ resource,
      findResource id env db.portListsTrash resourceId = none →
      findResource id env db.rolesTrash resourceId = some resource →
      members db.roleUsersTrash resource = [] ∨ db.roles.next = resource

/-- Commands that keep numbers, one after the other. -/
inductive RoleRun : Session Database → List RoleCommand → Session Database → Prop
  | nil (session : Session Database) : RoleRun session [] session
  | cons {session next last : Session Database} {command : RoleCommand} {code : Int}
      {commands : List RoleCommand} (hRun : command.run session = .ok (code, next))
      (hKeeps : command.KeepsNumber session.db) (rest : RoleRun next commands last) :
      RoleRun session (command :: commands) last

/-! What a command keeps. -/

section Steps

variable {env : Env} {roleId : CString} {ultimate : Bool} {db db' : Database}

/-- The users of a role once rows for one role are inserted. -/
theorem members_insertAll {table : Table RoleUser} {rows : List RoleUser} {number role : Nat}
    (h : ∀ row ∈ rows, row.role = number) :
    members (table.insertAll rows) role =
      members table role ++ if number = role then rows.map (·.user) else [] := by
  rw [members, Table.select_parent_insertAll h, List.map_append, members]
  split
  · rfl
  · rfl

theorem members_delete {table : Table RoleUser} {role gone : Nat} (h : role ≠ gone) :
    members (table.delete fun _ row => row.role = gone) role = members table role := by
  rw [members, Table.select_parent_delete h, members]

theorem RolesSound.unique_delete (h : RolesSound db) (role : Nat) :
    ∀ number number' row row',
      (number, row) ∈ (db.rolesTrash.delete fun number _ => number = role).rows →
      (number', row') ∈ (db.rolesTrash.delete fun number _ => number = role).rows →
      row.uuid = row'.uuid → number = number' := by
  intro number number' row row' hRow hRow'
  exact h.unique number number' row row' (Table.mem_delete.mp hRow).1 (Table.mem_delete.mp hRow').1

theorem eq_next_of_keeps {table : Table RoleUser} {role next : Nat}
    (h : members table role = [] ∨ next = role) :
    ∀ user ∈ table.select (·.role = role), user.role = next := by
  intro user hUser
  rcases h with hNone | hSame
  · rw [List.map_eq_nil_iff.mp hNone] at hUser
    cases hUser
  · exact (Table.parent_of_mem_select hUser).trans hSame.symm

/-- Deleting a role that keeps its number keeps the roles sound. -/
theorem RoleDeleted.sound (h : RoleDeleted env roleId ultimate db db') (hSound : RolesSound db)
    (hKeeps : (RoleCommand.delete env roleId ultimate).KeepsNumber db) : RolesSound db' := by
  cases h with
  | @purged role hTrash hUltimate =>
      exact ⟨hSound.users, hSound.trashUsers.delete role, hSound.unique_delete role⟩
  | @moved role row hTable hRow hUltimate hFresh =>
      refine ⟨hSound.users.delete role,
        hSound.trashUsers.insertAll (eq_next_of_keeps (hKeeps role hUltimate hTable)) row, ?_⟩
      intro number number' one two hOne hTwo hSame
      rcases Table.mem_insertAll_singleton.mp hOne with hOld | ⟨hNext, rfl⟩
      · rcases Table.mem_insertAll_singleton.mp hTwo with hOld' | ⟨-, rfl⟩
        · exact hSound.unique number number' one two hOld hOld' hSame
        · exact absurd hSame (hFresh number one hOld)
      · rcases Table.mem_insertAll_singleton.mp hTwo with hOld' | ⟨hNext', -⟩
        · exact absurd hSame.symm (hFresh number' two hOld')
        · exact hNext.trans hNext'.symm
  | @dropped role hTable hUltimate =>
      exact ⟨hSound.users.delete role, hSound.trashUsers, hSound.unique⟩

/-- So does restoring one. -/
theorem Restored.rolesSound (h : Restored env roleId db db') (hSound : RolesSound db)
    (hKeeps : (RoleCommand.restore env roleId).KeepsNumber db) : RolesSound db' := by
  cases h with
  | portList hTrash hRow => exact ⟨hSound.users, hSound.trashUsers, hSound.unique⟩
  | @role resource row hPortList hTrash hRow =>
      exact ⟨hSound.users.insertAll (eq_next_of_keeps (hKeeps resource hPortList hTrash)) row,
        hSound.trashUsers.delete resource, hSound.unique_delete resource⟩
  | schedule hPortList hRole hTrash hRow =>
      exact ⟨hSound.users, hSound.trashUsers, hSound.unique⟩

/-- And creating one. -/
theorem roleCreated_sound (hSound : RolesSound db) (row : Resource) (users : List Nat) :
    RolesSound (roleCreated row users db) := by
  refine ⟨hSound.users.insertAll (fun user hUser => ?_) row, hSound.trashUsers, hSound.unique⟩
  obtain ⟨number, -, rfl⟩ := List.mem_map.mp hUser
  rfl

/-- A role in the trashcan with its users. -/
structure InTrash (roleId : CString) (number : Nat) (users : List Nat) (db : Database) : Prop where
  row : ∃ row, (number, row) ∈ db.rolesTrash.rows ∧ row.uuid = roleId
  users : members db.roleUsersTrash number = users

variable {number : Nat} {users : List Nat} {otherId : CString}

theorem InTrash.remove (h : InTrash roleId number users db) {other : Nat} (hOther : number ≠ other) :
    (∃ row, (number, row) ∈ (db.rolesTrash.delete fun number _ => number = other).rows ∧
      row.uuid = roleId) ∧
      members (db.roleUsersTrash.delete fun _ row => row.role = other) number = users := by
  obtain ⟨row, hRow, hUuid⟩ := h.row
  exact ⟨⟨row, Table.mem_delete.mpr ⟨hRow, decide_eq_false hOther⟩, hUuid⟩,
    (members_delete hOther).trans h.users⟩

theorem InTrash.ne_of_findResource (h : InTrash roleId number users db) (hOther : otherId ≠ roleId)
    {other : Nat} (hFind : findResource id env db.rolesTrash otherId = some other) :
    number ≠ other := by
  rintro rfl
  obtain ⟨row, hRow, hUuid⟩ := h.row
  obtain ⟨found, hFound, hFoundId⟩ := findResource_some hFind
  obtain rfl := Table.row_eq hRow hFound
  exact hOther (hFoundId.symm.trans hUuid)

/-- Deleting another role leaves a role in the trashcan as it is. -/
theorem InTrash.roleDeleted (h : InTrash roleId number users db) (hOther : otherId ≠ roleId)
    (hKeeps : (RoleCommand.delete env otherId ultimate).KeepsNumber db)
    (hDeleted : RoleDeleted env otherId ultimate db db') : InTrash roleId number users db' := by
  cases hDeleted with
  | @purged role hTrash hUltimate =>
      obtain ⟨hRow, hUsers⟩ := h.remove (h.ne_of_findResource hOther hTrash)
      exact ⟨hRow, hUsers⟩
  | @moved role row hTable hRow hUltimate hFresh =>
      obtain ⟨old, hOld, hUuid⟩ := h.row
      have hNext : db.rolesTrash.next ≠ number := (Table.lt_next hOld).ne'
      refine ⟨⟨old, Table.mem_insertAll_singleton.mpr (.inl hOld), hUuid⟩, ?_⟩
      change members (db.roleUsersTrash.insertAll _) number = users
      rw [members_insertAll (eq_next_of_keeps (hKeeps role hUltimate hTable)), if_neg hNext,
        List.append_nil, h.users]
  | @dropped role hTable hUltimate => exact ⟨h.row, h.users⟩

/-- Restoring another resource leaves a role in the trashcan as it is. -/
theorem InTrash.restored (h : InTrash roleId number users db) (hOther : otherId ≠ roleId)
    (hRestored : Restored env otherId db db') : InTrash roleId number users db' := by
  cases hRestored with
  | portList hTrash hRow => exact ⟨h.row, h.users⟩
  | @role resource row hPortList hTrash hRow =>
      obtain ⟨hRow, hUsers⟩ := h.remove (h.ne_of_findResource hOther hTrash)
      exact ⟨hRow, hUsers⟩
  | schedule hPortList hRole hTrash hRow => exact ⟨h.row, h.users⟩

end Steps

/-! The permissions that are given to a role. -/

/-- A permission refers to its subject. -/
def subjectReference (type : SubjectType) : Reference Permission Location where
  refers := fun number location row => hasSubject type number location row = true
  same := Permission.Same
  refl := Permission.Same.refl
  trans := @Permission.Same.trans

/-- The permissions of a role are the permissions of a role under another number later. -/
structure SubjectFollows (before after : Database) (role : Nat) (location : Location)
    (role' : Nat) (location' : Location) : Prop where
  table : (subjectReference .role).Follows before.permissions after.permissions role location role'
    location'
  trash : (subjectReference .role).Follows before.permissionsTrash after.permissionsTrash role
    location role' location'

section Permissions

variable {before middle after : Database} {role role' role'' : Nat}
  {location location' location'' : Location}

theorem SubjectFollows.trans (h : SubjectFollows before middle role location role' location')
    (h' : SubjectFollows middle after role' location' role'' location'') :
    SubjectFollows before after role location role'' location'' :=
  ⟨h.table.trans h'.table, h.trash.trans h'.trash⟩

theorem SubjectFollows.refl (db : Database) (role : Nat) (location : Location) :
    SubjectFollows db db role location role location :=
  ⟨.refl _ _ _, .refl _ _ _⟩

/-- Moving resources leaves the subjects as they are. -/
theorem subject_setLocations (type : ResourceType) (old new : Nat) (dest : Location) (role : Nat)
    (location : Location) (db : Database) :
    SubjectFollows db (permissionsSetLocations type old new dest db) role location role location := by
  have hMove (row : Permission) (hRow : hasSubject .role role location row = true) :
      hasSubject .role role location (movePermission type old new dest row) = true ∧
        row.Same (movePermission type old new dest row) := by
    rw [movePermission]
    split
    · exact ⟨hRow, rfl, rfl, rfl⟩
    · exact ⟨hRow, rfl, rfl, rfl⟩
  exact ⟨.update hMove, .update hMove⟩

/-- The permissions of a role that is moved. -/
theorem subject_setSubjects (old new : Nat) (dest : Location) (db : Database) :
    SubjectFollows db (permissionsSetSubjects .role old new dest db) old dest.other new dest := by
  have hMove (row : Permission) (hRow : hasSubject .role old dest.other row = true) :
      hasSubject .role new dest (moveSubject .role old new dest row) = true ∧
        row.Same (moveSubject .role old new dest row) := by
    simp only [hasSubject, Bool.and_eq_true, decide_eq_true_eq] at hRow
    rw [moveSubject, if_pos ⟨hRow.2, hRow.1.1, hRow.1.2⟩]
    refine ⟨?_, rfl, rfl, rfl⟩
    simp [hasSubject, hRow.1.1]
  exact ⟨.update hMove, .update hMove⟩

/-- The permissions of a role while another one is moved. -/
theorem subject_setSubjects_other (old new role : Nat) (dest location : Location)
    (h : location = dest.other → role ≠ old) (db : Database) :
    SubjectFollows db (permissionsSetSubjects .role old new dest db) role location role location := by
  have hMove (row : Permission) (hRow : hasSubject .role role location row = true) :
      hasSubject .role role location (moveSubject .role old new dest row) = true ∧
        row.Same (moveSubject .role old new dest row) := by
    have hFields := hRow
    simp only [hasSubject, Bool.and_eq_true, decide_eq_true_eq] at hFields
    rw [moveSubject, if_neg fun hOld => h (hFields.2.symm.trans hOld.1)
      (hFields.1.2.symm.trans hOld.2.2)]
    exact ⟨hRow, rfl, rfl, rfl⟩
  exact ⟨.update hMove, .update hMove⟩

theorem subject_dropRole (dropped role : Nat) (place location : Location)
    (h : location = place → role ≠ dropped) (db : Database) :
    SubjectFollows db (dropRole dropped place db) role location role location := by
  have hKeep (row : Permission) (hRow : hasSubject .role role location row = true) :
      hasSubject .role dropped place row = false := by
    simp only [hasSubject, Bool.and_eq_true, decide_eq_true_eq] at hRow
    simp only [hasSubject, Bool.and_eq_false_iff, decide_eq_false_iff_not]
    by_cases hLocation : row.subjectLocation = place
    · exact .inl (.inr fun hRole =>
        h (hRow.2.symm.trans hLocation) (hRow.1.2.symm.trans hRole))
    · exact .inr hLocation
  exact ⟨.delete hKeep, .delete hKeep⟩

end Permissions

section Runs

variable {env : Env} {roleId otherId : CString} {ultimate : Bool} {db db' : Database} {number : Nat}
  {users : List Nat}

/-- Deleting another role leaves the permissions of one in the trashcan. -/
theorem InTrash.permissions_roleDeleted (h : InTrash roleId number users db)
    (hOther : otherId ≠ roleId) (hDeleted : RoleDeleted env otherId ultimate db db') :
    SubjectFollows db db' number .trash number .trash := by
  cases hDeleted with
  | @purged role hTrash hUltimate =>
      have hFollow := subject_dropRole role number .trash .trash
        (fun _ => h.ne_of_findResource hOther hTrash) db
      exact ⟨hFollow.table, hFollow.trash⟩
  | @moved role row hTable hRow hUltimate hFresh =>
      have hFollow := subject_setSubjects_other role db.rolesTrash.next number .trash .trash
        (fun hSame => nomatch hSame) db
      exact ⟨hFollow.table, hFollow.trash⟩
  | @dropped role hTable hUltimate =>
      have hFollow := subject_dropRole role number .table .trash (fun hSame => nomatch hSame) db
      exact ⟨hFollow.table, hFollow.trash⟩

/-- So does restoring another resource. -/
theorem InTrash.permissions_restored (h : InTrash roleId number users db)
    (hOther : otherId ≠ roleId) (hRestored : Restored env otherId db db') :
    SubjectFollows db db' number .trash number .trash := by
  cases hRestored with
  | @portList resource row hTrash hRow =>
      have hFollow := subject_setLocations .portList resource db.portLists.next .table number .trash db
      exact ⟨hFollow.table, hFollow.trash⟩
  | @role resource row hPortList hTrash hRow =>
      have hFollow := (subject_setLocations .role resource db.roles.next .table number .trash
        db).trans (subject_setSubjects_other resource db.roles.next number .table .trash
          (fun _ => h.ne_of_findResource hOther hTrash) _)
      exact ⟨hFollow.table, hFollow.trash⟩
  | @schedule resource row hPortList hRole hTrash hRow =>
      have hFollow := subject_setLocations .schedule resource db.schedules.next .table number .trash db
      exact ⟨hFollow.table, hFollow.trash⟩

/-- While the role is in the trashcan, commands about other roles leave it as it is. -/
theorem InTrash.run {session last : Session Database} {commands : List RoleCommand}
    (h : InTrash roleId number users session.db) (hSound : RolesSound session.db)
    (hOther : ∀ command ∈ commands, ¬ command.Names roleId)
    (hRun : RoleRun session commands last) :
    InTrash roleId number users last.db ∧ RolesSound last.db ∧
      SubjectFollows session.db last.db number .trash number .trash := by
  induction hRun with
  | nil session => exact ⟨h, hSound, .refl _ _ _⟩
  | @cons session next last command code commands hRun hKeeps rest ih =>
      have hStep : InTrash roleId number users next.db ∧ RolesSound next.db ∧
          SubjectFollows session.db next.db number .trash number .trash := by
        cases command with
        | create env name comment names =>
            rcases (createRole_ok hRun).2 with hSame | ⟨row, created, hCreated⟩
            · rw [hSame]
              exact ⟨h, hSound, .refl _ _ _⟩
            · have hFollow := SubjectFollows.refl session.db number .trash
              rw [hCreated]
              exact ⟨⟨h.row, h.users⟩, roleCreated_sound hSound row created,
                hFollow.table, hFollow.trash⟩
        | delete env otherId ultimate =>
            have hId : otherId ≠ roleId := hOther _ List.mem_cons_self
            rcases (deleteRole_ok hRun).2.1 with hSame | hDeleted
            · rw [hSame]
              exact ⟨h, hSound, .refl _ _ _⟩
            · exact ⟨h.roleDeleted hId hKeeps hDeleted, hDeleted.sound hSound hKeeps,
                h.permissions_roleDeleted hId hDeleted⟩
        | restore env otherId =>
            have hId : otherId ≠ roleId := hOther _ List.mem_cons_self
            obtain ⟨-, hRestored, hSame⟩ := manageRestore_ok hRun
            by_cases hCode : code = 0
            · have hRestored := hRestored hCode
              exact ⟨h.restored hId hRestored, hRestored.rolesSound hSound hKeeps,
                h.permissions_restored hId hRestored⟩
            · rw [hSame hCode]
              exact ⟨h, hSound, .refl _ _ _⟩
      obtain ⟨hIn, hSound', hFollow⟩ := hStep
      obtain ⟨hLast, hLastSound, hRest⟩ := ih hIn hSound' fun command hMem =>
        hOther command (List.mem_cons_of_mem _ hMem)
      exact ⟨hLast, hLastSound, hFollow.trans hRest⟩

/-- A role that is moved to the trashcan, with its users and permissions. -/
theorem deleteRole_inTrash {session after : Session Database} {role : Nat}
    (hSound : RolesSound session.db)
    (hRole : findResource id env session.db.roles roleId = some role)
    (hKeeps : (RoleCommand.delete env roleId false).KeepsNumber session.db)
    (hDelete : deleteRole env roleId false session = .ok (0, after)) :
    InTrash roleId session.db.rolesTrash.next (members session.db.roleUsers role) after.db ∧
      RolesSound after.db ∧
      SubjectFollows session.db after.db role .table session.db.rolesTrash.next .trash ∧
      ∀ other, other ≠ role → members after.db.roleUsers other = members session.db.roleUsers other := by
  obtain ⟨-, -, hMoved⟩ := deleteRole_ok hDelete
  have hDeleted := hMoved role hRole rfl
  have hAfter := hDeleted.sound hSound hKeeps
  generalize after.db = db' at hDeleted hAfter ⊢
  cases hDeleted with
  | purged hTrash hUltimate => cases hUltimate
  | dropped hTable hUltimate => cases hUltimate
  | @moved role' row hTable hRow hUltimate hFresh =>
      obtain rfl : role' = role := Option.some.inj (hTable.symm.trans hRole)
      obtain ⟨row', hRow', hUuid⟩ := findResource_some hTable
      obtain rfl := Table.row_eq hRow hRow'
      refine ⟨⟨⟨row, Table.mem_insertAll_singleton.mpr (.inr ⟨rfl, rfl⟩), hUuid⟩, ?_⟩, hAfter, ?_, ?_⟩
      · change members (session.db.roleUsersTrash.insertAll _) _ = _
        have hNone : members session.db.roleUsersTrash session.db.rolesTrash.next = [] := by
          rw [members, hSound.trashUsers.select_next]
          rfl
        rw [members_insertAll (eq_next_of_keeps (hKeeps role' rfl hTable)), if_pos rfl, hNone,
          List.nil_append]
        rfl
      · have hFollow := subject_setSubjects role' session.db.rolesTrash.next .trash session.db
        exact ⟨hFollow.table, hFollow.trash⟩
      · intro other hOther
        exact members_delete hOther

/-- A role that is restored, with the users that it has in the trashcan. -/
theorem manageRestore_role {session after : Session Database} (hSound : RolesSound session.db)
    (h : InTrash roleId number users session.db)
    (hPortList : findResource id env session.db.portListsTrash roleId = none)
    (hKeeps : (RoleCommand.restore env roleId).KeepsNumber session.db)
    (hRole : ∃ resource, findResource id env session.db.rolesTrash roleId = some resource)
    (hRestore : manageRestore env roleId session = .ok (0, after)) :
    (∃ row, (session.db.roles.next, row) ∈ after.db.roles.rows ∧ row.uuid = roleId) ∧
      members after.db.roleUsers session.db.roles.next = users ∧
      SubjectFollows session.db after.db number .trash session.db.roles.next .table ∧
      ∀ other, other ≠ session.db.roles.next →
        members after.db.roleUsers other = members session.db.roleUsers other := by
  obtain ⟨-, hRestored, -⟩ := manageRestore_ok hRestore
  have hRestored := hRestored rfl
  generalize after.db = db' at hRestored ⊢
  obtain ⟨found, hFound⟩ := hRole
  cases hRestored with
  | portList hTrash hRow => exact nomatch hTrash.symm.trans hPortList
  | schedule _ hNone hTrash hRow => exact nomatch hNone.symm.trans hFound
  | @role resource row _ hTrash hRow =>
      obtain ⟨old, hOld, hUuid⟩ := h.row
      obtain ⟨row', hRow', hRowId⟩ := findResource_some hTrash
      obtain rfl := Table.row_eq hRow hRow'
      obtain rfl : resource = number :=
        hSound.unique resource number row old hRow hOld (hRowId.trans hUuid.symm)
      have hNew : ∀ other, members (session.db.roleUsers.insertAll
          (session.db.roleUsersTrash.select (·.role = resource))) other =
          members session.db.roleUsers other ++
            if session.db.roles.next = other then users else [] := by
        intro other
        rw [members_insertAll (eq_next_of_keeps (hKeeps resource hPortList hTrash)), ← h.users]
        rfl
      have hNone : members session.db.roleUsers session.db.roles.next = [] := by
        rw [members, hSound.users.select_next]
        rfl
      refine ⟨⟨row, Table.mem_insertAll_singleton.mpr (.inr ⟨rfl, rfl⟩), hRowId⟩, ?_, ?_, ?_⟩
      · refine (hNew _).trans ?_
        rw [if_pos rfl, hNone, List.nil_append]
      · have hFollow := (subject_setLocations .role resource session.db.roles.next .table resource
          .trash session.db).trans (subject_setSubjects resource session.db.roles.next .table _)
        exact ⟨hFollow.table, hFollow.trash⟩
      · intro other hOther
        refine (hNew other).trans ?_
        rw [if_neg (Ne.symm hOther), List.append_nil]

/-- A role is restored with its users and permissions, and no other role gains or loses a
user, where every role with users keeps its number on its way. -/
theorem role_restored {session trashed later restored : Session Database} {env env' : Env}
    {roleId : CString} {role resource : Nat} {commands : List RoleCommand}
    (hSound : RolesSound session.db)
    (hRole : findResource id env session.db.roles roleId = some role)
    (hDelete : deleteRole env roleId false session = .ok (0, trashed))
    (hKeeps : (RoleCommand.delete env roleId false).KeepsNumber session.db)
    (hOther : ∀ command ∈ commands, ¬ command.Names roleId)
    (hRun : RoleRun trashed commands later)
    (hPortList : findResource id env' later.db.portListsTrash roleId = none)
    (hResource : findResource id env' later.db.rolesTrash roleId = some resource)
    (hRestore : manageRestore env' roleId later = .ok (0, restored))
    (hKeeps' : (RoleCommand.restore env' roleId).KeepsNumber later.db) :
    ∃ number, (∃ row, (number, row) ∈ restored.db.roles.rows ∧ row.uuid = roleId) ∧
      members restored.db.roleUsers number = members session.db.roleUsers role ∧
      (∀ other, other ≠ role →
        members trashed.db.roleUsers other = members session.db.roleUsers other) ∧
      (∀ other, other ≠ number →
        members restored.db.roleUsers other = members later.db.roleUsers other) ∧
      SubjectFollows session.db restored.db role .table number .table := by
  obtain ⟨hTrashed, hTrashedSound, hFollow, hKept⟩ :=
    deleteRole_inTrash hSound hRole hKeeps hDelete
  obtain ⟨hLater, hLaterSound, hBetween⟩ := hTrashed.run hTrashedSound hOther hRun
  obtain ⟨hRow, hUsers, hBack, hKept'⟩ :=
    manageRestore_role hLaterSound hLater hPortList hKeeps' ⟨resource, hResource⟩ hRestore
  exact ⟨later.db.roles.next, hRow, hUsers, hKept, hKept', (hFollow.trans hBetween).trans hBack⟩

end Runs

def emptyDatabase : Database :=
  ⟨.empty, .empty, .empty, .empty, .empty, .empty, .empty, .empty, .empty, .empty, .empty, .empty,
    .empty, .empty, .empty, .empty, .empty, fun _ => .empty, fun _ => .empty⟩

/-- A user who may do everything and owns what has no owner. -/
def anyone : Env := ⟨none, fun _ _ => true, fun _ _ _ _ => true, 0, fun _ => []⟩

def roleNamed (uuid : CString) : Resource := ⟨uuid, none, uuid, [], 0, 0⟩

def permissionOf (role : Nat) : Permission :=
  ⟨lit "p", lit "get_tasks", .other (lit "task"), 0, .table, .role, role, .table⟩

/-- A database with the role `first`, which has a user and a permission, and the role
`second`. -/
def oneMember : Database :=
  { emptyDatabase with
    roles := ⟨[(1, roleNamed (lit "first")), (2, roleNamed (lit "second"))], by decide⟩
    roleUsers := ⟨[(1, ⟨1, 7⟩)], by decide⟩
    permissions := ⟨[(1, permissionOf 1)], by decide⟩ }

/-- The session after a command. -/
def afterwards (command : Command Database) (session : Session Database) : Session Database :=
  match command session with
  | .ok (_, after) => after
  | .error _ => session

/-- The role `second` is deleted while `first` is in the trashcan. -/
theorem role_restored_oneMember : ∃ trashed later restored number,
    deleteRole anyone (lit "first") false ⟨oneMember, none, 0⟩ = .ok (0, trashed) ∧
      deleteRole anyone (lit "second") false trashed = .ok (0, later) ∧
      manageRestore anyone (lit "first") later = .ok (0, restored) ∧
      members restored.db.roleUsers number = [7] ∧
      ∃ row, (1, row) ∈ restored.db.permissions.rows ∧ hasSubject .role number .table row = true ∧
        (permissionOf 1).Same row := by
  have hSound : RolesSound oneMember := by
    refine ⟨fun number row hRow => ?_, fun _ _ hRow => (nomatch hRow),
      fun _ _ _ _ hRow => (nomatch hRow)⟩
    obtain ⟨-, rfl⟩ := Prod.mk.inj (List.mem_singleton.mp hRow)
    exact ⟨_, List.mem_cons_self⟩
  have hRole : findResource id anyone oneMember.roles (lit "first") = some 1 := by decide
  have hKeeps : (RoleCommand.delete anyone (lit "first") false).KeepsNumber oneMember :=
    fun role _ hFound => .inr (Option.some.inj (hRole.symm.trans hFound))
  have hDelete : deleteRole anyone (lit "first") false ⟨oneMember, none, 0⟩ = .ok (0,
    afterwards (deleteRole anyone (lit "first") false) ⟨oneMember, none, 0⟩) := rfl
  generalize hTrashed : afterwards (deleteRole anyone (lit "first") false) ⟨oneMember, none, 0⟩ =
    trashed at hDelete
  have hBetween : deleteRole anyone (lit "second") false trashed = .ok (0,
      afterwards (deleteRole anyone (lit "second") false) trashed) := by
    rw [← hTrashed]
    rfl
  have hNobody : (RoleCommand.delete anyone (lit "second") false).KeepsNumber trashed.db := by
    intro role _ _
    rw [← hTrashed]
    exact .inl rfl
  generalize hLater : afterwards (deleteRole anyone (lit "second") false) trashed = later
    at hBetween
  have hResource : findResource id anyone later.db.rolesTrash (lit "first") = some 1 := by
    rw [← hLater, ← hTrashed]
    decide
  have hKeeps' : (RoleCommand.restore anyone (lit "first")).KeepsNumber later.db := by
    intro resource _ hFound
    obtain rfl := Option.some.inj (hResource.symm.trans hFound)
    rw [← hLater, ← hTrashed]
    exact .inr rfl
  have hPortList : findResource id anyone later.db.portListsTrash (lit "first") = none := by
    rw [← hLater, ← hTrashed]
    rfl
  have hRestore : manageRestore anyone (lit "first") later = .ok (0,
      afterwards (manageRestore anyone (lit "first")) later) := by
    rw [← hLater, ← hTrashed]
    rfl
  have hOther : ∀ command ∈ [RoleCommand.delete anyone (lit "second") false],
      ¬ command.Names (lit "first") :=
    List.forall_mem_singleton.mpr (show lit "second" ≠ lit "first" by decide)
  obtain ⟨number, -, hUsers, -, -, hFollows⟩ := role_restored hSound hRole hDelete hKeeps hOther
    (.cons hBetween hNobody (.nil _)) hPortList hResource hRestore hKeeps'
  exact ⟨_, _, _, number, hDelete, hBetween, hRestore, hUsers,
    hFollows.table 1 (permissionOf 1) (List.mem_singleton_self _) rfl⟩

/-- A database with a role in front of the role `second`, which has a user. -/
def twoRoles : Database :=
  { emptyDatabase with
    roles := ⟨[(1, roleNamed (lit "first")), (2, roleNamed (lit "second"))], by decide⟩
    roleUsers := ⟨[(1, ⟨2, 7⟩)], by decide⟩ }

/-- The second role has the first place in the trashcan, where its users are not found. -/
theorem role_restored_without_users : ∃ trashed restored,
    deleteRole anyone (lit "second") false ⟨twoRoles, none, 0⟩ = .ok (0, trashed) ∧
      manageRestore anyone (lit "second") trashed = .ok (0, restored) ∧
      (2, roleNamed (lit "second")) ∈ restored.db.roles.rows ∧
      members twoRoles.roleUsers 2 = [7] ∧ members restored.db.roleUsers 2 = [] :=
  ⟨_, _, rfl, rfl, by decide, by decide, by decide⟩

end Trashcan
