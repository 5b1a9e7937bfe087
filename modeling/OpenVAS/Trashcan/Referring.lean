import OpenVAS.Trashcan.Steps

/-! The rows that refer to a resource: tags, permissions, the targets of a port list and
the tasks of a schedule. They follow the resource when it is moved, and are left alone
when another resource is. -/
namespace Trashcan

open Transaction

/-- A tag refers to a resource by its type, its number and where it is. -/
def tagReference (type : ResourceType) : Reference Tag Location where
  refers := fun number location row =>
    row.resourceType = type ∧ row.resource = number ∧ row.resourceLocation = location
  same := fun one two =>
    { two with resource := one.resource, resourceLocation := one.resourceLocation } = one
  refl := fun _ => rfl
  trans := fun one two three h h' => by
    rw [← h] at *
    rw [← h']

/-- So does a permission. -/
def permissionReference (type : ResourceType) : Reference Permission Location where
  refers := fun number location row =>
    row.resourceType = type ∧ row.resource = number ∧ row.resourceLocation = location
  same := Permission.Same
  refl := Permission.Same.refl
  trans := @Permission.Same.trans

/-- A target in the trashcan refers to a port list. -/
def targetReference : Reference TrashTarget Location where
  refers := fun number location row => row.portRange = number ∧ row.portListLocation = location
  same := fun one two => two.owner = one.owner
  refl := fun _ => rfl
  trans := fun _ _ _ h h' => h'.trans h

/-- A task refers to a schedule. -/
def taskReference : Reference Task Location where
  refers := fun number location row => row.schedule = number ∧ row.scheduleLocation = location
  same := fun one two => two.hidden = one.hidden
  refl := fun _ => rfl
  trans := fun _ _ _ h h' => h'.trans h

/-- The tags of a resource are the tags of a resource under another number later. -/
structure TagsFollow (type : ResourceType) (before after : Database) (number : Nat)
    (location : Location) (number' : Nat) (location' : Location) : Prop where
  table : (tagReference type).Follows before.tags after.tags number location number' location'
  trash : (tagReference type).Follows before.tagsTrash after.tagsTrash number location number'
    location'

/-- The permissions on a resource are on another number later. -/
structure PermissionsFollow (type : ResourceType) (before after : Database) (number : Nat)
    (location : Location) (number' : Nat) (location' : Location) : Prop where
  table : (permissionReference type).Follows before.permissions after.permissions number location
    number' location'
  trash : (permissionReference type).Follows before.permissionsTrash after.permissionsTrash number
    location number' location'

section Tables

variable {type : ResourceType} {before middle after : Database} {number number' number'' : Nat}
  {location location' location'' : Location}

theorem TagsFollow.trans (h : TagsFollow type before middle number location number' location')
    (h' : TagsFollow type middle after number' location' number'' location'') :
    TagsFollow type before after number location number'' location'' :=
  ⟨h.table.trans h'.table, h.trash.trans h'.trash⟩

theorem TagsFollow.refl (db : Database) : TagsFollow type db db number location number location :=
  ⟨.refl _ _ _, .refl _ _ _⟩

theorem PermissionsFollow.trans
    (h : PermissionsFollow type before middle number location number' location')
    (h' : PermissionsFollow type middle after number' location' number'' location'') :
    PermissionsFollow type before after number location number'' location'' :=
  ⟨h.table.trans h'.table, h.trash.trans h'.trash⟩

theorem PermissionsFollow.refl (db : Database) :
    PermissionsFollow type db db number location number location :=
  ⟨.refl _ _ _, .refl _ _ _⟩

end Tables

section Moving

variable (type moved : ResourceType) (old new number : Nat) (dest location : Location)
  (db : Database)

/-- The tags of a resource that is moved follow it. -/
theorem tags_moved :
    TagsFollow type db (tagsSetLocations type old new dest db) old dest.other new dest := by
  have hMove (row : Tag) (h : (tagReference type).refers old dest.other row) :
      (tagReference type).refers new dest (moveTag type old new dest row) ∧
        (tagReference type).same row (moveTag type old new dest row) := by
    rw [moveTag, if_pos ⟨h.1, h.2.1, h.2.2⟩]
    exact ⟨⟨h.1, rfl, rfl⟩, rfl⟩
  exact ⟨.update hMove, .update hMove⟩

/-- Those of other resources stay. -/
theorem tags_left (h : type = moved → location = dest.other → number ≠ old) :
    TagsFollow type db (tagsSetLocations moved old new dest db) number location number location := by
  have hMove (row : Tag) (hRow : (tagReference type).refers number location row) :
      moveTag moved old new dest row = row :=
    if_neg fun hOld => h (hRow.1.symm.trans hOld.1) (hRow.2.2.symm.trans hOld.2.2)
      (Int.ofNat.inj (hRow.2.1.symm.trans hOld.2.1))
  exact ⟨.keep hMove, .keep hMove⟩

/-- So they do when another resource is deleted for good. -/
theorem tags_orphans (h : type = moved → location = dest → number ≠ old) :
    TagsFollow type db (tagsSetOrphans moved old dest db) number location number location := by
  have hMove (row : Tag) (hRow : (tagReference type).refers number location row) :
      orphanTag moved old dest row = row :=
    if_neg fun hOld => h (hRow.1.symm.trans hOld.1) (hRow.2.2.symm.trans hOld.2.2)
      (Int.ofNat.inj (hRow.2.1.symm.trans hOld.2.1))
  exact ⟨.keep hMove, .keep hMove⟩

/-- The permissions on a resource that is moved follow it. -/
theorem permissions_moved :
    PermissionsFollow type db (permissionsSetLocations type old new dest db) old dest.other new
      dest := by
  have hMove (row : Permission) (h : (permissionReference type).refers old dest.other row) :
      (permissionReference type).refers new dest (movePermission type old new dest row) ∧
        (permissionReference type).same row (movePermission type old new dest row) := by
    rw [movePermission, if_pos ⟨h.1, h.2.1, h.2.2⟩]
    exact ⟨⟨h.1, rfl, rfl⟩, rfl, rfl, rfl⟩
  exact ⟨.update hMove, .update hMove⟩

/-- Those on other resources stay. -/
theorem permissions_left (h : type = moved → location = dest.other → number ≠ old) :
    PermissionsFollow type db (permissionsSetLocations moved old new dest db) number location number
      location := by
  have hMove (row : Permission) (hRow : (permissionReference type).refers number location row) :
      movePermission moved old new dest row = row :=
    if_neg fun hOld => h (hRow.1.symm.trans hOld.1) (hRow.2.2.symm.trans hOld.2.2)
      (Int.ofNat.inj (hRow.2.1.symm.trans hOld.2.1))
  exact ⟨.keep hMove, .keep hMove⟩

theorem permissions_orphans (h : type = moved → location = dest → number ≠ old) :
    PermissionsFollow type db (permissionsSetOrphans moved old dest db) number location number
      location := by
  have hMove (row : Permission) (hRow : (permissionReference type).refers number location row) :
      orphanPermission moved old dest row = row :=
    if_neg fun hOld => h (hRow.1.symm.trans hOld.1) (hRow.2.2.symm.trans hOld.2.2)
      (Int.ofNat.inj (hRow.2.1.symm.trans hOld.2.1))
  exact ⟨.keep hMove, .keep hMove⟩

/-- Moving a subject leaves the resource of a permission as it is. -/
theorem permissions_setSubjects (subject : SubjectType) :
    PermissionsFollow type db (permissionsSetSubjects subject old new dest db) number location number
      location := by
  have hMove (row : Permission) (hRow : (permissionReference type).refers number location row) :
      (permissionReference type).refers number location (moveSubject subject old new dest row) ∧
        (permissionReference type).same row (moveSubject subject old new dest row) := by
    rw [moveSubject]
    split
    · exact ⟨hRow, rfl, rfl, rfl⟩
    · exact ⟨hRow, rfl, rfl, rfl⟩
  exact ⟨.update hMove, .update hMove⟩

variable (table : Table TrashTarget) (tasks : Table Task)

theorem targets_moved :
    targetReference.Follows table (table.update (moveTarget old new dest)) old dest.other new
      dest := by
  apply Reference.Follows.update
  intro row h
  rw [moveTarget, if_pos ⟨h.1, h.2⟩]
  exact ⟨⟨rfl, rfl⟩, rfl⟩

theorem targets_left (h : location = dest.other → number ≠ old) :
    targetReference.Follows table (table.update (moveTarget old new dest)) number location number
      location := by
  apply Reference.Follows.keep
  intro row hRow
  exact if_neg fun hOld => h (hRow.2.symm.trans hOld.2) (hRow.1.symm.trans hOld.1)

theorem tasks_moved :
    taskReference.Follows tasks (tasks.update (moveTask old new dest)) old dest.other new dest := by
  apply Reference.Follows.update
  intro row h
  rw [moveTask, if_pos ⟨h.1, h.2⟩]
  exact ⟨⟨rfl, rfl⟩, rfl⟩

theorem tasks_left (h : location = dest.other → number ≠ old) :
    taskReference.Follows tasks (tasks.update (moveTask old new dest)) number location number
      location := by
  apply Reference.Follows.keep
  intro row hRow
  exact if_neg fun hOld => h (hRow.2.symm.trans hOld.2) (hRow.1.symm.trans hOld.1)

end Moving

end Trashcan
