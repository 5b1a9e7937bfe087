import OpenVAS.ReportFormats.OnDisk

/-! What the stages of `create_report_format` leave in the file system. -/
namespace ReportFormats.OnDisk

open CString Files

/-! The directory. -/

/-- The files without the old directory. -/
def cleared (host : Host) (tree : Tree) (dir : Place) : Tree :=
  if (tree dir).isSome then removeRecurse host.left dir tree else tree

/-- The files with the new directory. -/
def opened (host : Host) (tree : Tree) (dir : Place) : Tree :=
  (mkdirWithParents host.mkdirRefuses [] dir (cleared host tree dir)).2.1

/-- The directories that are made. -/
def made (host : Host) (tree : Tree) (dir : Place) : List Place :=
  (mkdirWithParents host.mkdirRefuses [] dir (cleared host tree dir)).2.2

/-- The old directory is removed, if there is one. -/
def Clears (host : Host) (tree : Tree) (dir : Place) : Prop := tree dir = none ∨ host.left = []

/-- There is a directory in the end. -/
def Reaches (host : Host) (tree : Tree) (dir : Place) : Prop :=
  ∀ p, p <+: dir → p ≠ [] → Passable host.mkdirRefuses (cleared host tree dir) p

/-- The rights are set. -/
def Readable (host : Host) (global : Bool) : Prop :=
  (global = true ∨ host.chmodsReportDir = true) ∧ host.chmodsDir = true

def removal (tree : Tree) (dir : Place) : List Effect :=
  if (tree dir).isSome then [.removed dir] else []

theorem openDirectory_uncleared {host : Host} {dir : Place} {world : World} (global : Bool)
    (h : ¬ Clears host world.tree dir) :
    openDirectory host global dir world = (false, { world with
      tree := removeRecurse host.left dir world.tree,
      effects := world.effects ++ [.removed dir] }) := by
  obtain ⟨hSome, hLeft⟩ := not_or.mp h
  obtain ⟨entry, hEntry⟩ := Option.ne_none_iff_exists'.mp hSome
  simp [openDirectory, openvasFileRemoveRecurse, hEntry, hLeft]

theorem openDirectory_cleared {host : Host} {dir : Place} {world : World} (global : Bool)
    (h : Clears host world.tree dir) :
    (openDirectory host global dir world).2 = { world with
      tree := opened host world.tree dir,
      effects := world.effects ++ removal world.tree dir ++
        (made host world.tree dir).map .created } ∧
    ((openDirectory host global dir world).1 = true ↔
      Reaches host world.tree dir ∧ Readable host global) := by
  have hDone : (mkdirWithParents host.mkdirRefuses [] dir (cleared host world.tree dir)).1 = true ↔
      Reaches host world.tree dir := mkdirWithParents_done dir
  rw [← hDone]
  cases hEntry : world.tree dir with
  | none =>
      cases hMade : (mkdirWithParents host.mkdirRefuses [] dir world.tree).1 <;>
        simp [openDirectory, gMkdirWithParents, opened, made, cleared, removal, Readable, hEntry,
          hMade]
  | some entry =>
      have hLeft : host.left = [] := h.resolve_left (by simp [hEntry])
      cases hMade : (mkdirWithParents host.mkdirRefuses [] dir
          (removeRecurse [] dir world.tree)).1 <;>
        simp [openDirectory, openvasFileRemoveRecurse, gMkdirWithParents, opened, made, cleared,
          removal, Readable, hEntry, hMade, hLeft]

theorem mem_made {host : Host} {tree : Tree} {dir p : Place} :
    p ∈ made host tree dir ↔ cleared host tree dir p = none ∧ p <+: dir ∧ p ≠ [] ∧
      ∀ q, q <+: p → q ≠ [] → Passable host.mkdirRefuses (cleared host tree dir) q := by
  rw [made, mem_made_iff, Made]
  constructor
  · rintro ⟨hMissing, front, hFront, hNe, rfl, hPassable⟩
    exact ⟨hMissing, hFront, hNe, hPassable⟩
  · rintro ⟨hMissing, hFront, hNe, hPassable⟩
    exact ⟨hMissing, p, hFront, hNe, rfl, hPassable⟩

theorem opened_apply (host : Host) (tree : Tree) (dir p : Place) :
    opened host tree dir p = if p ∈ made host tree dir then some .directory
      else cleared host tree dir p := mkdirWithParents_tree dir

/-- Above the directory there is no change but for what is made. -/
theorem cleared_of_not_below {host : Host} {tree : Tree} {dir p : Place} (h : ¬ dir <+: p) :
    cleared host tree dir p = tree p := by
  rw [cleared]
  split
  · exact removeRecurse_of_not_below host.left h
  · rfl

theorem cleared_self {host : Host} {tree : Tree} {dir : Place} (h : Clears host tree dir) :
    cleared host tree dir dir = none := by
  rw [cleared]
  split
  · rename_i hSome
    rw [h.resolve_left fun hNone => by simp [hNone] at hSome]
    exact removeRecurse_nil_of_below (List.prefix_refl dir)
  · rename_i hNone
    exact Option.not_isSome_iff_eq_none.mp hNone

/-! The files. -/

/-- The places of the files that are written, with their contents. -/
def landings (host : Host) (tree : Tree) (dir : Place) : Nat → List File → List (Place × List UInt8)
  | _, [] => []
  | number, file :: files =>
      if file.name = [] then []
      else
        match landing host tree dir number file with
        | none => []
        | some place =>
            (place, fileBytes host file) ::
              if host.chmods number then landings host tree dir (number + 1) files else []

/-- All the files are written and made readable. -/
def AllPass (host : Host) (tree : Tree) (dir : Place) (number : Nat) (files : List File) : Prop :=
  ∀ i file, files[i]? = some file → file.name ≠ [] ∧
    (landing host tree dir (number + i) file).isSome ∧ host.chmods (number + i) = true

def put (tree : Tree) (files : List (Place × List UInt8)) : Tree :=
  files.foldl (fun tree file => set tree file.1 (.file file.2)) tree

section Files

variable {host : Host} {tree tree' : Tree} {dir : Place} {number : Nat} {file : File}
  {files : List File}

theorem landing_eq_some {place : Place} (h : landing host tree dir number file = some place) :
    place = resolve dir (steps file.name) ∧ tree place ≠ some .directory := by
  rw [landing] at h
  split at h
  · exact target_eq_some h
  · cases h

theorem landing_congr (h : ∀ p, tree p = some .directory ↔ tree' p = some .directory) :
    landing host tree dir number file = landing host tree' dir number file := by
  rw [landing, landing, target_congr h]

theorem landings_congr (h : ∀ p, tree p = some .directory ↔ tree' p = some .directory) :
    landings host tree dir number files = landings host tree' dir number files := by
  induction files generalizing number with
  | nil => rfl
  | cons file files ih => simp only [landings, landing_congr h, ih]

theorem allPass_congr (h : ∀ p, tree p = some .directory ↔ tree' p = some .directory) :
    AllPass host tree dir number files ↔ AllPass host tree' dir number files := by
  simp only [AllPass, landing_congr h]

theorem allPass_nil : AllPass host tree dir number [] := fun i file h => by cases h

theorem allPass_cons : AllPass host tree dir number (file :: files) ↔
    (file.name ≠ [] ∧ (landing host tree dir number file).isSome ∧ host.chmods number = true) ∧
      AllPass host tree dir (number + 1) files := by
  constructor
  · intro h
    refine ⟨h 0 file rfl, fun i other hOther => ?_⟩
    have hNext := h (i + 1) other hOther
    rwa [show number + (i + 1) = number + 1 + i by omega] at hNext
  · rintro ⟨hFirst, hRest⟩ i other hOther
    cases i with
    | zero =>
        obtain rfl := Option.some_inj.mp hOther
        exact hFirst
    | succ i =>
        rw [show number + (i + 1) = number + 1 + i by omega]
        exact hRest i other hOther

/-- The loop writes the files one after the other, and fails unless all pass. -/
theorem writeFiles_spec (world : World) :
    (writeFiles host dir number files world).2 = { world with
      tree := put world.tree (landings host world.tree dir number files),
      effects := world.effects ++
        (landings host world.tree dir number files).map fun file => .wrote file.1 } ∧
    ((writeFiles host dir number files world).1 = none ↔
      AllPass host world.tree dir number files) := by
  induction files generalizing number world with
  | nil => exact ⟨by simp [writeFiles, landings, put], iff_of_true rfl allPass_nil⟩
  | cons file files ih =>
      rw [allPass_cons, writeFiles, landings]
      by_cases hName : file.name = []
      · simp [hName, put]
      rw [if_neg hName, if_neg hName]
      cases hLanding : landing host world.tree dir number file with
      | none => simp [hName, put]
      | some place =>
          have hDirectories := set_directory_iff (landing_eq_some hLanding).2 (fileBytes host file)
          cases hChmod : host.chmods number with
          | false => simp [hName, put]
          | true =>
              obtain ⟨hWorld, hNone⟩ := @ih (number + 1) { world with
                tree := set world.tree place (.file (fileBytes host file)),
                effects := world.effects ++ [.wrote place] }
              rw [landings_congr hDirectories] at hWorld
              rw [allPass_congr hDirectories] at hNone
              constructor
              · simpa [put] using hWorld
              · simpa [hName] using hNone

/-- The content that a place gets last. -/
def lastWritten (files : List (Place × List UInt8)) (p : Place) : Option (List UInt8) :=
  (files.reverse.find? (·.1 = p)).map (·.2)

theorem put_apply (files : List (Place × List UInt8)) (p : Place) :
    put tree files p = match lastWritten files p with
      | some bytes => some (.file bytes)
      | none => tree p := by
  induction files using List.reverseRecOn with
  | nil => rfl
  | append_singleton files file ih =>
      have hPut : put tree (files ++ [file]) = set (put tree files) file.1 (.file file.2) := by
        rw [put, List.foldl_append]
        rfl
      rw [hPut, lastWritten, List.reverse_append]
      by_cases hSame : p = file.1
      · subst hSame
        simp
      · rw [set_of_ne hSame, ih, lastWritten]
        simp [Ne.symm hSame]

theorem mem_landings_cons {place : Place} {bytes : List UInt8} :
    (place, bytes) ∈ landings host tree dir number (file :: files) ↔
      file.name ≠ [] ∧ ((landing host tree dir number file = some place ∧ bytes = fileBytes host file) ∨
        ((landing host tree dir number file).isSome ∧ host.chmods number = true ∧
          (place, bytes) ∈ landings host tree dir (number + 1) files)) := by
  rw [landings]
  by_cases hName : file.name = []
  · simp [hName]
  rw [if_neg hName, and_iff_right hName]
  cases hLanding : landing host tree dir number file with
  | none => simp
  | some first =>
      cases hChmod : host.chmods number with
      | false => simp [eq_comm]
      | true => simp [eq_comm]

/-- A file is written if all before it pass, and it lands somewhere. -/
theorem mem_landings_iff {place : Place} {bytes : List UInt8} :
    (place, bytes) ∈ landings host tree dir number files ↔
      ∃ before file after, files = before ++ file :: after ∧
        AllPass host tree dir number before ∧ file.name ≠ [] ∧
        landing host tree dir (number + before.length) file = some place ∧
        bytes = fileBytes host file := by
  induction files generalizing number with
  | nil => simp [landings]
  | cons first files ih =>
      rw [mem_landings_cons, ih]
      constructor
      · rintro ⟨hName, ⟨hLanding, hBytes⟩ | ⟨hSome, hChmod, before, file, after, rfl, hBefore, hFile⟩⟩
        · exact ⟨[], first, files, rfl, allPass_nil, hName, hLanding, hBytes⟩
        · refine ⟨first :: before, file, after, rfl, allPass_cons.mpr ⟨⟨hName, hSome, hChmod⟩, hBefore⟩, ?_⟩
          rwa [List.length_cons, show number + (before.length + 1) = number + 1 + before.length by omega]
      · rintro ⟨before, file, after, hSplit, hBefore, hName, hLanding, hBytes⟩
        cases before with
        | nil =>
            obtain ⟨rfl, rfl⟩ := List.cons.inj hSplit
            exact ⟨hName, .inl ⟨hLanding, hBytes⟩⟩
        | cons head before =>
            obtain ⟨rfl, rfl⟩ := List.cons.inj hSplit
            obtain ⟨⟨hHead, hSome, hChmod⟩, hRest⟩ := allPass_cons.mp hBefore
            refine ⟨hHead, .inr ⟨hSome, hChmod, before, file, after, rfl, hRest, hName, ?_, hBytes⟩⟩
            rwa [show number + 1 + before.length = number + (before.length + 1) by omega]

end Files

end ReportFormats.OnDisk
