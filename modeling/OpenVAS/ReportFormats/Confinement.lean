import OpenVAS.ReportFormats.Stages

/-! Where `create_report_format` writes, makes and removes. The place of the directory is that of a
UUID; a file name can lead anywhere. -/
namespace ReportFormats.OnDisk

open CString Files

/-- What is done lies in the tree. The link to a signature is not part of it. -/
def Confined (root : Place) : Effect → Prop
  | .linked _ => True
  | .removed place | .created place | .wrote place => root <+: place

instance (root : Place) : DecidablePred (Confined root)
  | .linked _ => inferInstanceAs (Decidable True)
  | .removed place | .created place | .wrote place => inferInstanceAs (Decidable (root <+: place))

/-- No missing directory above the tree is made. -/
def NothingMadeAbove (host : Host) (tree : Tree) (root : Place) : Prop :=
  ∀ p, p <+: root → p ≠ root → p ≠ [] → tree p = none →
    ∃ q, q <+: p ∧ q ≠ [] ∧ ¬ Passable host.mkdirRefuses tree q

/-- The names of the files lead into the tree, as far as the files are written. -/
def NamesLeadInside (host : Host) (tree : Tree) (root dir : Place) (files : List File) : Prop :=
  ∀ before file after, files = before ++ file :: after →
    AllPass host (opened host tree dir) dir 0 before → file.name ≠ [] →
    (landing host (opened host tree dir) dir before.length file).isSome →
    root <+: resolve dir (steps file.name)

section Stages

variable {host : Host} {tree : Tree} {root : Place} {name : CString}

theorem not_below {p : Place} (h : p <+: root) : ¬ root ++ [name] <+: p := by
  intro hBelow
  have hLength := (hBelow.trans h).length_le
  simp at hLength

theorem made_confined_iff : (∀ p ∈ made host tree (root ++ [name]), root <+: p) ↔
    NothingMadeAbove host tree root := by
  have hSame : ∀ p, p <+: root → cleared host tree (root ++ [name]) p = tree p :=
    fun p hp => cleared_of_not_below (not_below hp)
  have hPassable : ∀ p, p <+: root → (Passable host.mkdirRefuses
      (cleared host tree (root ++ [name])) p ↔ Passable host.mkdirRefuses tree p) := by
    intro p hp
    rw [Passable, Passable, hSame p hp]
  constructor
  · intro h p hp hNe hNotTop hMissing
    by_contra hAll
    push Not at hAll
    have hMade : p ∈ made host tree (root ++ [name]) := by
      refine mem_made.mpr ⟨(hSame p hp).trans hMissing, hp.trans (List.prefix_append root _),
        hNotTop, fun q hq hqNe => ?_⟩
      exact (hPassable q (hq.trans hp)).mpr (hAll q hq hqNe)
    exact hNe (List.IsPrefix.eq_of_length_le hp (h p hMade).length_le)
  · intro h p hMade
    obtain ⟨hMissing, hp, hNotTop, hAll⟩ := mem_made.mp hMade
    rcases List.prefix_concat_iff.mp hp with rfl | hAbove
    · exact List.prefix_append root _
    by_contra hOutside
    have hNe : p ≠ root := fun hSameRoot => hOutside (hSameRoot ▸ List.prefix_refl _)
    obtain ⟨q, hq, hqNe, hBlocked⟩ := h p hAbove hNe hNotTop (hSame p hAbove ▸ hMissing)
    exact hBlocked ((hPassable q (hq.trans hAbove)).mp (hAll q hq hqNe))

theorem landings_confined_iff {dir : Place} {files : List File} :
    (∀ file ∈ landings host (opened host tree dir) dir 0 files, root <+: file.1) ↔
      NamesLeadInside host tree root dir files := by
  constructor
  · intro h before file after hSplit hBefore hName hSome
    obtain ⟨place, hPlace⟩ := Option.isSome_iff_exists.mp hSome
    rw [← (landing_eq_some hPlace).1]
    refine h (place, fileBytes host file) (mem_landings_iff.mpr ?_)
    exact ⟨before, file, after, hSplit, hBefore, hName, by rwa [Nat.zero_add], rfl⟩
  · rintro h ⟨place, bytes⟩ hLanding
    obtain ⟨before, file, after, hSplit, hBefore, hName, hPlace, -⟩ := mem_landings_iff.mp hLanding
    rw [Nat.zero_add] at hPlace
    rw [(landing_eq_some hPlace).1]
    exact h before file after hSplit hBefore hName (Option.isSome_of_eq_some hPlace)

theorem opening_confined_iff (host : Host) (root : Place) (name : CString) (world : World) :
    (∀ effect ∈ world.effects ++ removal world.tree (root ++ [name]) ++
        (made host world.tree (root ++ [name])).map .created, Confined root effect) ↔
      (∀ effect ∈ world.effects, Confined root effect) ∧
        NothingMadeAbove host world.tree root := by
  have hRemoval : ∀ effect ∈ removal world.tree (root ++ [name]), Confined root effect := by
    intro effect hEffect
    rw [removal] at hEffect
    split at hEffect
    · rw [List.mem_singleton.mp hEffect]
      exact List.prefix_append root [name]
    · exact absurd hEffect List.not_mem_nil
  rw [← @made_confined_iff host world.tree root name]
  simp only [List.forall_mem_append, List.forall_mem_map, Confined]
  exact and_congr_left fun _ => and_iff_left hRemoval

/-- The directory itself lies in the tree, so that it may be removed. -/
theorem cleanUp_confined_iff (failure : Failure) (world : World) :
    (∀ effect ∈ (cleanUp host (root ++ [name]) failure world).2.effects, Confined root effect) ↔
      ∀ effect ∈ world.effects, Confined root effect := by
  rw [cleanUp, refuse, openvasFileRemoveRecurse]
  split
  · exact Iff.rfl
  · simp [or_imp, forall_and, Confined]

end Stages

section Formats

variable (host : Host) (request : Request) (files : List File) (trust : Trust) (uuid : Uuid)
  (world : World)

/-- What is done from the old directory on lies in the tree: nothing above it is made, and the file
names lead into it. -/
def StoredInside : Prop :=
  Clears host world.tree (reportDir host request.global ++ [uuid.1]) →
    NothingMadeAbove host world.tree (reportDir host request.global) ∧
    (Reaches host world.tree (reportDir host request.global ++ [uuid.1]) →
      Readable host request.global →
      NamesLeadInside host world.tree (reportDir host request.global)
        (reportDir host request.global ++ [uuid.1]) files)

theorem fillDirectory_confined_iff (root : Place) :
    (∀ effect ∈ (fillDirectory host request files trust uuid (root ++ [uuid.1]) world).2.effects,
      Confined root effect) ↔
    (∀ effect ∈ world.effects, Confined root effect) ∧
      ∀ file ∈ landings host world.tree (root ++ [uuid.1]) 0 files, root <+: file.1 := by
  obtain ⟨hWorld, -⟩ := @writeFiles_spec host (root ++ [uuid.1]) 0 files world
  have hWritten : (∀ effect ∈ (writeFiles host (root ++ [uuid.1]) 0 files world).2.effects,
      Confined root effect) ↔ (∀ effect ∈ world.effects, Confined root effect) ∧
        ∀ file ∈ landings host world.tree (root ++ [uuid.1]) 0 files, root <+: file.1 := by
    rw [hWorld]
    simp only [List.forall_mem_append, List.forall_mem_map, Confined]
  rw [← hWritten, fillDirectory]
  cases writeFiles host (root ++ [uuid.1]) 0 files world with
  | mk failure written =>
      cases failure with
      | some failure => exact cleanUp_confined_iff failure written
      | none =>
          cases hRows : insertRows host request uuid trust written.db with
          | error failure => simpa [hRows] using cleanUp_confined_iff failure written
          | ok rows => simp [hRows]

theorem storeFormat_confined_iff :
    (∀ effect ∈ (storeFormat host request files trust uuid world).2.effects,
      Confined (reportDir host request.global) effect) ↔
    (∀ effect ∈ world.effects, Confined (reportDir host request.global) effect) ∧
      StoredInside host request files uuid world := by
  rw [storeFormat, StoredInside]
  generalize reportDir host request.global = root
  by_cases hClears : Clears host world.tree (root ++ [uuid.1])
  case neg =>
    simp only [openDirectory_uncleared request.global hClears, refuse, hClears, false_imp_iff,
      and_true, List.mem_append, List.mem_singleton, or_imp, forall_and, forall_eq, Confined,
      List.prefix_append]
  case pos =>
    obtain ⟨hWorld, hOpens⟩ := openDirectory_cleared request.global hClears
    have hOpened := opening_confined_iff host root uuid.1 world
    rw [imp_iff_right hClears, ← and_assoc, ← hOpened]
    cases hOpen : openDirectory host request.global (root ++ [uuid.1]) world with
    | mk done world' =>
        rw [hOpen] at hWorld hOpens
        obtain rfl : world' = _ := hWorld
        cases done with
        | false =>
            refine (and_iff_left fun hReaches hReadable => ?_).symm
            exact absurd (hOpens.mpr ⟨hReaches, hReadable⟩) Bool.false_ne_true
        | true =>
            obtain ⟨hReaches, hReadable⟩ := hOpens.mp rfl
            rw [imp_iff_right hReaches, imp_iff_right hReadable, ← landings_confined_iff]
            exact fillDirectory_confined_iff host request files trust uuid _ root

end Formats

theorem storedUuid_confined {host : Host} {uuid new : Uuid} {world after : World} {root : Place}
    (h : storedUuid host uuid world = some (new, after))
    (hWorld : ∀ effect ∈ world.effects, Confined root effect) :
    ∀ effect ∈ after.effects, Confined root effect := by
  rw [storedUuid] at h
  split at h
  · obtain ⟨made, -, h⟩ := Option.bind_eq_some_iff.mp h
    obtain ⟨target, -, h⟩ := Option.bind_eq_some_iff.mp h
    obtain ⟨linked, hLink, h⟩ := Option.bind_eq_some_iff.mp h
    obtain ⟨-, rfl⟩ := Prod.mk.inj (Option.some_inj.mp h)
    rw [symlink] at hLink
    split at hLink
    · rw [← Option.some_inj.mp hLink]
      simpa only [List.forall_mem_append, List.forall_mem_singleton, Confined, and_true] using hWorld
    · cases hLink
  · obtain ⟨-, rfl⟩ := Prod.mk.inj (Option.some_inj.mp h)
    exact hWorld

/-- A request is served inside the tree exactly when no directory above the tree has to be made and
the names of the files lead into it, up to the first one that is not written. -/
theorem createReportFormat_confined_iff (host : Host) (request : Request) (db : Rows) (tree : Tree) :
    (∀ effect ∈ (createReportFormat host request (World.start db tree)).2.effects,
      Confined (reportDir host request.global) effect) ↔
    ∀ files trust uuid world, checkSignature host request = .ok (files, trust) →
      host.userMay = true →
      storedUuid host request.uuid (World.start db tree).begun = some (uuid, world) →
      StoredInside host request files uuid world := by
  have hStart : ∀ effect ∈ (World.start db tree).begun.effects,
      Confined (reportDir host request.global) effect := fun effect h => absurd h List.not_mem_nil
  rw [createReportFormat]
  cases hCheck : checkSignature host request with
  | error failure =>
      refine iff_of_true hStart fun files trust uuid world h => ?_
      cases h
  | ok checked =>
      obtain ⟨files, trust⟩ := checked
      cases hMay : host.userMay with
      | false => exact iff_of_true hStart fun files trust uuid world _ h => absurd h Bool.false_ne_true
      | true =>
          cases hStored : storedUuid host request.uuid (World.start db tree).begun with
          | none =>
              refine iff_of_true hStart fun files trust uuid world _ _ h => ?_
              cases h
          | some stored =>
              obtain ⟨uuid, world⟩ := stored
              have hBefore := storedUuid_confined hStored hStart
              refine (storeFormat_confined_iff host request files trust uuid world).trans ?_
              rw [and_iff_right hBefore]
              constructor
              · intro h files' trust' uuid' world' hFiles _ hSame
                obtain ⟨rfl, rfl⟩ := Prod.mk.inj (Except.ok.inj hFiles)
                obtain ⟨rfl, rfl⟩ := Prod.mk.inj (Option.some_inj.mp hSame)
                exact h
              · exact fun h => h files trust uuid world rfl rfl rfl

/-- A format with one file, of this name. -/
def oneFile (name : CString) : Request where
  uuid := givenUuid
  contentType := none
  extension := none
  global := false
  files := [⟨name, []⟩]
  params := []
  signature := none

/-- A file name leads out of the tree of the user. -/
theorem createReportFormat_writes_outside :
    ¬ ∀ effect ∈ (createReportFormat manager (oneFile (lit "../../../x"))
        (World.start noRows installed)).2.effects, Confined (reportDir manager false) effect := by
  decide +kernel

end ReportFormats.OnDisk
