import OpenVAS.ReportFormats.Stages

/-! What a failed `create_report_format` leaves behind. The tables go back with the transaction;
each exit undoes what it likes of the rest. -/
namespace ReportFormats.OnDisk

open CString Files

/-- The directories of report formats, and the links to signatures. -/
def Watched (host : Host) (p : Place) : Prop :=
  reportFormats host.stateDir <+: p ∨ globalReportFormats host.dataDir <+: p ∨
    privateSignatures host.stateDir <+: p

instance (host : Host) (p : Place) : Decidable (Watched host p) :=
  inferInstanceAs (Decidable (_ ∨ _))

/-- Nothing has changed, and no transaction is open. -/
structure Unchanged (host : Host) (before after : World) : Prop where
  db : after.db = before.db
  transaction : after.transaction = none
  tree : ∀ p, Watched host p → after.tree p = before.tree p

/-- A request that fails changes nothing. -/
def AllOrNothing (host : Host) (request : Request) (db : Rows) (tree : Tree) : Prop :=
  (createReportFormat host request (World.start db tree)).1 ≠ none →
    Unchanged host (World.start db tree) (createReportFormat host request (World.start db tree)).2

/-- The part from the old directory on does not fail. -/
structure Succeeds (host : Host) (request : Request) (files : List File) (trust : Trust)
    (uuid : Uuid) (db : Rows) (tree : Tree) (dir : Place) : Prop where
  clears : Clears host tree dir
  reaches : Reaches host tree dir
  readable : Readable host request.global
  files : AllPass host (opened host tree dir) dir 0 files
  rows : ∃ rows, insertRows host request uuid trust db = .ok rows

/-- No watched directory above the new one is made. -/
def NothingWatchedMade (host : Host) (tree : Tree) (dir : Place) : Prop :=
  ∀ p, Watched host p → p <+: dir → p ≠ dir → p ≠ [] → tree p = none →
    ∃ q, q <+: p ∧ q ≠ [] ∧ ¬ Passable host.mkdirRefuses tree q

/-- The content that each place gets last. -/
def content (host : Host) (tree : Tree) (dir : Place) (files : List File) (p : Place) :
    Option (List UInt8) :=
  lastWritten (landings host (opened host tree dir) dir 0 files) p

/-- What there was is there again after a failure, by the point of the failure. -/
structure Restores (host : Host) (global : Bool) (files : List File) (tree : Tree) (dir : Place) :
    Prop where
  /-- Of the old directory nothing was removed. -/
  removing : ¬ Clears host tree dir → ∀ p, dir <+: p → tree p ≠ none → Stays host.left dir p
  /-- There was no old directory. -/
  making : Clears host tree dir → ¬ Reaches host tree dir →
    tree dir = none ∧ NothingWatchedMade host tree dir
  /-- There was an empty old directory. -/
  opening : Clears host tree dir → Reaches host tree dir → ¬ Readable host global →
    tree dir = some .directory ∧ (∀ p, dir <+: p → p ≠ dir → tree p = none) ∧
      NothingWatchedMade host tree dir
  /-- There was nothing, or what the clean-up leaves; files elsewhere had their contents. -/
  filling : Clears host tree dir → Reaches host tree dir → Readable host global →
    (host.leftBehind = [] → ∀ p, dir <+: p → tree p = none) ∧
    (host.leftBehind ≠ [] → tree dir = some .directory ∧ ∀ p, dir <+: p → p ≠ dir →
      tree p = if Stays host.leftBehind dir p then (content host tree dir files p).map .file
        else none) ∧
    NothingWatchedMade host tree dir ∧
    ∀ p, Watched host p → ¬ dir <+: p → ∀ bytes, content host tree dir files p = some bytes →
      tree p = some (.file bytes)

/-! The ends. -/

/-- A failure, with the tables as they were and without a transaction. -/
structure Fails (result : Option Failure × World) (db : Rows) (tree : Tree) : Prop where
  failure : result.1 ≠ none
  db : result.2.db = db
  transaction : result.2.transaction = none
  tree : result.2.tree = tree

theorem fails_refuse (failure : Failure) (world : World) :
    Fails (refuse failure world) world.db world.tree :=
  ⟨Option.some_ne_none failure, rfl, rfl, rfl⟩

section Ends

variable {host : Host} {request : Request} {files : List File} {trust : Trust} {uuid : Uuid}
  {world : World} {dir p : Place} {tree : Tree}

theorem fails_cleanUp (failure : Failure) (h : (world.tree dir).isSome) :
    Fails (cleanUp host dir failure world) world.db
      (removeRecurse host.leftBehind dir world.tree) := by
  obtain ⟨entry, hEntry⟩ := Option.isSome_iff_exists.mp h
  rw [cleanUp, openvasFileRemoveRecurse, hEntry]
  exact fails_refuse failure _

theorem mem_of_lastWritten {written : List (Place × List UInt8)} {bytes : List UInt8}
    (h : lastWritten written p = some bytes) : (p, bytes) ∈ written := by
  obtain ⟨⟨place, content⟩, hFound, rfl⟩ := Option.map_eq_some_iff.mp h
  have hPlace := List.find?_some hFound
  obtain rfl : place = p := of_decide_eq_true hPlace
  exact List.mem_reverse.mp (List.mem_of_find?_eq_some hFound)

/-- No file is written in the place of a directory. -/
theorem not_directory_of_written {number : Nat} {bytes : List UInt8}
    (h : lastWritten (landings host tree dir number files) p = some bytes) :
    tree p ≠ some .directory := by
  obtain ⟨before, file, after, -, -, -, hLanding, -⟩ := mem_landings_iff.mp (mem_of_lastWritten h)
  exact (landing_eq_some hLanding).2

theorem put_directory {number : Nat} (h : tree p = some .directory) :
    put tree (landings host tree dir number files) p = some .directory := by
  rw [put_apply]
  cases hLast : lastWritten (landings host tree dir number files) p with
  | none => exact h
  | some bytes => exact absurd h (not_directory_of_written hLast)

theorem fails_fillDirectory (hDir : world.tree dir = some .directory)
    (h : ¬ (AllPass host world.tree dir 0 files ∧
      ∃ rows, insertRows host request uuid trust world.db = .ok rows)) :
    Fails (fillDirectory host request files trust uuid dir world) world.db
      (removeRecurse host.leftBehind dir
        (put world.tree (landings host world.tree dir 0 files))) := by
  obtain ⟨hWorld, hPass⟩ := @writeFiles_spec host dir 0 files world
  rw [fillDirectory]
  cases hWrite : writeFiles host dir 0 files world with
  | mk failure written =>
      rw [hWrite] at hWorld hPass
      obtain rfl : written = _ := hWorld
      have hSome : (put world.tree (landings host world.tree dir 0 files) dir).isSome := by
        rw [put_directory hDir]
        rfl
      cases failure with
      | some failure => exact fails_cleanUp failure hSome
      | none =>
          cases hRows : insertRows host request uuid trust world.db with
          | ok rows => exact absurd ⟨hPass.mp rfl, rows, hRows⟩ h
          | error failure =>
              simp only [hRows]
              exact fails_cleanUp failure hSome

theorem mem_made_self (hClears : Clears host tree dir) (hReaches : Reaches host tree dir)
    (hNe : dir ≠ []) : dir ∈ made host tree dir :=
  mem_made.mpr ⟨cleared_self hClears, List.prefix_refl dir, hNe, hReaches⟩

theorem opened_self (hClears : Clears host tree dir) (hReaches : Reaches host tree dir)
    (hNe : dir ≠ []) : opened host tree dir dir = some .directory := by
  rw [opened_apply, if_pos (mem_made_self hClears hReaches hNe)]

theorem fails_uncleared
    (h : ¬ Clears host world.tree (reportDir host request.global ++ [uuid.1])) :
    Fails (storeFormat host request files trust uuid world) world.db
      (removeRecurse host.left (reportDir host request.global ++ [uuid.1]) world.tree) := by
  rw [storeFormat]
  simp only [openDirectory_uncleared request.global h]
  exact fails_refuse .error _

theorem fails_unopened (hClears : Clears host world.tree (reportDir host request.global ++ [uuid.1]))
    (h : ¬ (Reaches host world.tree (reportDir host request.global ++ [uuid.1]) ∧
      Readable host request.global)) :
    Fails (storeFormat host request files trust uuid world) world.db
      (opened host world.tree (reportDir host request.global ++ [uuid.1])) := by
  obtain ⟨hWorld, hOpens⟩ := openDirectory_cleared request.global hClears
  rw [storeFormat]
  cases hOpen : openDirectory host request.global (reportDir host request.global ++ [uuid.1]) world with
  | mk done opened =>
      rw [hOpen] at hWorld hOpens
      obtain rfl : opened = _ := hWorld
      cases done with
      | true => exact absurd (hOpens.mp rfl) h
      | false => exact fails_refuse .error _

/-- With the new directory the rest of the command follows. -/
theorem storeFormat_opened (hClears : Clears host world.tree (reportDir host request.global ++ [uuid.1]))
    (hReaches : Reaches host world.tree (reportDir host request.global ++ [uuid.1]))
    (hReadable : Readable host request.global) :
    ∃ effects, storeFormat host request files trust uuid world =
      fillDirectory host request files trust uuid (reportDir host request.global ++ [uuid.1])
        { world with
          tree := opened host world.tree (reportDir host request.global ++ [uuid.1]),
          effects := effects } := by
  obtain ⟨hWorld, hOpens⟩ := openDirectory_cleared request.global hClears
  rw [storeFormat]
  cases hOpen : openDirectory host request.global (reportDir host request.global ++ [uuid.1]) world with
  | mk done opened =>
      rw [hOpen] at hWorld hOpens
      obtain rfl : opened = _ := hWorld
      obtain rfl : done = true := hOpens.mpr ⟨hReaches, hReadable⟩
      exact ⟨_, rfl⟩

theorem fails_unfilled (hClears : Clears host world.tree (reportDir host request.global ++ [uuid.1]))
    (hReaches : Reaches host world.tree (reportDir host request.global ++ [uuid.1]))
    (hReadable : Readable host request.global)
    (h : ¬ Succeeds host request files trust uuid world.db world.tree
      (reportDir host request.global ++ [uuid.1])) :
    Fails (storeFormat host request files trust uuid world) world.db
      (removeRecurse host.leftBehind (reportDir host request.global ++ [uuid.1])
        (put (opened host world.tree (reportDir host request.global ++ [uuid.1]))
          (landings host (opened host world.tree (reportDir host request.global ++ [uuid.1]))
            (reportDir host request.global ++ [uuid.1]) 0 files))) := by
  obtain ⟨effects, hRest⟩ := @storeFormat_opened host request files trust uuid world hClears hReaches
    hReadable
  rw [hRest]
  refine fails_fillDirectory (opened_self hClears hReaches (List.append_ne_nil_of_right_ne_nil _
    (List.cons_ne_nil _ _))) fun hPass => h ?_
  exact ⟨hClears, hReaches, hReadable, hPass.1, hPass.2⟩

/-- The rows and the files of a format that is stored. -/
theorem storeFormat_stored (h : Succeeds host request files trust uuid world.db world.tree
    (reportDir host request.global ++ [uuid.1])) :
    ∃ rows effects, insertRows host request uuid trust world.db = .ok rows ∧
      storeFormat host request files trust uuid world = (none, {
        db := rows,
        transaction := none,
        tree := put (opened host world.tree (reportDir host request.global ++ [uuid.1]))
          (landings host (opened host world.tree (reportDir host request.global ++ [uuid.1]))
            (reportDir host request.global ++ [uuid.1]) 0 files),
        effects := effects }) := by
  obtain ⟨effects, hRest⟩ := @storeFormat_opened host request files trust uuid world h.clears h.reaches
    h.readable
  obtain ⟨rows, hRows⟩ := h.rows
  rw [hRest, fillDirectory]
  obtain ⟨hWorld, hPass⟩ := @writeFiles_spec host (reportDir host request.global ++ [uuid.1]) 0 files
    { world with
      tree := opened host world.tree (reportDir host request.global ++ [uuid.1]),
      effects := effects }
  cases hWrite : writeFiles host (reportDir host request.global ++ [uuid.1]) 0 files { world with
      tree := opened host world.tree (reportDir host request.global ++ [uuid.1]),
      effects := effects } with
  | mk failure written =>
      rw [hWrite] at hWorld hPass
      obtain rfl : written = _ := hWorld
      obtain rfl : failure = none := hPass.mpr h.files
      simp only [hRows]
      exact ⟨rows, _, rfl, rfl⟩

theorem storeFormat_succeeds (h : Succeeds host request files trust uuid world.db world.tree
    (reportDir host request.global ++ [uuid.1])) :
    (storeFormat host request files trust uuid world).1 = none := by
  obtain ⟨rows, effects, -, hEnd⟩ := storeFormat_stored h
  rw [hEnd]

end Ends

/-! What is left at each end. -/

section Restored

variable {host : Host} {files : List File} {dir p : Place} {tree : Tree}

theorem eq_of_prefix_both (h : p <+: dir) (h' : dir <+: p) : p = dir :=
  h.eq_of_length_le h'.length_le

theorem opened_of_not_below (h : ¬ dir <+: p) :
    opened host tree dir p = tree p ↔ p ∉ made host tree dir := by
  rw [opened_apply, cleared_of_not_below h]
  split
  · rename_i hMade
    have hMissing := (mem_made.mp hMade).1
    rw [cleared_of_not_below h] at hMissing
    simp [hMade, hMissing]
  · rename_i hMade
    exact iff_of_true rfl hMade

theorem opened_of_below (h : dir <+: p) (hNe : p ≠ dir) :
    opened host tree dir p = cleared host tree dir p := by
  rw [opened_apply, if_neg fun hMade => hNe (eq_of_prefix_both (mem_made.mp hMade).2.1 h)]

theorem nothingWatchedMade_iff : (∀ p, Watched host p → ¬ dir <+: p → p ∉ made host tree dir) ↔
    NothingWatchedMade host tree dir := by
  have hSame : ∀ p q, p <+: dir → p ≠ dir → q <+: p → cleared host tree dir q = tree q := by
    intro p q hp hNe hq
    exact cleared_of_not_below fun h => hNe (eq_of_prefix_both hp (h.trans hq))
  constructor
  · intro h p hWatched hp hNe hNotTop hMissing
    by_contra hAll
    push Not at hAll
    refine h p hWatched (fun hBelow => hNe (eq_of_prefix_both hp hBelow)) (mem_made.mpr ?_)
    refine ⟨(hSame p p hp hNe (List.prefix_refl p)).trans hMissing, hp, hNotTop, fun q hq hqNe => ?_⟩
    rw [Passable, hSame p q hp hNe hq]
    exact hAll q hq hqNe
  · intro h p hWatched hBelow hMade
    obtain ⟨hMissing, hp, hNotTop, hAll⟩ := mem_made.mp hMade
    have hNe : p ≠ dir := fun hDir => hBelow (hDir ▸ List.prefix_refl p)
    rw [hSame p p hp hNe (List.prefix_refl p)] at hMissing
    obtain ⟨q, hq, hqNe, hBlocked⟩ := h p hWatched hp hNe hNotTop hMissing
    have hPassable := hAll q hq hqNe
    rw [Passable, hSame p q hp hNe hq] at hPassable
    exact hBlocked hPassable

theorem opened_watched_iff : (∀ p, Watched host p → ¬ dir <+: p → opened host tree dir p = tree p) ↔
    NothingWatchedMade host tree dir := by
  rw [← nothingWatchedMade_iff]
  refine forall_congr' fun p => imp_congr_right fun _ => forall_congr' fun hBelow => ?_
  exact opened_of_not_below hBelow

theorem cleared_of_directory (hClears : Clears host tree dir) (hOld : tree dir = some .directory)
    (hp : dir <+: p) : cleared host tree dir p = none := by
  have hLeft : host.left = [] := hClears.resolve_left (by simp [hOld])
  rw [cleared, hOld, hLeft]
  exact removeRecurse_nil_of_below hp

/-- Elsewhere nothing is removed. -/
theorem put_of_not_below (h : ¬ dir <+: p) :
    put (opened host tree dir) (landings host (opened host tree dir) dir 0 files) p = tree p ↔
      p ∉ made host tree dir ∧
        ∀ bytes, content host tree dir files p = some bytes → tree p = some (.file bytes) := by
  rw [put_apply, content]
  cases hLast : lastWritten (landings host (opened host tree dir) dir 0 files) p with
  | none => simp [opened_of_not_below h]
  | some bytes =>
      have hUnmade : p ∉ made host tree dir := by
        intro hMade
        refine not_directory_of_written hLast ?_
        rw [opened_apply, if_pos hMade]
      simp [hUnmade, eq_comm]

theorem put_of_below (hClears : Clears host tree dir) (hOld : tree dir = some .directory)
    (hp : dir <+: p) (hNe : p ≠ dir) :
    put (opened host tree dir) (landings host (opened host tree dir) dir 0 files) p =
      (content host tree dir files p).map .file := by
  rw [put_apply, content]
  cases hLast : lastWritten (landings host (opened host tree dir) dir 0 files) p with
  | none =>
      rw [opened_of_below hp hNe]
      exact cleared_of_directory hClears hOld hp
  | some bytes => rfl

theorem elsewhere_iff : (∀ p, Watched host p → ¬ dir <+: p →
      put (opened host tree dir) (landings host (opened host tree dir) dir 0 files) p = tree p) ↔
    NothingWatchedMade host tree dir ∧
      ∀ p, Watched host p → ¬ dir <+: p → ∀ bytes, content host tree dir files p = some bytes →
        tree p = some (.file bytes) := by
  rw [← nothingWatchedMade_iff, ← forall_and]
  refine forall_congr' fun p => ?_
  rw [← imp_and]
  refine imp_congr_right fun _ => ?_
  rw [← imp_and]
  exact imp_congr_right fun hBelow => put_of_not_below hBelow

variable (hWatched : ∀ p, dir <+: p → Watched host p)

include hWatched

/-- The watched places are the ones below the directory, and others. -/
theorem forall_watched_iff {P : Place → Prop} : (∀ p, Watched host p → P p) ↔
    (∀ p, dir <+: p → P p) ∧ ∀ p, Watched host p → ¬ dir <+: p → P p := by
  constructor
  · exact fun h => ⟨fun p hp => h p (hWatched p hp), fun p hp _ => h p hp⟩
  · rintro ⟨hBelow, hOther⟩ p hp
    by_cases hDir : dir <+: p
    · exact hBelow p hDir
    · exact hOther p hp hDir

theorem uncleared_iff : (∀ p, Watched host p → removeRecurse host.left dir tree p = tree p) ↔
    ∀ p, dir <+: p → tree p ≠ none → Stays host.left dir p := by
  rw [forall_watched_iff hWatched, and_iff_left fun p _ h => removeRecurse_of_not_below host.left h]
  refine forall_congr' fun p => imp_congr_right fun hp => ?_
  rw [removeRecurse_of_below hp]
  split
  · rename_i hStays
    exact iff_of_true rfl fun _ => hStays
  · rename_i hGone
    exact ⟨fun h hSome => absurd h.symm hSome, fun h => by_contra fun hNone => hGone (h (Ne.symm hNone))⟩

theorem unreached_iff (hClears : Clears host tree dir) (h : ¬ Reaches host tree dir) :
    (∀ p, Watched host p → opened host tree dir p = tree p) ↔
      tree dir = none ∧ NothingWatchedMade host tree dir := by
  have hUnmade : dir ∉ made host tree dir := fun hMade => h (mem_made.mp hMade).2.2.2
  have hSelf : opened host tree dir dir = none := by
    rw [opened_apply, if_neg hUnmade, cleared_self hClears]
  rw [forall_watched_iff hWatched, opened_watched_iff]
  refine and_congr_left fun _ => ⟨fun hBelow => ?_, fun hNone p hp => ?_⟩
  · rw [← hBelow dir (List.prefix_refl dir), hSelf]
  · rcases eq_or_ne p dir with rfl | hNe
    · rw [hSelf, hNone]
    · rw [opened_of_below hp hNe, cleared, hNone]
      rfl

theorem unreadable_iff (hClears : Clears host tree dir) (hReaches : Reaches host tree dir)
    (hDir : dir ≠ []) :
    (∀ p, Watched host p → opened host tree dir p = tree p) ↔
      tree dir = some .directory ∧ (∀ p, dir <+: p → p ≠ dir → tree p = none) ∧
        NothingWatchedMade host tree dir := by
  have hSelf := opened_self hClears hReaches hDir
  rw [forall_watched_iff hWatched, opened_watched_iff, ← and_assoc]
  refine and_congr_left fun _ => ⟨fun hBelow => ?_, fun ⟨hOld, hEmpty⟩ p hp => ?_⟩
  · have hOld : tree dir = some .directory := by rw [← hBelow dir (List.prefix_refl dir), hSelf]
    refine ⟨hOld, fun p hp hNe => ?_⟩
    rw [← hBelow p hp, opened_of_below hp hNe, cleared_of_directory hClears hOld hp]
  · rcases eq_or_ne p dir with rfl | hNe
    · rw [hSelf, hOld]
    · rw [opened_of_below hp hNe, cleared_of_directory hClears hOld hp, hEmpty p hp hNe]

/-- The files in the end, of which some may stay. -/
theorem unfilled_iff (hClears : Clears host tree dir) (hReaches : Reaches host tree dir)
    (hDir : dir ≠ []) :
    (∀ p, Watched host p → removeRecurse host.leftBehind dir (put (opened host tree dir)
      (landings host (opened host tree dir) dir 0 files)) p = tree p) ↔
    (host.leftBehind = [] → ∀ p, dir <+: p → tree p = none) ∧
    (host.leftBehind ≠ [] → tree dir = some .directory ∧ ∀ p, dir <+: p → p ≠ dir →
      tree p = if Stays host.leftBehind dir p then (content host tree dir files p).map .file
        else none) ∧
    NothingWatchedMade host tree dir ∧
    ∀ p, Watched host p → ¬ dir <+: p → ∀ bytes, content host tree dir files p = some bytes →
      tree p = some (.file bytes) := by
  rw [forall_watched_iff hWatched, ← elsewhere_iff, ← and_assoc]
  have hElsewhere : (∀ p, Watched host p → ¬ dir <+: p → removeRecurse host.leftBehind dir
        (put (opened host tree dir) (landings host (opened host tree dir) dir 0 files)) p = tree p) ↔
      ∀ p, Watched host p → ¬ dir <+: p →
        put (opened host tree dir) (landings host (opened host tree dir) dir 0 files) p = tree p := by
    refine forall_congr' fun p => imp_congr_right fun _ => forall_congr' fun hBelow => ?_
    rw [removeRecurse_of_not_below host.leftBehind hBelow]
  rw [hElsewhere]
  refine and_congr_left fun _ => ?_
  by_cases hLeft : host.leftBehind = []
  case pos =>
    rw [hLeft]
    simp only [true_imp_iff, ne_eq, not_true_eq_false, false_imp_iff, and_true]
    refine forall_congr' fun p => imp_congr_right fun hp => ?_
    rw [removeRecurse_nil_of_below hp, eq_comm]
  case neg =>
    simp only [hLeft, false_imp_iff, true_and, ne_eq, not_false_eq_true, true_imp_iff]
    have hSelf : removeRecurse host.leftBehind dir (put (opened host tree dir)
        (landings host (opened host tree dir) dir 0 files)) dir = some .directory := by
      rw [removeRecurse_of_below (List.prefix_refl dir), if_pos (stays_self hLeft)]
      exact put_directory (opened_self hClears hReaches hDir)
    constructor
    · intro hBelow
      have hOld : tree dir = some .directory := by rw [← hBelow dir (List.prefix_refl dir), hSelf]
      refine ⟨hOld, fun p hp hNe => ?_⟩
      rw [← hBelow p hp, removeRecurse_of_below hp, put_of_below hClears hOld hp hNe]
    · rintro ⟨hOld, hRest⟩ p hp
      rcases eq_or_ne p dir with rfl | hNe
      · rw [hSelf, hOld]
      · rw [removeRecurse_of_below hp, put_of_below hClears hOld hp hNe, hRest p hp hNe]

end Restored

/-! The command. -/

section Command

variable {host : Host} {request : Request} {files : List File} {trust : Trust} {uuid : Uuid}

theorem Fails.unchanged_iff {result : Option Failure × World} {before : World} {tree : Tree}
    (h : Fails result before.db tree) :
    Unchanged host before result.2 ↔ ∀ p, Watched host p → tree p = before.tree p := by
  constructor
  · intro hUnchanged p hp
    rw [← hUnchanged.tree p hp, h.tree]
  · intro hTree
    refine ⟨h.db, h.transaction, fun p hp => ?_⟩
    rw [h.tree, hTree p hp]

theorem watched_of_below {global : Bool} {name : CString} {p : Place}
    (h : reportDir host global ++ [name] <+: p) : Watched host p := by
  cases global with
  | true => exact .inr (.inl ((List.prefix_append _ _).trans h))
  | false => exact .inl (((List.prefix_append _ _).trans (List.prefix_append _ _)).trans h)

/-- What the failure leaves is what was there under the conditions of its exit. -/
theorem storeFormat_restores_iff {before : World}
    (h : ¬ Succeeds host request files trust uuid before.db before.tree
      (reportDir host request.global ++ [uuid.1])) {world : World} (hDb : world.db = before.db)
    (hTree : world.tree = before.tree) :
    Unchanged host before (storeFormat host request files trust uuid world).2 ↔
      Restores host request.global files before.tree (reportDir host request.global ++ [uuid.1]) := by
  have hBelow : ∀ p, reportDir host request.global ++ [uuid.1] <+: p → Watched host p :=
    fun p hp => watched_of_below hp
  have hNe : reportDir host request.global ++ [uuid.1] ≠ [] :=
    List.append_ne_nil_of_right_ne_nil _ (List.cons_ne_nil _ _)
  rw [← hDb, ← hTree] at h
  by_cases hClears : Clears host world.tree (reportDir host request.global ++ [uuid.1])
  case neg =>
    have hFails := @fails_uncleared host request files trust uuid world hClears
    rw [hDb, hTree] at hFails
    rw [hFails.unchanged_iff, uncleared_iff hBelow]
    rw [hTree] at hClears
    exact ⟨fun hAll => ⟨fun _ => hAll, fun hC => absurd hC hClears, fun hC => absurd hC hClears,
      fun hC => absurd hC hClears⟩, fun hRestores => hRestores.removing hClears⟩
  by_cases hReaches : Reaches host world.tree (reportDir host request.global ++ [uuid.1])
  case neg =>
    have hFails := @fails_unopened host request files trust uuid world hClears
      fun hBoth => hReaches hBoth.1
    rw [hTree] at hClears hReaches
    rw [hDb, hTree] at hFails
    rw [hFails.unchanged_iff, unreached_iff hBelow hClears hReaches]
    exact ⟨fun hAll => ⟨fun hC => absurd hClears hC, fun _ _ => hAll, fun _ hR => absurd hR hReaches,
      fun _ hR => absurd hR hReaches⟩, fun hRestores => hRestores.making hClears hReaches⟩
  by_cases hReadable : Readable host request.global
  case neg =>
    have hFails := @fails_unopened host request files trust uuid world hClears
      fun hBoth => hReadable hBoth.2
    rw [hTree] at hClears hReaches
    rw [hDb, hTree] at hFails
    rw [hFails.unchanged_iff, unreadable_iff hBelow hClears hReaches hNe]
    exact ⟨fun hAll => ⟨fun hC => absurd hClears hC, fun _ hR => absurd hReaches hR,
      fun _ _ _ => hAll, fun _ _ hR => absurd hR hReadable⟩,
      fun hRestores => hRestores.opening hClears hReaches hReadable⟩
  case pos =>
    have hFails := fails_unfilled hClears hReaches hReadable h
    rw [hTree] at hClears hReaches
    rw [hDb, hTree] at hFails
    rw [hFails.unchanged_iff, unfilled_iff hBelow hClears hReaches hNe]
    exact ⟨fun hAll => ⟨fun hC => absurd hClears hC, fun _ hR => absurd hReaches hR,
      fun _ _ hR => absurd hReadable hR, fun _ _ _ => hAll⟩,
      fun hRestores => hRestores.filling hClears hReaches hReadable⟩

theorem storeFormat_fails {world : World}
    (h : ¬ Succeeds host request files trust uuid world.db world.tree
      (reportDir host request.global ++ [uuid.1])) :
    (storeFormat host request files trust uuid world).1 ≠ none := by
  by_cases hClears : Clears host world.tree (reportDir host request.global ++ [uuid.1])
  case neg => exact (fails_uncleared hClears).failure
  by_cases hOpens : Reaches host world.tree (reportDir host request.global ++ [uuid.1]) ∧
      Readable host request.global
  case neg => exact (fails_unopened hClears hOpens).failure
  case pos => exact (fails_unfilled hClears hOpens.1 hOpens.2 h).failure

/-- No place elsewhere becomes empty. -/
theorem storeFormat_keeps {world : World} {p : Place}
    (h : ¬ Succeeds host request files trust uuid world.db world.tree
      (reportDir host request.global ++ [uuid.1]))
    (hBelow : ¬ reportDir host request.global ++ [uuid.1] <+: p) (hSome : world.tree p ≠ none) :
    (storeFormat host request files trust uuid world).2.tree p ≠ none := by
  have hOpened : opened host world.tree (reportDir host request.global ++ [uuid.1]) p ≠ none := by
    rw [opened_apply, cleared_of_not_below hBelow]
    split
    · exact Option.some_ne_none _
    · exact hSome
  by_cases hClears : Clears host world.tree (reportDir host request.global ++ [uuid.1])
  case neg =>
    rw [(@fails_uncleared host request files trust uuid world hClears).tree,
      removeRecurse_of_not_below host.left hBelow]
    exact hSome
  by_cases hOpens : Reaches host world.tree (reportDir host request.global ++ [uuid.1]) ∧
      Readable host request.global
  case neg =>
    rw [(@fails_unopened host request files trust uuid world hClears hOpens).tree]
    exact hOpened
  case pos =>
    rw [(fails_unfilled hClears hOpens.1 hOpens.2 h).tree,
      removeRecurse_of_not_below host.leftBehind hBelow, put_apply]
    split
    · exact Option.some_ne_none _
    · exact hOpened

/-- The links are not in the directories of report formats. -/
theorem not_below_link (host : Host) (global : Bool) (name : CString) (new : Uuid) :
    ¬ reportDir host global ++ [name] <+: linkPlace host new := by
  intro h
  have hTree : reportDir host global <+: privateSignatures host.stateDir := by
    rcases List.prefix_concat_iff.mp h with hSame | hAbove
    · rw [(List.append_inj' hSame rfl).1]
    · exact (List.prefix_append _ _).trans hAbove
  cases global with
  | true => exact host.apart hTree
  | false =>
      have hNames : [lit "openvasmd", lit "report_formats", host.user.1] <+:
          [lit "plugins", lit "private", lit "report_formats"] := by
        rw [← List.prefix_append_right_inj host.stateDir]
        simpa [reportDir, reportFormats, privateSignatures] using hTree
      have hFirst := (List.cons_prefix_cons.mp hNames).1
      exact absurd hFirst (by decide)

theorem storedUuid_linked {world after : World} {new : Uuid}
    (h : storedUuid host request.uuid world = some (new, after))
    (hUsed : used world.db.tables request.uuid.1 = true) :
    after.db = world.db ∧ world.tree (linkPlace host new) = none ∧
      after.tree (linkPlace host new) ≠ none := by
  rw [storedUuid, if_pos hUsed] at h
  obtain ⟨made, -, h⟩ := Option.bind_eq_some_iff.mp h
  obtain ⟨target, -, h⟩ := Option.bind_eq_some_iff.mp h
  obtain ⟨linked, hLink, h⟩ := Option.bind_eq_some_iff.mp h
  obtain ⟨rfl, rfl⟩ := Prod.mk.inj (Option.some_inj.mp h)
  rw [symlink] at hLink
  split at hLink
  · rename_i hPossible
    rw [← Option.some_inj.mp hLink]
    exact ⟨rfl, hPossible.2.2, by simp⟩
  · cases hLink

theorem stored_allOrNothing_iff {db : Rows} {tree : Tree} {world : World}
    (h : storedUuid host request.uuid (World.start db tree).begun = some (uuid, world)) :
    ((storeFormat host request files trust uuid world).1 ≠ none →
      Unchanged host (World.start db tree) (storeFormat host request files trust uuid world).2) ↔
    Succeeds host request files trust uuid db world.tree
        (reportDir host request.global ++ [uuid.1]) ∨
      (used db.tables request.uuid.1 = false ∧
        Restores host request.global files tree (reportDir host request.global ++ [uuid.1])) := by
  cases hUsed : used db.tables request.uuid.1 with
  | true =>
      obtain ⟨hDb, hMissing, hLink⟩ := storedUuid_linked h hUsed
      obtain rfl : world.db = db := hDb
      by_cases hSucceeds : Succeeds host request files trust uuid world.db world.tree
          (reportDir host request.global ++ [uuid.1])
      · exact iff_of_true (fun hFailed => absurd (storeFormat_succeeds hSucceeds) hFailed)
          (.inl hSucceeds)
      · refine iff_of_false (fun hRestored => ?_) (by simp [hSucceeds])
        have hStays := storeFormat_keeps hSucceeds
          (not_below_link host request.global uuid.1 uuid) hLink
        have hUnchanged := hRestored (storeFormat_fails hSucceeds)
        have hWatched : Watched host (linkPlace host uuid) := .inr (.inr (List.prefix_append _ _))
        rw [hUnchanged.tree _ hWatched] at hStays
        exact hStays hMissing
  | false =>
      rw [storedUuid, if_neg (by simpa [World.begun, World.start] using hUsed)] at h
      obtain ⟨rfl, rfl⟩ := Prod.mk.inj (Option.some_inj.mp h)
      by_cases hSucceeds : Succeeds host request files trust request.uuid db tree
          (reportDir host request.global ++ [request.uuid.1])
      · exact iff_of_true (fun hFailed => absurd (storeFormat_succeeds hSucceeds) hFailed)
          (.inl hSucceeds)
      · have hRestores := @storeFormat_restores_iff host request files trust request.uuid
          (World.start db tree) hSucceeds (World.start db tree).begun rfl rfl
        rw [imp_iff_right (@storeFormat_fails host request files trust request.uuid
          (World.start db tree).begun hSucceeds), hRestores, and_iff_right rfl]
        exact (or_iff_right hSucceeds).symm

/-- A failed request restores what was there exactly when it is refused before anything is made, or
it made no link and the condition of its exit holds. -/
theorem createReportFormat_allOrNothing_iff (host : Host) (request : Request) (db : Rows)
    (tree : Tree) : AllOrNothing host request db tree ↔
    ∀ files trust uuid world, checkSignature host request = .ok (files, trust) →
      host.userMay = true →
      storedUuid host request.uuid (World.start db tree).begun = some (uuid, world) →
      Succeeds host request files trust uuid db world.tree
          (reportDir host request.global ++ [uuid.1]) ∨
        (used db.tables request.uuid.1 = false ∧
          Restores host request.global files tree (reportDir host request.global ++ [uuid.1])) := by
  rw [AllOrNothing, createReportFormat]
  cases hCheck : checkSignature host request with
  | error failure =>
      refine iff_of_true (fun _ => ⟨rfl, rfl, fun p _ => rfl⟩) fun files trust uuid world h => ?_
      cases h
  | ok checked =>
      obtain ⟨files, trust⟩ := checked
      cases hMay : host.userMay with
      | false =>
          refine iff_of_true (fun _ => ⟨rfl, rfl, fun p _ => rfl⟩) fun _ _ _ _ _ h => ?_
          exact absurd h Bool.false_ne_true
      | true =>
          cases hStored : storedUuid host request.uuid (World.start db tree).begun with
          | none =>
              refine iff_of_true (fun _ => ⟨rfl, rfl, fun p _ => rfl⟩) fun _ _ _ _ _ _ h => ?_
              cases h
          | some stored =>
              obtain ⟨uuid, world⟩ := stored
              refine (@stored_allOrNothing_iff host request files trust uuid db tree world
                hStored).trans ?_
              constructor
              · intro h files' trust' uuid' world' hFiles _ hSame
                obtain ⟨rfl, rfl⟩ := Prod.mk.inj (Except.ok.inj hFiles)
                obtain ⟨rfl, rfl⟩ := Prod.mk.inj (Option.some_inj.mp hSame)
                exact h
              · exact fun h => h files trust uuid world rfl rfl rfl

end Command

/-- A format that is in the database already. -/
def oneFormat : Rows := ⟨[⟨1, lit "3c", none, [], [], [], .unknown⟩], [], [], []⟩

/-- The same format with a param without a type. -/
def untypedParam : Request where
  uuid := givenUuid
  contentType := none
  extension := none
  global := false
  files := []
  params := [⟨lit "rows", none, none, none, some (lit "10"), lit "10", some []⟩]
  signature := none

/-- The link that was made for the new UUID stays. -/
theorem createReportFormat_leaves_link :
    (createReportFormat manager untypedParam (World.start oneFormat installed)).1 = some .noType ∧
      ¬ AllOrNothing manager untypedParam oneFormat installed := by
  have hFailure : (createReportFormat manager untypedParam (World.start oneFormat installed)).1 =
      some .noType := by decide +kernel
  refine ⟨hFailure, fun h => ?_⟩
  have hUnchanged := h (by rw [hFailure]; exact Option.some_ne_none _)
  have hSame := hUnchanged.tree (linkPlace manager ⟨lit "2b", by decide⟩) (by decide)
  revert hSame
  decide +kernel

end ReportFormats.OnDisk
