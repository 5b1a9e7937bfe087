import OpenVAS.Configs.Tracking

/-! The numbers and flags that a config has from its selector, and what becomes of them and of
the selection when the NVT cache is rebuilt with more NVTs. -/
namespace Configs

open CString Choices Transaction

/-! `update_all_config_caches`. -/

/-- What the loop makes of a config: each row with its name counts, one after the other. -/
def recache (db : Database) (rows : List Config) (config : Config) : Config :=
  rows.foldl (fun config row => match row.nvtSelector with
    | none => config
    | some selector => if config.name = row.name then withCache db selector config else config) config

section Recache

variable {db : Database} {rows : List Config} {config row : Config} {selector : CString}

@[simp] theorem withCache_name : (withCache db selector config).name = config.name := rfl

@[simp] theorem withCache_nvtSelector :
    (withCache db selector config).nvtSelector = config.nvtSelector := rfl

theorem update_update (table : Table Config) (f g : Config → Config) :
    (table.update f).update g = table.update fun config => g (f config) := by
  unfold Table.update
  congr 1
  rw [List.map_map]
  rfl

theorem update_id (table : Table Config) : table.update (fun config => config) = table := by
  unfold Table.update
  congr 1
  exact List.map_id _

/-- The update of all caches is one update of the table. -/
theorem updateCaches_eq (h : ∀ row ∈ rows, row.nvtSelector.isSome = true) :
    updateCaches rows db = .ok { db with configs := db.configs.update (recache db rows) } := by
  induction rows generalizing db with
  | nil =>
      have hSame : db.configs.update (recache db []) = db.configs := update_id db.configs
      rw [hSame]
      rfl
  | cons row rows ih =>
      obtain ⟨selector, hSelector⟩ := Option.isSome_iff_exists.mp (h row List.mem_cons_self)
      rw [updateCaches, updateConfigCache, hSelector]
      dsimp only
      rw [ih fun other hOther => h other (List.mem_cons_of_mem _ hOther)]
      dsimp only
      rw [update_update]
      congr 2
      congr 1
      funext config
      unfold recache
      rw [List.foldl_cons, hSelector]
      rfl

/-- The last row with the name of the config counts. -/
theorem recache_eq (h : ∀ row ∈ rows, row.nvtSelector.isSome = true) :
    recache db rows config = (rows.filter (·.name = config.name)).getLast?.elim config
      fun row => withCache db (row.nvtSelector.getD []) config := by
  induction rows using List.reverseRecOn with
  | nil => rfl
  | append_singleton rows row ih =>
      have hEarlier := ih fun other hOther => h other (List.mem_append_left _ hOther)
      obtain ⟨selector, hSelector⟩ := Option.isSome_iff_exists.mp
        (h row (List.mem_append_right _ List.mem_cons_self))
      have hName : (recache db rows config).name = config.name := by
        rw [hEarlier]
        cases (rows.filter (·.name = config.name)).getLast? <;> rfl
      have hLast : recache db (rows ++ [row]) config =
          if config.name = row.name then withCache db selector (recache db rows config)
          else recache db rows config := by
        rw [recache, List.foldl_append, List.foldl_cons, List.foldl_nil, hSelector]
        dsimp only
        change (if (recache db rows config).name = row.name then
          withCache db selector (recache db rows config) else recache db rows config) = _
        rw [hName]
      rw [hLast, List.filter_append]
      by_cases hSame : row.name = config.name
      · have hKept : [row].filter (·.name = config.name) = [row] := by simp [hSame]
        rw [if_pos hSame.symm, hKept, List.getLast?_concat, Option.elim_some, hSelector, hEarlier]
        cases (rows.filter (·.name = config.name)).getLast? <;> rfl
      · have hDropped : [row].filter (·.name = config.name) = [] := by simp [hSame]
        rw [if_neg fun h => hSame h.symm, hDropped, List.append_nil]
        exact hEarlier

/-- What is cached for a selector. -/
def cacheOf (db : Database) (selector : CString) : Int × Int × Bool × Bool :=
  let familiesGrowing := nvtSelectorFamiliesGrowing db selector
  (nvtSelectorFamilyCount db selector familiesGrowing,
    nvtSelectorNvtCountAll db selector familiesGrowing,
    familiesGrowing, nvtSelectorNvtsGrowing2 db selector familiesGrowing)

/-- What a config has cached. -/
def Config.cache (config : Config) : Int × Int × Bool × Bool :=
  (config.familyCount, config.nvtCount, config.familiesGrowing, config.nvtsGrowing)

/-- A cache that has been updated is the one of the selector. -/
theorem cache_withCache : (withCache db selector config).cache = cacheOf db selector := rfl

theorem mem_rowsOf {number : Nat} (h : (number, config) ∈ db.configs.rows) :
    config ∈ db.configs.rows.map Prod.snd := List.mem_map.mpr ⟨(number, config), h, rfl⟩

/-- A config gets what is found for one of the configs of its name. -/
theorem exists_source {number : Nat} (hRow : (number, config) ∈ db.configs.rows)
    (h : ∀ row ∈ db.configs.rows.map Prod.snd, row.nvtSelector.isSome = true) :
    ∃ number' row selector, (number', row) ∈ db.configs.rows ∧ row.name = config.name ∧
      row.nvtSelector = some selector ∧
      (∀ other, other.name = config.name →
        recache db (db.configs.rows.map Prod.snd) other = withCache db selector other) := by
  have hSome : ((db.configs.rows.map Prod.snd).filter (·.name = config.name)) ≠ [] :=
    List.ne_nil_of_mem (List.mem_filter.mpr ⟨mem_rowsOf hRow, decide_eq_true rfl⟩)
  obtain ⟨hMem, hName⟩ := List.mem_filter.mp (List.getLast_mem hSome)
  obtain ⟨⟨number', row⟩, hRow', hSame⟩ := List.mem_map.mp hMem
  obtain ⟨selector, hSelector⟩ := Option.isSome_iff_exists.mp (h _ hMem)
  rw [← hSame] at hName hSelector
  refine ⟨number', row, selector, hRow', of_decide_eq_true hName, hSelector, fun other hOther => ?_⟩
  rw [recache_eq h, hOther, List.getLast?_eq_some_getLast hSome, Option.elim_some, ← hSame, hSelector]
  rfl

/-- The update leaves each config with what is found for its own selector exactly when configs
with one name have the same found for their selectors. -/
theorem updateAllConfigCaches_own_iff
    (h : ∀ row ∈ db.configs.rows.map Prod.snd, row.nvtSelector.isSome = true) :
    (∃ after, updateAllConfigCaches db = .ok after ∧
      ∀ number config selector, (number, config) ∈ after.configs.rows →
        config.nvtSelector = some selector → config.cache = cacheOf db selector) ↔
      ∀ number config selector number' config' selector',
        (number, config) ∈ db.configs.rows → config.nvtSelector = some selector →
        (number', config') ∈ db.configs.rows → config'.nvtSelector = some selector' →
        config.name = config'.name → cacheOf db selector = cacheOf db selector' := by
  have hUpdate : updateAllConfigCaches db = _ := updateCaches_eq h
  have hRecached : ∀ {number config selector}, (number, config) ∈ db.configs.rows →
      config.nvtSelector = some selector →
      ∃ number' row selector', (number', row) ∈ db.configs.rows ∧ row.name = config.name ∧
        row.nvtSelector = some selector' ∧
        recache db (db.configs.rows.map Prod.snd) config = withCache db selector' config ∧
        ∀ other, other.name = config.name →
          recache db (db.configs.rows.map Prod.snd) other = withCache db selector' other := by
    intro number config selector hRow _
    obtain ⟨number', row, selector', hRow', hName, hSelector', hAll⟩ := exists_source hRow h
    exact ⟨number', row, selector', hRow', hName, hSelector', hAll config rfl, hAll⟩
  constructor
  · rintro ⟨after, hAfter, hOwn⟩ number config selector number' config' selector' hRow hSelector
      hRow' hSelector' hName
    rw [hUpdate] at hAfter
    obtain rfl := Except.ok.inj hAfter
    obtain ⟨-, -, source, -, -, -, hFirst, hAll⟩ := hRecached hRow hSelector
    have hOne := hOwn number (recache db (db.configs.rows.map Prod.snd) config) selector
      (Table.mem_update.mpr ⟨config, hRow, rfl⟩) (by rw [hFirst]; exact hSelector)
    have hSecond := hAll config' hName.symm
    have hTwo := hOwn number' (recache db (db.configs.rows.map Prod.snd) config') selector'
      (Table.mem_update.mpr ⟨config', hRow', rfl⟩) (by rw [hSecond]; exact hSelector')
    rw [hFirst, cache_withCache] at hOne
    rw [hSecond, cache_withCache] at hTwo
    exact hOne.symm.trans hTwo
  · intro hSame
    refine ⟨_, hUpdate, fun number config selector hRow hSelector => ?_⟩
    obtain ⟨old, hOld, rfl⟩ := Table.mem_update.mp hRow
    obtain ⟨own, hOwn⟩ := Option.isSome_iff_exists.mp (h old (mem_rowsOf hOld))
    obtain ⟨number', row, source, hRow', hName, hSource, hFirst, -⟩ := hRecached hOld hOwn
    rw [hFirst] at hSelector ⊢
    obtain rfl : own = selector := Option.some.inj (hOwn.symm.trans hSelector)
    rw [cache_withCache]
    exact hSame number' row source number old own hRow' hSource hOld hOwn hName

/-- Configs of two users with one name: one has all NVTs, and one has none. -/
def sameNames : Database where
  nvts := Table.empty.insert ⟨lit "1", lit "a", 3, lit "web"⟩
  nvtSelectors := Table.empty.insert ⟨lit "s", false, .all, none, none⟩
  configs := Table.empty.insertAll
    [⟨lit "u", some 1, lit "Mine", some (lit "s"), lit "", 1, 1, true, true, 0, 0⟩,
      ⟨lit "v", some 2, lit "Mine", some (lit "t"), lit "", 0, 0, false, false, 0, 0⟩]
  configsTrash := Table.empty
  tasks := Table.empty

theorem updateAllConfigCaches_own_iff_sameNames :
    ¬∃ after, updateAllConfigCaches sameNames = .ok after ∧
      ∀ number config selector, (number, config) ∈ after.configs.rows →
        config.nvtSelector = some selector → config.cache = cacheOf sameNames selector := by
  intro hOwn
  have hSame := (updateAllConfigCaches_own_iff (by decide)).mp hOwn 1
    ⟨lit "u", some 1, lit "Mine", some (lit "s"), lit "", 1, 1, true, true, 0, 0⟩ (lit "s") 2
    ⟨lit "v", some 2, lit "Mine", some (lit "t"), lit "", 0, 0, false, false, 0, 0⟩ (lit "t")
    (by decide) rfl (by decide) rfl rfl
  exact absurd hSame (by decide)

end Recache

/-! More NVTs. -/

/-- The NVTs of one database are among those of another one with the same selectors. -/
structure Extends (db after : Database) : Prop where
  selectors : after.nvtSelectors = db.nvtSelectors
  items : ∀ family, items db family ⊆ items after family

section Extends

variable {db after : Database} {config : Nat} {row row' : Config} {selector family : CString}
  {selection : Selection CString CString} {constraining growing : Bool}
  {listed : Bool → Finset CString}

/-- A family can only get more NVTs. -/
theorem Extends.known (h : Extends db after) (family : CString) :
    known db family ⊆ known after family := by
  unfold Configs.known
  split
  · exact subset_rfl
  · exact h.items family

theorem Extends.families (h : Extends db after) (hFamily : family ∈ families db) :
    family ∈ families after := by
  rw [mem_families_iff_known] at hFamily ⊢
  exact hFamily.mono (h.known family)

theorem Extends.rows (h : Extends db after) (p : Selector → Bool) :
    selectorsWhere after selector p = selectorsWhere db selector p := by
  rw [selectorsWhere, h.selectors, selectorsWhere]

/-- Rows of a selector stay in place when NVTs are added. -/
theorem Extends.placed (h : Extends db after) (hPlaced : Placed db selector constraining) :
    Placed after selector constraining := by
  constructor
  · rw [h.rows]
    exact hPlaced.all
  · intro row hRow
    rw [h.rows] at hRow
    obtain ⟨family, hFamily, hNamed⟩ := hPlaced.family row hRow
    exact ⟨family, h.families hFamily, hNamed⟩
  · intro row hRow
    rw [h.rows] at hRow
    obtain ⟨family, hFamily, hIn, oid, hOid, hNamed⟩ := hPlaced.nvt row hRow
    exact ⟨family, h.families hFamily, hIn, oid, h.items family hOid, hNamed⟩

/-- And a family keeps its rows. -/
theorem Extends.shape (h : Extends db after)
    (hShape : Shape db selector constraining family growing listed) :
    Shape after selector constraining family growing listed :=
  hShape.congr (h.rows _) fun exclude => (hShape.lists exclude).congr (h.rows _)

/-- The rows of a known family stand for the choice with the new NVTs in it. -/
theorem Extends.tidy (h : Extends db after) {choice : Choice CString}
    (hTidy : Tidy db selector constraining family choice) :
    Tidy after selector constraining family
      (choice.extend (Configs.items db family) (Configs.items after family)) := by
  have hMore := h.items family
  have hListing : listing (Configs.items after family)
      (choice.extend (Configs.items db family) (Configs.items after family)) =
        listing (Configs.items db family) choice := by
    funext exclude
    cases hGrowing : choice.growing with
    | true =>
        have hSame := Choice.sdiff_extend hTidy.within hMore hGrowing
        simp only [listing, Choice.extend, hGrowing, if_true] at hSame ⊢
        rw [hSame]
    | false => rw [Choice.extend_static hGrowing, listing, listing, hGrowing]; rfl
  constructor
  · exact Choice.extend_within hTidy.within hMore
  · rw [hListing]
    exact h.shape hTidy.shape

/-- There is nothing about a family that is not known. -/
theorem Placed.unknown (hPlaced : Placed db selector constraining) (hFamily : family ∉ families db) :
    marks db selector family = [] ∧ ∀ exclude, nvtRows db selector family exclude = [] := by
  constructor
  · apply List.eq_nil_iff_forall_not_mem.mpr
    intro row hRow
    obtain ⟨hMem, hName, hMeets⟩ := mem_selectorsWhere.mp hRow
    simp only [Selector.isFamily, Bool.and_eq_true, decide_eq_true_eq] at hMeets
    obtain ⟨family', hFamily', hNamed⟩ := hPlaced.family row
      (mem_selectorsWhere.mpr ⟨hMem, hName, decide_eq_true hMeets.1⟩)
    obtain rfl : family = family' := Option.some.inj (hMeets.2.symm.trans hNamed)
    exact hFamily hFamily'
  · intro exclude
    apply List.eq_nil_iff_forall_not_mem.mpr
    intro row hRow
    obtain ⟨hMem, hName, hMeets⟩ := mem_selectorsWhere.mp hRow
    simp only [Selector.isNvtIn, Bool.and_eq_true, decide_eq_true_eq] at hMeets
    obtain ⟨family', hFamily', hNamed, -⟩ := hPlaced.nvt row
      (mem_selectorsWhere.mpr ⟨hMem, hName, decide_eq_true hMeets.1.1⟩)
    obtain rfl : family = family' := Option.some.inj (hMeets.1.2.symm.trans hNamed)
    exact hFamily hFamily'

/-- A family that there is nothing about has all of its NVTs or none of them. -/
theorem tidy_unlisted (hMarks : marks after selector family = [])
    (hRows : ∀ exclude, nvtRows after selector family exclude = []) :
    Tidy after selector constraining family
      ((Choice.fresh constraining).extend ∅ (items after family)) := by
  have hListing : listing (items after family)
      ((Choice.fresh constraining).extend ∅ (items after family)) = fun _ => ∅ := by
    funext exclude
    cases constraining <;> simp [listing, Choice.extend, Choice.fresh]
  constructor
  · cases constraining <;> simp [Choice.extend, Choice.fresh]
  · rw [hListing]
    exact shape_unmarked hMarks fun exclude => lists_empty (hRows exclude)

/-- Whether families grow is told from the row for all families. -/
theorem Placed.familiesGrowing (hPlaced : Placed db selector constraining) :
    nvtSelectorFamiliesGrowing db selector = constraining := by
  have hAll : (selectorsWhere db selector fun row => row.type = .all && !row.exclude) =
      (selectorsWhere db selector fun row => row.type = .all).filter (!·.exclude) :=
    selectorsWhere_filter.symm
  rw [nvtSelectorFamiliesGrowing, hAll, hPlaced.all]
  cases constraining <;> rfl

/-- The choices are extended, and the config is informed again. -/
theorem Represents.extend (h : Represents db config row selector selection)
    (hExtends : Extends db after) (hDistinct : DistinctOids after)
    (hRow : (config, withCache after selector row) ∈ after.configs.rows) :
    Represents after config (withCache after selector row) selector { selection with
      choice := fun family =>
        (selection.choice family).extend (known db family) (known after family) } := by
  have hPlaced : Placed after selector row.familiesGrowing := hExtends.placed h.placed
  have hGrowing : (withCache after selector row).familiesGrowing = row.familiesGrowing :=
    hPlaced.familiesGrowing
  have hTidy : ∀ family ∈ families after, Tidy after selector row.familiesGrowing family
      ((selection.choice family).extend (known db family) (known after family)) := by
    intro family hFamily
    rw [known_eq hFamily]
    by_cases hOld : family ∈ families db
    · rw [known_eq hOld]
      exact hExtends.tidy (h.tidy family hOld)
    · obtain ⟨hMarks, hRows⟩ := h.placed.unknown hOld
      have hNone : known db family = ∅ := Finset.not_nonempty_iff_eq_empty.mp fun hSome =>
        hOld (mem_families_iff_known.mpr hSome)
      rw [hNone, h.fresh family hOld, ← h.growing]
      exact tidy_unlisted ((hExtends.rows _).trans hMarks)
        fun exclude => (hExtends.rows _).trans (hRows exclude)
  have hFormed : Formed after selector row.familiesGrowing :=
    ⟨hPlaced, fun family hFamily => ⟨_, _, (hTidy family hFamily).shape⟩⟩
  constructor
  · exact hRow
  · exact h.named
  · exact hGrowing.trans h.growing
  · rw [hGrowing]
    exact hPlaced
  · rw [hGrowing]
    exact hTidy
  · intro family hFamily
    have hNone : ∀ {db : Database}, family ∉ families db → known db family = ∅ := fun hNot =>
      Finset.not_nonempty_iff_eq_empty.mp fun hSome => hNot (mem_families_iff_known.mpr hSome)
    have hOld : family ∉ families db := fun hOld => hFamily (hExtends.families hOld)
    dsimp only
    rw [h.fresh family hOld, hNone hFamily, hNone hOld]
    cases selection.growing <;> rfl
  · intro hStatic family hFamily
    have hAgain : nvtSelectorNvtsGrowing2 after selector row.familiesGrowing = false := by
      rw [← hGrowing]
      exact hStatic
    rw [hGrowing]
    exact hFormed.nvtsGrowing hFamily hAgain family hFamily
  · have hCount : (withCache after selector row).nvtCount =
        nvtSelectorNvtCountAll after selector row.familiesGrowing :=
      congrArg (nvtSelectorNvtCountAll after selector) hGrowing
    rw [hCount, nvtSelectorNvtCountAll]
    apply congrArg List.sum
    apply List.map_congr_left
    intro family hFamily
    rw [(hTidy family hFamily).shape.familyGrowing, (hTidy family hFamily).nvtCount hDistinct]

end Extends

end Configs
