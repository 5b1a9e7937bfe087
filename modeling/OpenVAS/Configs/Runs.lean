import OpenVAS.Configs.Caches
import OpenVAS.Lib.Run

/-! Runs of the commands and of updates of the NVT cache, on many configs: as long as no family
is stuck, the configs scan with what the commands ask for. -/
namespace Configs

open CString Choices Transaction

/-! Steps. -/

/-- A command on a config, or an update of the NVTs. -/
inductive Op where
  | setNvts (now : Int) (config : Nat) (family : CString) (selectedNvts : List CString)
  | setFamilies (now : Int) (config : Nat) (chosen : FamilySelection) (growFamilies : Int)
  | rebuild (nvts : List Nvt)

/-- A command over its own connection. What is not committed is lost at the end. -/
def execute (command : Command Database) (db : Database) : Database :=
  match command ⟨db, none, 0⟩ with
  | .ok (_, session) => session.begun.getD session.db
  | .error _ => db

/-- The database after a command. One that fails leaves it as it was. -/
def step (db : Database) : Op → Database
  | .setNvts now config family selectedNvts =>
      execute (manageSetConfigNvts now config family selectedNvts) db
  | .setFamilies now config chosen growFamilies =>
      execute (manageSetConfigFamilies now config chosen growFamilies) db
  | .rebuild nvts =>
      match rebuildNvtCache nvts db with
      | .ok after => after
      | .error _ => db

/-- What the step is there for. -/
def follow (world : World Nat CString CString) : Op → World Nat CString CString
  | .setNvts _ config family selectedNvts => world.pick config family selectedNvts.toFinset
  | .setFamilies _ config chosen growFamilies =>
      world.set config chosen.setting (growth growFamilies)
  | .rebuild nvts => world.extend fun family =>
      if family = lit "Credentials" then ∅
      else ((nvts.filter (·.family = family)).map (·.oid)).toFinset

/-- No other config has the same selector, as is so for configs that users make. -/
def Owns (db : Database) (config : Nat) : Prop :=
  ∀ row other row', (config, row) ∈ db.configs.rows → (other, row') ∈ db.configs.rows →
    other ≠ config → row'.nvtSelector ≠ row.nvtSelector

/-- What a client and a scanner send: a config with a selector of its own; a family that there is
and, where it is static, NVTs of this family; a family in one list at most; and all the NVTs that
there were before. -/
def Fits (db : Database) : Op → Prop
  | .setNvts _ config family selectedNvts =>
      Owns db config ∧ family ∈ families db ∧ ((choiceOf db config family).growing = false →
        selectedNvts.Nodup ∧ ∀ oid ∈ selectedNvts, oid ∈ items db family)
  | .setFamilies _ config chosen _ =>
      Owns db config ∧ ∀ family ∈ families db, chosen.Apart family
  | .rebuild nvts => (nvts.map (·.oid)).Nodup ∧ ∀ family, items db family ⊆
      ((nvts.filter (·.family = family)).map (·.oid)).toFinset

/-- The configs of the database have the selections. -/
structure Tracks (db : Database) (world : World Nat CString CString) : Prop where
  distinct : DistinctOids db
  items : ∀ family, world.items family = known db family
  inUse : ∀ config, world.inUse config = configInUse db config
  names : ∀ {config row config' row'}, (config, row) ∈ db.configs.rows →
    (config', row') ∈ db.configs.rows → config ≠ config' → row.name ≠ row'.name
  represents : ∀ {config row}, (config, row) ∈ db.configs.rows →
    ∃ selector, Represents db config row selector (world.selection config)

section Commands

variable {db : Database} {now : Int} {config : Nat} {row : Config} {selector family : CString}

end Commands

/-! One step. -/

section Steps

variable {db after : Database} {world : World Nat CString CString} {now : Int} {config : Nat}
  {row row' : Config} {selector family : CString}

/-- A change of one config and of the rows of its selector. -/
theorem Tracks.change (h : Tracks db world) (hRow : (config, row) ∈ db.configs.rows)
    (hNamed : row.nvtSelector = some selector) (hOwns : Owns db config)
    (hFree : world.inUse config = false) (hRest : SameRest db after)
    (hElsewhere : ∀ name ≠ selector, ∀ p, selectorsWhere after name p = selectorsWhere db name p)
    (hOthers : ∀ number ≠ config, ∀ other,
      (number, other) ∈ after.configs.rows ↔ (number, other) ∈ db.configs.rows)
    {f : Selection CString CString → Selection CString CString} (hName : row'.name = row.name)
    (hRepresents : Represents after config row' selector (f (world.selection config))) :
    Tracks after (world.change config f) := by
  rw [World.change_free hFree]
  -- A row of the config is the new one, and stands where the old one was.
  have hBefore : ∀ {number other}, (number, other) ∈ after.configs.rows →
      ∃ old, (number, old) ∈ db.configs.rows ∧ other.name = old.name := by
    intro number other hOther
    by_cases hNumber : number = config
    · subst hNumber
      obtain rfl := Table.row_eq hOther hRepresents.stored
      exact ⟨row, hRow, hName⟩
    · exact ⟨other, (hOthers number hNumber other).mp hOther, rfl⟩
  constructor
  · exact h.distinct.congr hRest.nvts
  · intro other
    dsimp only
    rw [h.items, known, known, Configs.items, Configs.items, hRest.nvts]
  · intro other
    rw [h.inUse, configInUse, configInUse, hRest.tasks]
  · intro one oneRow two twoRow hOne hTwo hApart
    obtain ⟨old, hOld, hOldName⟩ := hBefore hOne
    obtain ⟨old', hOld', hOldName'⟩ := hBefore hTwo
    rw [hOldName, hOldName']
    exact h.names hOld hOld' hApart
  · intro number other hOther
    by_cases hNumber : number = config
    · subst hNumber
      obtain rfl := Table.row_eq hOther hRepresents.stored
      dsimp only
      rw [Function.update_self]
      exact ⟨selector, hRepresents⟩
    · dsimp only
      rw [Function.update_of_ne hNumber]
      have hOld := (hOthers number hNumber other).mp hOther
      obtain ⟨otherSelector, hOtherRepresents⟩ := h.represents hOld
      have hDiffer : otherSelector ≠ selector := by
        rintro rfl
        exact hOwns _ _ _ hRow hOld hNumber (hOtherRepresents.named.trans hNamed.symm)
      have hUntouched : Untouched number otherSelector db after :=
        ⟨hRest, hElsewhere otherSelector hDiffer, hOthers number hNumber⟩
      exact ⟨otherSelector, hUntouched.represents hOtherRepresents⟩

/-- What is seen of the configs: whether new families are going to be scanned with; for each
family whether it grows, and the NVTs that are scanned with; the number of these NVTs; and what
the scanner is sent, which is each of them once and each NVT of category 2 once more. -/
def Shows (db : Database) (world : World Nat CString CString) : Prop :=
  ∀ config row, (config, row) ∈ db.configs.rows →
    row.familiesGrowing = (world.selection config).growing ∧
    (∀ family ∈ families db, choiceOf db config family = (world.selection config).choice family) ∧
    ((scannedOids db config).Nodup ∧ ∀ oid, oid ∈ scannedOids db config ↔
      ∃ family ∈ families db, oid ∈ ((world.selection config).choice family).chosen) ∧
    row.nvtCount = (scannedOids db config).length ∧
    ∀ oid, (pluginOids db config).count oid =
      (if ∃ family ∈ families db, oid ∈ ((world.selection config).choice family).chosen then 1 else 0) +
        if oid ∈ categoryOids db 2 then 1 else 0

theorem Tracks.named (h : Tracks db world) :
    ∀ row ∈ db.configs.rows.map Prod.snd, row.nvtSelector.isSome = true := by
  intro row hRow
  obtain ⟨⟨number, row⟩, hMem, rfl⟩ := List.mem_map.mp hRow
  obtain ⟨selector, hRepresents⟩ := h.represents hMem
  exact Option.isSome_iff_exists.mpr ⟨selector, hRepresents.named⟩

theorem select_insertAll_empty (nvts : List Nvt) (p : Nvt → Bool) :
    (Table.empty.insertAll nvts).select p = nvts.filter p := by
  rw [Table.select_insertAll]
  rfl

/-- An update of the NVTs replaces their table and updates the caches. -/
theorem step_rebuild_eq (h : Tracks db world) {nvts : List Nvt} :
    step db (.rebuild nvts) =
      { db with
        nvts := Table.empty.insertAll nvts
        configs := db.configs.update (recache { db with nvts := Table.empty.insertAll nvts }
          (db.configs.rows.map Prod.snd)) } := by
  simp only [step, rebuildNvtCache, updateAllConfigCaches]
  rw [updateCaches_eq h.named]

/-- More NVTs are taken where they are asked for. -/
theorem step_rebuild (h : Tracks db world) {nvts : List Nvt} (hFits : Fits db (.rebuild nvts)) :
    Tracks (step db (.rebuild nvts)) (follow world (.rebuild nvts)) := by
  obtain ⟨hNodup, hMore⟩ := hFits
  have hSelectors := h.named
  rw [step_rebuild_eq h]
  generalize hMiddle : ({ db with nvts := Table.empty.insertAll nvts } : Database) = middle
  have hItems : ∀ family, items middle family =
      ((nvts.filter (·.family = family)).map (·.oid)).toFinset := by
    intro family
    rw [← hMiddle, items, select_insertAll_empty]
  have hConfigs : middle.configs = db.configs := by rw [← hMiddle]
  have hRecached : ∀ {number config}, (number, config) ∈ db.configs.rows →
      ∀ {selector}, config.nvtSelector = some selector →
        recache middle (db.configs.rows.map Prod.snd) config = withCache middle selector config := by
    intro number config hRow selector hNamed
    rw [← hConfigs] at hRow hSelectors ⊢
    obtain ⟨number', row, selector', hRow', hName, hNamed', hAll⟩ := exists_source hRow hSelectors
    have hNumber : number' = number := by
      by_contra hApart
      rw [hConfigs] at hRow hRow'
      exact h.names hRow' hRow hApart hName
    subst hNumber
    obtain rfl := Table.row_eq hRow' hRow
    obtain rfl := Option.some.inj (hNamed.symm.trans hNamed')
    exact hAll row rfl
  have hDistinct : DistinctOids middle := by
    rw [← hMiddle, DistinctOids]
    have hRows := Table.map_snd_insertAll (Table.empty : Table Nvt) nvts
    have hOids := congrArg (List.map (·.oid)) hRows
    rw [List.map_map] at hOids
    have hNvts : (Table.empty : Table Nvt).rows.map Prod.snd ++ nvts = nvts := rfl
    rw [hNvts] at hOids
    exact hOids ▸ hNodup
  have hExtends : Extends db { middle with
      configs := db.configs.update (recache middle (db.configs.rows.map Prod.snd)) } := by
    constructor
    · rw [← hMiddle]
    · intro family
      exact (hMore family).trans (hItems family).symm.subset
  have hAfter : ({ db with
      nvts := Table.empty.insertAll nvts
      configs := db.configs.update (recache middle (db.configs.rows.map Prod.snd)) } : Database) =
      { middle with
        configs := db.configs.update (recache middle (db.configs.rows.map Prod.snd)) } := by
    rw [← hMiddle]
  rw [hAfter]
  constructor
  · exact hDistinct
  · intro family
    change (if family = lit "Credentials" then ∅
      else ((nvts.filter (·.family = family)).map (·.oid)).toFinset) = known _ family
    rw [← hItems]
    rfl
  · intro config
    rw [follow, World.extend, h.inUse, configInUse, configInUse, ← hMiddle]
  · intro one oneRow two twoRow hOne hTwo hApart
    obtain ⟨old, hOld, rfl⟩ := Table.mem_update.mp hOne
    obtain ⟨old', hOld', rfl⟩ := Table.mem_update.mp hTwo
    obtain ⟨selector, hRepresents⟩ := h.represents hOld
    obtain ⟨selector', hRepresents'⟩ := h.represents hOld'
    have hDiffer := h.names hOld hOld' hApart
    rw [hRecached hOld hRepresents.named, hRecached hOld' hRepresents'.named]
    exact hDiffer
  · intro config row hRow
    obtain ⟨old, hOld, rfl⟩ := Table.mem_update.mp hRow
    obtain ⟨selector, hRepresents⟩ := h.represents hOld
    rw [hRecached hOld hRepresents.named] at hRow ⊢
    have hExtended := hRepresents.extend hExtends hDistinct hRow
    refine ⟨selector, ?_⟩
    have hChoice : (fun family => ((world.selection config).choice family).extend (world.items family)
        (if family = lit "Credentials" then ∅
          else ((nvts.filter (·.family = family)).map (·.oid)).toFinset)) =
        fun family => ((world.selection config).choice family).extend (known db family)
          (known { middle with
            configs := db.configs.update (recache middle (db.configs.rows.map Prod.snd)) } family) := by
      funext family
      rw [h.items, known, known, ← hItems]
      rfl
    have hSelection := congrArg (fun choice =>
      ({ world.selection config with choice := choice } : Selection CString CString)) hChoice
    exact (iff_of_eq (congrArg (Represents _ config _ selector) hSelection)).mpr hExtended

end Steps

/-! An example. -/

section Sample

def sampleConfig : Config :=
  ⟨lit "u", some 1, lit "Mine", some (lit "s"), lit "", 2, 2, true, true, 0, 0⟩

/-- Two NVTs of one family and one of another one. The config has one NVT of the first family,
and the second family with what comes into it. -/
def sample : Database where
  nvts := Table.empty.insertAll [⟨lit "1", lit "a", 3, lit "web"⟩, ⟨lit "2", lit "b", 3, lit "web"⟩,
    ⟨lit "3", lit "c", 2, lit "db"⟩]
  nvtSelectors := Table.empty.insertAll [⟨lit "s", false, .all, none, none⟩,
    ⟨lit "s", true, .family, some (lit "web"), some (lit "web")⟩,
    ⟨lit "s", false, .nvt, some (lit "1"), some (lit "web")⟩]
  configs := Table.empty.insert sampleConfig
  configsTrash := Table.empty
  tasks := Table.empty

end Sample

/-! Runs. -/

/-- A state of a run: the database, and what the commands have asked for. -/
abbrev State := Database × World Nat CString CString

/-- A step of the database beside the one of the world. -/
def stepBoth (state : State) (op : Op) : State := (step state.1 op, follow state.2 op)

end Configs
