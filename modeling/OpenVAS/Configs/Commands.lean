import OpenVAS.Configs.Basic
import OpenVAS.Lib.Transaction

/-! The commands that change what a config scans with, and the update of what is cached in
the configs after a change of the NVTs. -/
namespace Configs

open CString Transaction
open Trashcan (Location)

/-- `member`. -/
def member (array : List CString) (string : CString) : Bool := array.contains string

/-- Whether a task that is not in the trashcan has the config. -/
def configInUse (db : Database) (config : Nat) : Bool :=
  db.tasks.any fun _ task => task.config = config && (task.hidden = 0 || task.hidden = 1)

/-! `manage_set_config_nvts`. -/

/-- The update of the cached numbers. -/
def countNvts (now : Int) (oldNvtCount newNvtCount : Int) (config : Config) : Config :=
  { config with
    familyCount := config.familyCount +
      if oldNvtCount = 0 then if newNvtCount = 0 then 0 else 1
      else if newNvtCount = 0 then -1 else 0
    nvtCount := config.nvtCount - oldNvtCount + max newNvtCount 0
    modificationTime := now }

/-- What `manage_set_config_nvts` does in its transaction for a config that is not in use. -/
def setConfigNvts (now : Int) (config : Nat) (selector family : CString)
    (selectedNvts : List CString) (db : Database) : Database :=
  let growing := nvtSelectorFamilyGrowing db selector family (configFamiliesGrowing db config)
  let oldNvtCount := nvtSelectorNvtCount db selector family growing
  let cleared := deleteSelectors selector (·.isNvtIn family) db
  if growing then
    -- Exclude all no's.
    let oids := ((selectConfigNvts cleared config family).map (·.oid)).filter (!member selectedNvts ·)
    updateConfig config (countNvts now oldNvtCount (familyNvtCount cleared family - oids.length))
      (oids.foldl (fun db oid => nvtSelectorAdd selector oid (some family) true db) cleared)
  else
    -- Include all yes's.
    updateConfig config (countNvts now oldNvtCount selectedNvts.length)
      (selectedNvts.foldl (fun db oid => nvtSelectorAdd selector oid (some family) false db) cleared)

/-- The NVTs of a family in a config are set, unless the config is in use. -/
def manageSetConfigNvts (now : Int) (config : Nat) (family : CString)
    (selectedNvts : List CString) : Command Database :=
  beginImmediate fun session =>
    if configInUse session.db config then rollback 1 session
    else
      match configNvtSelector session.db config with
      | none => answer (-1) session
      | some selector =>
          commit 0 { session with
            db := setConfigNvts now config selector family selectedNvts session.db }

/-! `switch_representation`. -/

/-- The conversion of one family. -/
def switchFamily (selector : CString) (constraining : Bool) (family : CString) (db : Database) :
    Database :=
  if nvtSelectorFamilyGrowing db selector family constraining = constraining then
    nvtSelectorAdd selector family none (!constraining) db
  else nvtSelectorRemoveSelector selector (some family) .family db

/-- Each family is switched, and then the row for all families. -/
def switchRepresentation (config : Nat) (selector : CString) (constraining : Bool) (db : Database) :
    Database :=
  let converted := (families db).foldl (fun db family => switchFamily selector constraining family db)
    (if constraining then nvtSelectorRemoveSelector selector none .all db
      else insertSelector ⟨selector, false, .all, none, none⟩ db)
  updateConfig config (fun row => { row with familiesGrowing := !constraining }) converted

/-! `manage_set_config_families`. -/

/-- What a FAMILY_SELECTION says of a family. -/
structure FamilySelection where
  growingAll : List CString
  staticAll : List CString
  growing : List CString

/-- Selectors for NVTs of a family, one after the other. -/
def addNvts (selector family : CString) (exclude : Bool) (oids : List CString) (db : Database) :
    Database :=
  oids.foldl (fun db oid => nvtSelectorAdd selector oid (some family) exclude db) db

/-- The loop that turns the NVT selectors of a family round: the includes into excludes for
the NVTs without one, or the excludes into includes. -/
def turnNvts (selector family : CString) (exclude : Bool) (oids : List CString) (db : Database) :
    Database :=
  oids.foldl (fun db oid =>
    if nvtSelectorHas db selector oid .nvt exclude then
      nvtSelectorRemoveSelector selector (some oid) .nvt db
    else nvtSelectorAdd selector oid (some family) (!exclude) db) db

section Family

variable (now : Int) (config : Nat) (selector : CString) (constraining : Bool) (family : CString)

/-- A family that is to have all of its NVTs. -/
def selectAll (growingAll : Bool) (oldNvtCount : Int) (db : Database) : Database :=
  let wasSelected := familyIsSelected db selector family
  let removed := nvtSelectorRemoveAny selector family db
  let marked :=
    -- The selector of the whole family differs from what holds without one.
    if growingAll = constraining then removed
    else nvtSelectorAdd selector family none constraining removed
  let added := if growingAll then marked
    else addNvts selector family false (familyOids db family) marked
  let newNvtCount := if growingAll then familyNvtCount db family else (familyOids db family).length
  let nvtsGrowing := growingAll || nvtSelectorNvtsGrowing2 added selector constraining
  updateConfig config (fun row => { row with
    nvtCount := row.nvtCount - oldNvtCount + newNvtCount
    nvtsGrowing := nvtsGrowing
    familyCount := row.familyCount + if wasSelected then 0 else 1
    modificationTime := now }) added

/-- A family that is to grow, with all of its NVTs selected or none of them static. -/
def makeGrowing (familyGrowing : Bool) (oldNvtCount : Int) (db : Database) : Database :=
  if oldNvtCount = familyNvtCount db family then
    -- All were selected.
    let removed := nvtSelectorRemoveAny selector family db
    let marked := if constraining then removed
      else nvtSelectorAdd selector family none false removed
    updateConfig config (fun row => { row with
      nvtCount := row.nvtCount - oldNvtCount
      nvtsGrowing := true
      modificationTime := now })
      (addNvts selector family true (familyOids db family) marked)
  else if familyGrowing then db
  else
    -- Nothing is done here about the exclude of the family that a selection with growing
    -- families has.
    let marked := if constraining then db else nvtSelectorAdd selector family none false db
    updateConfig config (fun row => { row with nvtsGrowing := true, modificationTime := now })
      (turnNvts selector family false (familyOids db family) marked)

/-- A family that is to be static. -/
def makeStatic (familyGrowing : Bool) (oldNvtCount : Int) (db : Database) : Database :=
  if oldNvtCount = familyNvtCount db family then
    -- All were selected.
    let removed := nvtSelectorRemoveAny selector family db
    let marked := if constraining then nvtSelectorAdd selector family none true removed
      else removed
    updateConfig config (fun row => { row with
      nvtsGrowing := nvtSelectorNvtsGrowing2 marked selector constraining
      nvtCount := row.nvtCount - oldNvtCount
      familyCount := row.familyCount - 1
      modificationTime := now }) marked
  else if familyGrowing then
    let marked := if constraining then nvtSelectorAdd selector family none true db
      else nvtSelectorRemoveFamily selector family db
    let turned := turnNvts selector family true (familyOids db family) marked
    updateConfig config (fun row => { row with
      nvtsGrowing := nvtSelectorNvtsGrowing2 turned selector constraining
      modificationTime := now }) turned
  else db

/-- The body of the loop of `manage_set_config_families`. -/
def setFamily (chosen : FamilySelection) (db : Database) : Except Abort Database :=
  let growingAll := member chosen.growingAll family
  let staticAll := member chosen.staticAll family
  if growingAll && staticAll then .error .assertion
  else
    let familyGrowing := nvtSelectorFamilyGrowing db selector family constraining
    let oldNvtCount := nvtSelectorNvtCount db selector family familyGrowing
    if growingAll || staticAll then
      if oldNvtCount = familyNvtCount db family ∧ familyGrowing = growingAll then .ok db
      else .ok (selectAll now config selector constraining family growingAll oldNvtCount db)
    else if member chosen.growing family then
      .ok (makeGrowing now config selector constraining family familyGrowing oldNvtCount db)
    else .ok (makeStatic now config selector constraining family familyGrowing oldNvtCount db)

end Family

/-- The loop of `manage_set_config_families`. -/
def setFamilies (now : Int) (config : Nat) (selector : CString) (constraining : Bool)
    (chosen : FamilySelection) : List CString → Database → Except Abort Database
  | [], db => .ok db
  | family :: rest, db =>
      match setFamily now config selector constraining family chosen db with
      | .ok after => setFamilies now config selector constraining chosen rest after
      | .error reason => .error reason

/-- What `manage_set_config_families` does in its transaction for a config that is not in use. -/
def setConfigFamilies (now : Int) (config : Nat) (selector : CString) (chosen : FamilySelection)
    (growFamilies : Int) (db : Database) : Except Abort Database :=
  let constraining := configFamiliesGrowing db config
  if (if constraining then 1 else 0) + growFamilies = 1 then
    setFamilies now config selector (!constraining) chosen (families db)
      (switchRepresentation config selector constraining db)
  else setFamilies now config selector constraining chosen (families db) db

/-- The families of a config are set, unless it is in use. -/
def manageSetConfigFamilies (now : Int) (config : Nat) (chosen : FamilySelection)
    (growFamilies : Int) : Command Database :=
  beginImmediate fun session =>
    if configInUse session.db config then rollback 1 session
    else
      match session.db.configs.get? config with
      -- There is no row for `sql_int`.
      | none => .error .assertion
      | some row =>
          match row.nvtSelector with
          | none => rollback (-1) session
          | some selector =>
              match setConfigFamilies now config selector chosen growFamilies session.db with
              | .error reason => .error reason
              | .ok db => commit 0 { session with db := db }

/-! The update of what the configs cache. -/

/-- The numbers and flags that are found for a selector. -/
def withCache (db : Database) (selector : CString) (config : Config) : Config :=
  let familiesGrowing := nvtSelectorFamiliesGrowing db selector
  { config with
    familyCount := nvtSelectorFamilyCount db selector familiesGrowing
    nvtCount := nvtSelectorNvtCountAll db selector familiesGrowing
    familiesGrowing := familiesGrowing
    nvtsGrowing := nvtSelectorNvtsGrowing2 db selector familiesGrowing }

/-- `update_config_cache`, which goes by the name of the config. -/
def updateConfigCache (row : Config) (db : Database) : Except Abort Database :=
  match row.nvtSelector with
  -- `sql_quote` asserts that there is a text.
  | none => .error .assertion
  | some selector =>
      .ok { db with configs := db.configs.update fun config =>
        if config.name = row.name then withCache db selector config else config }

/-- The loop of `update_all_config_caches`. -/
def updateCaches : List Config → Database → Except Abort Database
  | [], db => .ok db
  | row :: rest, db =>
      match updateConfigCache row db with
      | .ok after => updateCaches rest after
      | .error reason => .error reason

/-- What happens to the configs after the NVTs have been loaded again. -/
def updateAllConfigCaches (db : Database) : Except Abort Database :=
  updateCaches (db.configs.rows.map Prod.snd) db

/-- A rebuild of the NVT cache: `init_manage_process` removes the NVTs, and
`manage_complete_nvt_cache_update` inserts the ones of the scanner and updates the configs. -/
def rebuildNvtCache (nvts : List Nvt) (db : Database) : Except Abort Database :=
  updateAllConfigCaches { db with nvts := Table.empty.insertAll nvts }

end Configs
