import Mathlib.Data.List.Dedup
import Mathlib.Data.List.Sort
import OpenVAS.Lib.CString
import OpenVAS.Trashcan.Basic

/-! The scan configs of the manager. A config has a selector name, and the rows of
`nvt_selectors` under this name say which families of NVTs it scans with and which of the
NVTs in them. -/
namespace Configs

open CString
open Trashcan (Location)

/-! Tables. -/

/-- The columns of `nvts` by which NVTs are chosen and sorted. -/
structure Nvt where
  oid : CString
  name : CString
  category : Int
  family : CString
  deriving DecidableEq

/-- `NVT_SELECTOR_TYPE_ALL`, `NVT_SELECTOR_TYPE_FAMILY` and `NVT_SELECTOR_TYPE_NVT`. -/
inductive SelectorType where
  | all
  | family
  | nvt
  deriving DecidableEq, Repr

/-- A row of `nvt_selectors`. The all selector has no text in its last two columns. -/
structure Selector where
  name : CString
  exclude : Bool
  type : SelectorType
  familyOrNvt : Option CString
  family : Option CString
  deriving DecidableEq

/-- A row of `configs`. -/
structure Config where
  uuid : CString
  owner : Option Nat
  name : CString
  nvtSelector : Option CString
  comment : CString
  familyCount : Int
  nvtCount : Int
  familiesGrowing : Bool
  nvtsGrowing : Bool
  creationTime : Int
  modificationTime : Int
  deriving DecidableEq

/-- What a row of `tasks` says of its config. -/
structure Task where
  config : Nat
  configLocation : Location
  hidden : Nat
  deriving DecidableEq

/-- The tables that the commands on configs read and write. -/
structure Database where
  nvts : Table Nvt
  nvtSelectors : Table Selector
  configs : Table Config
  configsTrash : Table Config
  tasks : Table Task

/-! NVTs and their families. -/

/-- The rows of `nvts` that meet a condition, in the order of their names. -/
def sortedNvts (rows : List Nvt) : List Nvt :=
  rows.insertionSort fun one two => strcmpLe one.name two.name

/-- The families that `init_family_iterator` yields for all families in ascending order. -/
def families (db : Database) : List CString :=
  (((db.nvts.rows.map (·.2.family)).filter (· ≠ lit "Credentials")).dedup).insertionSort
    fun one two => strcmpLe one two

/-- `family_nvt_count` for a family. -/
def familyNvtCount (db : Database) (family : CString) : Int :=
  (db.nvts.select (·.family = family)).length

/-- The OIDs that `init_nvt_iterator` yields for a family. -/
def familyOids (db : Database) (family : CString) : List CString :=
  (sortedNvts (db.nvts.select (·.family = family))).map (·.oid)

/-- The OIDs that `init_nvt_iterator` yields for a category. -/
def categoryOids (db : Database) (category : Int) : List CString :=
  (sortedNvts (db.nvts.select (·.category = category))).map (·.oid)

/-- `family_count`. -/
def familyCount (db : Database) : Int := (families db).length

/-! Rows of a selector. -/

/-- The selector is an `NVT_SELECTOR_TYPE_FAMILY` for the family. -/
def Selector.isFamily (family : CString) (row : Selector) : Bool :=
  row.type = .family && row.familyOrNvt = some family

/-- The selector is an `NVT_SELECTOR_TYPE_NVT` in the family. -/
def Selector.isNvtIn (family : CString) (row : Selector) : Bool :=
  row.type = .nvt && row.family = some family

/-- `SELECT ... FROM nvt_selectors WHERE name = ... AND ...`. -/
def selectorsWhere (db : Database) (selector : CString) (p : Selector → Bool) : List Selector :=
  db.nvtSelectors.select fun row => row.name = selector && p row

/-- `DELETE FROM nvt_selectors WHERE name = ... AND ...`. -/
def deleteSelectors (selector : CString) (p : Selector → Bool) (db : Database) : Database :=
  { db with nvtSelectors := db.nvtSelectors.delete fun _ row => row.name = selector && p row }

/-- `INSERT INTO nvt_selectors`. -/
def insertSelector (row : Selector) (db : Database) : Database :=
  { db with nvtSelectors := db.nvtSelectors.insert row }

/-- `UPDATE configs SET ... WHERE ROWID = `. -/
def updateConfig (config : Nat) (f : Config → Config) (db : Database) : Database :=
  { db with configs := db.configs.updateAt config f }

/-- `nvt_selector_remove` with `NVT_SELECTOR_TYPE_ANY`. -/
def nvtSelectorRemoveAny (selector family : CString) : Database → Database :=
  deleteSelectors selector fun row => row.isNvtIn family || row.isFamily family

/-- `nvt_selector_remove` with `NVT_SELECTOR_TYPE_FAMILY`. -/
def nvtSelectorRemoveFamily (selector family : CString) : Database → Database :=
  deleteSelectors selector (·.isFamily family)

/-- `nvt_selector_remove_selector` with a type other than `NVT_SELECTOR_TYPE_ANY`. -/
def nvtSelectorRemoveSelector (selector : CString) (familyOrNvt : Option CString)
    (type : SelectorType) : Database → Database :=
  deleteSelectors selector fun row =>
    row.type = type && (type = .all || familyOrNvt.isSome && row.familyOrNvt = familyOrNvt)

/-- `nvt_selector_add`; the family is missing for a selector of a whole family. -/
def nvtSelectorAdd (selector familyOrNvt : CString) (family : Option CString) (exclude : Bool) :
    Database → Database :=
  insertSelector <| match family with
    | none => ⟨selector, exclude, .family, some familyOrNvt, some familyOrNvt⟩
    | some family => ⟨selector, exclude, .nvt, some familyOrNvt, some family⟩

/-- `nvt_selector_has`. -/
def nvtSelectorHas (db : Database) (selector familyOrNvt : CString) (type : SelectorType)
    (exclude : Bool) : Bool :=
  (selectorsWhere db selector fun row =>
    row.type = type && row.exclude = exclude && row.familyOrNvt = some familyOrNvt) ≠ []

/-- `family_is_selected`. The condition on the name is for the NVTs only, as `AND` binds
stronger than `OR`. -/
def familyIsSelected (db : Database) (selector family : CString) : Bool :=
  db.nvtSelectors.any fun _ row =>
    row.name = selector && row.isNvtIn family || row.isFamily family

/-! What a selector says of a family. -/

/-- `nvt_selector_family_growing`. -/
def nvtSelectorFamilyGrowing (db : Database) (selector family : CString) (all : Bool) : Bool :=
  if all then
    selectorsWhere db selector (fun row => row.isFamily family && row.exclude) = []
  else selectorsWhere db selector (fun row => row.isFamily family && !row.exclude) ≠ []

/-- `nvt_selector_nvt_count` for a family. -/
def nvtSelectorNvtCount (db : Database) (selector family : CString) (growing : Bool) : Int :=
  if growing then
    familyNvtCount db family -
      (selectorsWhere db selector fun row => row.exclude && row.isNvtIn family).length
  else (selectorsWhere db selector fun row => !row.exclude && row.isNvtIn family).length

/-- `nvt_selector_nvt_count` for all families. -/
def nvtSelectorNvtCountAll (db : Database) (selector : CString) (growing : Bool) : Int :=
  ((families db).map fun family =>
    nvtSelectorNvtCount db selector family
      (nvtSelectorFamilyGrowing db selector family growing)).sum

/-- `nvt_selector_families_growing`. -/
def nvtSelectorFamiliesGrowing (db : Database) (selector : CString) : Bool :=
  selectorsWhere db selector (fun row => row.type = .all && !row.exclude) ≠ []

/-- The number of different families among the family includes. -/
def familyIncludes (db : Database) (selector : CString) : Int :=
  ((selectorsWhere db selector fun row => row.type = .family && !row.exclude).filterMap
    (·.familyOrNvt)).dedup.length

/-- `nvt_selector_family_count`. -/
def nvtSelectorFamilyCount (db : Database) (selector : CString) (familiesGrowing : Bool) : Int :=
  if familiesGrowing then familyCount db - familyIncludes db selector
  else
    ((selectorsWhere db selector fun row => row.type ≠ .all && !row.exclude).filterMap
      (·.family)).dedup.length

/-- `nvt_selector_nvts_growing_2`. -/
def nvtSelectorNvtsGrowing2 (db : Database) (selector : CString) (familiesGrowing : Bool) : Bool :=
  if familiesGrowing then 0 < familyCount db - familyIncludes db selector
  else selectorsWhere db selector (fun row => row.type = .family && !row.exclude) ≠ []

/-! What a config scans with. -/

/-- `config_nvt_selector`. -/
def configNvtSelector (db : Database) (config : Nat) : Option CString :=
  (db.configs.get? config).bind (·.nvtSelector)

/-- `config_families_growing`, for a config that is there. -/
def configFamiliesGrowing (db : Database) (config : Nat) : Bool :=
  (db.configs.get? config).any (·.familiesGrowing)

/-- `config_nvts_growing`, for a config that is there. -/
def configNvtsGrowing (db : Database) (config : Nat) : Bool :=
  (db.configs.get? config).any (·.nvtsGrowing)

/-- The rows of a family joined with the selectors of their OIDs that meet a condition: a row
is there once for each of the selectors. -/
def joinSelectors (db : Database) (selector family : CString) (p : Selector → Bool) :
    List (Nat × Nvt) :=
  (db.nvts.rows.filter (·.2.family = family)).flatMap fun nvt =>
    (selectorsWhere db selector fun row => p row && row.familyOrNvt = some nvt.2.oid).map fun _ => nvt

/-- The NVTs of a family without the ones that are excluded. -/
def exceptExcluded (db : Database) (selector family : CString) : List (Nat × Nvt) :=
  (db.nvts.rows.filter (·.2.family = family)).filter fun nvt =>
    nvt ∉ joinSelectors db selector family fun row => row.exclude && row.isNvtIn family

/-- The NVTs of a family that are included. -/
def onlyIncluded (db : Database) (selector family : CString) : List (Nat × Nvt) :=
  joinSelectors db selector family fun row => !row.exclude && row.isNvtIn family

/-- The query of `select_config_nvts` for a selector whose NVTs grow. -/
def selectGrowing (db : Database) (selector family : CString) (constraining : Bool) :
    List (Nat × Nvt) :=
  if constraining then
    if (selectorsWhere db selector fun _ => true).length = 1 then
      db.nvts.rows.filter (·.2.family = family)
    else if selectorsWhere db selector (fun row => row.isFamily family && row.exclude) ≠ [] then
      onlyIncluded db selector family
    else exceptExcluded db selector family
  else if selectorsWhere db selector (fun row => row.isFamily family && !row.exclude) ≠ [] then
    exceptExcluded db selector family
  else onlyIncluded db selector family

/-- The NVTs that `select_config_nvts` selects, in ascending order. -/
def selectConfigNvts (db : Database) (config : Nat) (family : CString) : List Nvt :=
  match configNvtSelector db config with
  | none => []
  | some selector =>
      if configNvtsGrowing db config then
        sortedNvts ((selectGrowing db selector family (configFamiliesGrowing db config)).map Prod.snd)
      else
        (joinSelectors db selector family fun row => !row.exclude && row.type = .nvt).map Prod.snd

/-- What the config scans with, family by family. -/
def scannedOids (db : Database) (config : Nat) : List CString :=
  (families db).flatMap fun family => (selectConfigNvts db config family).map (·.oid)

/-- The OIDs that `nvt_selector_plugins` appends; the NVTs of category 2 are settings. -/
def pluginOids (db : Database) (config : Nat) : List CString :=
  scannedOids db config ++ categoryOids db 2

/-- `nvt_selector_plugins`. -/
def nvtSelectorPlugins (db : Database) (config : Nat) : CString :=
  List.intercalate [ch ';'] (pluginOids db config)

end Configs
