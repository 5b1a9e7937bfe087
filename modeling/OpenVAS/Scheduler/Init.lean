import OpenVAS.Scheduler.Basic
import Mathlib.Data.List.FinRange
import Mathlib.Data.Finset.Card
import Mathlib.Data.Finset.Dedup

/-! `plugins_scheduler_init`: from the list of known plugins to the hash of
plugins, the resolved dependencies and the category lists. -/
namespace Scheduler

open CString

/-- An element of the plugin arglist, with the fields the scheduler reads of it
and of its NVT info. Missing texts are NULL. -/
structure PluginArg where
  name : CString
  oid : Option CString
  category : Int
  dependencies : Option CString
  requiredPorts : Option CString
  launch : Int
  deriving DecidableEq, Repr

def launchDisabled : Int := 0
def launchRun : Int := 1

/-- `g_strsplit` on a non-empty text with a non-empty separator. The first
argument counts the bytes of a separator still to be skipped. -/
def gStrsplitFrom (delimiter : CString) : Nat → CString → CString → List CString
  | _, piece, [] => [piece.reverse]
  | skip + 1, piece, _ :: rest => gStrsplitFrom delimiter skip piece rest
  | 0, piece, c :: rest =>
      if delimiter.isPrefixOf (c :: rest) then
        piece.reverse :: gStrsplitFrom delimiter (delimiter.length - 1) [] rest
      else gStrsplitFrom delimiter 0 (c :: piece) rest

def gStrsplit (text delimiter : CString) : List CString :=
  if text = [] then [] else gStrsplitFrom delimiter 0 [] text

/-- The names of a `", "`-separated list, NULL for an empty one. -/
def str2arglist (str : Option CString) : Option (List CString) :=
  match str with
  | none => none
  | some [] => none
  | some text => some (gStrsplit text (lit ", "))

/-- The string hash of glib, on signed bytes. -/
def gStrHash (v : CString) : UInt32 :=
  v.foldl (fun h p => (h <<< 5) + h + p.toInt8.toInt32.toUInt32) 5381

/-- `HASH_MAX` of `pluginscheduler.c`. -/
abbrev hashMax : Nat := 2713

def mkhash (name : CString) : Fin hashMax :=
  ⟨(gStrHash name).toNat % hashMax, Nat.mod_lt _ (by decide)⟩

/-- Directory part of a file name, `.` when it has none. -/
def gPathGetDirname (fileName : CString) : CString :=
  match strrchr fileName (ch '/') with
  | none => lit "."
  | some base =>
      let dir := ((fileName.take (base + 1)).reverse.dropWhile (· = ch '/')).reverse
      if dir = [] then lit "/" else dir

/-- Two path elements joined by one separator. -/
def gBuildFilename (first second : CString) : CString :=
  if second = [] then first
  else (first.reverse.dropWhile (· = ch '/')).reverse ++ ch '/' :: second.dropWhile (· = ch '/')

section
variable (plugins : List PluginArg)

/-- The chains of the plugin hash; a new link goes in front of its chain. -/
def pluginHash : Fin hashMax → List (Fin plugins.length) :=
  (List.finRange plugins.length).foldl
    (fun h p => Function.update h (mkhash plugins[p].name) (p :: h (mkhash plugins[p].name)))
    (fun _ => [])

/-- `_hash_get`: the first link of the chain with that name. -/
def hashGet (name : CString) : Option (Fin plugins.length) :=
  (pluginHash plugins (mkhash name)).find? fun l => plugins[l].name = name

/-- One dependency of `hash_fill_deps`: by its name, else in the directory of
the plugin that names it. -/
def hashResolve (p : Fin plugins.length) (dependency : CString) : Option (Fin plugins.length) :=
  match hashGet plugins dependency with
  | some d => some d
  | none =>
      let path := gPathGetDirname plugins[p].name
      if path ≠ lit "." then hashGet plugins (gBuildFilename path dependency) else none

/-- The pointer array that `hash_fill_deps` stores, NULL without dependencies. -/
def hashFillDeps (p : Fin plugins.length) : Option (List (Fin plugins.length)) :=
  (str2arglist plugins[p].dependencies).map (List.filterMap (hashResolve plugins p))

/-- What `plugins_scheduler_init` fixes about a set of plugins. -/
def pluginTable : PluginTable plugins.length where
  category p := plugins[p].category.toNat
  dependenciesPtr := hashFillDeps plugins
  ports p := str2arglist plugins[p].requiredPorts

/-- `enable_plugin_and_dependencies` with its table of names seen so far. The
fuel bounds the depth of the recursion. -/
def enablePluginAndDependencies : Nat → Fin plugins.length →
    (Fin plugins.length → Int) × List CString →
    Option ((Fin plugins.length → Int) × List CString)
  | 0, _, _ => none
  | fuel + 1, p, (launch, depsTable) =>
      let name := plugins[p].name
      if name ∈ depsTable then some (launch, depsTable)
      else
        let depsPtr := (hashGet plugins name).bind (hashFillDeps plugins)
        let launch := if launch p = launchDisabled then Function.update launch p launchRun
          else launch
        (depsPtr.getD []).foldlM (fun state d => enablePluginAndDependencies fuel d state)
          (launch, name :: depsTable)

/-- The `autoload` pass over all plugins, each with a table of its own. -/
def enableAll (fuel : Nat) (launch : Fin plugins.length → Int) :
    Option (Fin plugins.length → Int) :=
  (List.finRange plugins.length).foldlM
    (fun launch p =>
      if launch p ≠ launchDisabled then
        (enablePluginAndDependencies plugins fuel p (launch, [])).map Prod.fst
      else some launch) launch

/-- The list a plugin goes to. -/
def listIndex (p : Fin plugins.length) : Nat := min (plugins[p].category.toNat) actLast

/-- The category lists before disabled plugins are taken out. -/
def categoryLists : Nat → List (Fin plugins.length) :=
  (List.finRange plugins.length).foldl
    (fun lists p => Function.update lists (listIndex plugins p) (p :: lists (listIndex plugins p)))
    (fun _ => [])

/-- The fill loop ends and stays inside the array of lists: a plugin without an
OID makes it spin on that plugin, a negative category indexes before the array. -/
def Loadable : Prop := ∀ plugin ∈ plugins, plugin.oid.isSome = true ∧ 0 ≤ plugin.category

instance : Decidable (Loadable plugins) :=
  inferInstanceAs (Decidable (∀ plugin ∈ plugins, plugin.oid.isSome = true ∧ 0 ≤ plugin.category))

def pluginsSchedulerInit (fuel : Nat) (autoload onlyNetwork : Bool) :
    Option (Sched plugins.length) :=
  if Loadable plugins then
    let launch := fun p : Fin plugins.length => plugins[p].launch
    (if autoload then enableAll plugins fuel launch else some launch).map fun launch =>
      { state := fun _ => .unrun
        list := fun i =>
          if onlyNetwork ∧ actGatherInfo ≤ i then []
          else (categoryLists plugins i).filter fun p => launch p ≠ launchDisabled
        plist := [] }
  else none

/-- The names that a table of names seen so far lacks. -/
def unseenNames (depsTable : List CString) : Finset CString :=
  (plugins.map PluginArg.name).toFinset \ depsTable.toFinset

variable {plugins}

theorem unseenNames_cons_lt {depsTable : List CString} {p : Fin plugins.length}
    (hNew : plugins[p].name ∉ depsTable) :
    (unseenNames plugins (plugins[p].name :: depsTable)).card <
      (unseenNames plugins depsTable).card := by
  refine Finset.card_lt_card ((Finset.ssubset_iff_of_subset ?_).mpr ⟨plugins[p].name, ?_, ?_⟩)
  · exact Finset.sdiff_subset_sdiff (Finset.Subset.refl _) (by simp)
  · simpa [unseenNames] using ⟨⟨plugins[p], by simp, rfl⟩, hNew⟩
  · simp [unseenNames]

theorem unseenNames_anti {depsTable depsTable' : List CString} (h : depsTable ⊆ depsTable') :
    (unseenNames plugins depsTable').card ≤ (unseenNames plugins depsTable).card := by
  refine Finset.card_le_card (Finset.sdiff_subset_sdiff (Finset.Subset.refl _) fun name hName => ?_)
  simpa using h (by simpa using hName)

/-- The table of names seen so far makes the recursion end, with or without
cycles. -/
theorem enablePluginAndDependencies_total {fuel : Nat} (p : Fin plugins.length)
    (state : (Fin plugins.length → Int) × List CString)
    (hFuel : (unseenNames plugins state.2).card < fuel) :
    ∃ state', enablePluginAndDependencies plugins fuel p state = some state' ∧
      state.2 ⊆ state'.2 := by
  induction fuel generalizing p state with
  | zero => omega
  | succ fuel ih =>
      obtain ⟨launch, depsTable⟩ := state
      rw [enablePluginAndDependencies]
      dsimp only
      split
      case isTrue => exact ⟨_, rfl, fun _ h => h⟩
      case isFalse hNew =>
        have hLess := unseenNames_cons_lt hNew
        have hFold : ∀ (deps : List (Fin plugins.length))
            (state : (Fin plugins.length → Int) × List CString),
            plugins[p].name :: depsTable ⊆ state.2 →
            ∃ state', deps.foldlM (fun state d => enablePluginAndDependencies plugins fuel d state)
              state = some state' ∧ plugins[p].name :: depsTable ⊆ state'.2 := by
          intro deps
          induction deps with
          | nil => exact fun state h => ⟨state, rfl, h⟩
          | cons d deps ihDeps =>
              intro state hState
              have hCard : (unseenNames plugins state.2).card ≤ _ := unseenNames_anti hState
              obtain ⟨state₁, hEq, hSubset⟩ := ih d state (by dsimp only at hFuel; omega)
              obtain ⟨state₂, hRest, hSubset₂⟩ := ihDeps state₁ (List.Subset.trans hState hSubset)
              exact ⟨state₂, by simp [hEq, hRest], hSubset₂⟩
        obtain ⟨state', hEq, hSubset⟩ := hFold
          (((hashGet plugins plugins[p].name).bind (hashFillDeps plugins)).getD [])
          (if launch p = launchDisabled then Function.update launch p launchRun else launch,
            plugins[p].name :: depsTable) (List.Subset.refl _)
        exact ⟨state', hEq, fun name hName => hSubset (List.mem_cons_of_mem _ hName)⟩

theorem enableAll_total {fuel : Nat} (hFuel : plugins.length < fuel)
    (launch : Fin plugins.length → Int) : ∃ launch', enableAll plugins fuel launch = some launch' := by
  have hNames : (unseenNames plugins []).card < fuel := by
    refine lt_of_le_of_lt ?_ hFuel
    simpa [unseenNames] using (plugins.map PluginArg.name).toFinset_card_le
  unfold enableAll
  generalize List.finRange plugins.length = ps
  induction ps generalizing launch with
  | nil => exact ⟨launch, rfl⟩
  | cons p ps ih =>
      by_cases hLaunch : launch p ≠ launchDisabled
      · obtain ⟨state, hEq, -⟩ := enablePluginAndDependencies_total p (launch, []) hNames
        obtain ⟨launch', hRest⟩ := ih state.1
        exact ⟨launch', by simpa [hLaunch, hEq] using hRest⟩
      · obtain ⟨launch', hRest⟩ := ih launch
        exact ⟨launch', by simpa [not_not.mp hLaunch] using hRest⟩

end

end Scheduler
