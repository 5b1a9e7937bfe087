import OpenVAS.Scheduler.Init
import OpenVAS.Scheduler.Search
import OpenVAS.Lib.LinkedLists
import Mathlib.Data.Fintype.Card

/-! Which plugins `plugins_scheduler_init` enables, and which plugins its lists hold. The
dependencies are followed with a table of the names seen so far, one table for each plugin;
the lists are filled from the front and then lose their disabled plugins. -/
namespace Scheduler

open CString Relation LinkedLists

section

variable {plugins : List PluginArg}

/-! Plugins by their names. -/

theorem name_injective (hNames : (plugins.map PluginArg.name).Nodup) {p q : Fin plugins.length}
    (h : (plugins.get p).name = (plugins.get q).name) : p = q := by
  have hp : p.val < (plugins.map PluginArg.name).length := by simp
  have hq : q.val < (plugins.map PluginArg.name).length := by simp
  have hEq : (plugins.map PluginArg.name)[p.val] = (plugins.map PluginArg.name)[q.val] := by simpa using h
  exact Fin.ext ((List.Nodup.getElem_inj_iff hNames).mp hEq)

/-- Chains that each get their elements in front. -/
theorem foldl_chains {α κ : Type} [DecidableEq κ] (key : α → κ) (ps : List α) (chains : κ → List α)
    (k : κ) :
    ps.foldl (fun h p => Function.update h (key p) (p :: h (key p))) chains k =
      (ps.filter fun p => key p = k).reverse ++ chains k := by
  induction ps generalizing chains with
  | nil => rfl
  | cons p ps ih =>
      rw [List.foldl_cons, ih]
      by_cases hk : key p = k
      · subst hk
        simp
      · simp [hk, Function.update_of_ne (Ne.symm hk)]

theorem categoryLists_eq (i : Nat) : categoryLists plugins i =
    ((List.finRange plugins.length).filter fun p => listIndex plugins p = i).reverse := by
  rw [categoryLists, foldl_chains, List.append_nil]

theorem pluginHash_eq (h : Fin hashMax) : pluginHash plugins h =
    ((List.finRange plugins.length).filter fun p => mkhash (plugins.get p).name = h).reverse := by
  have hChain := foldl_chains (fun p : Fin plugins.length => mkhash (plugins.get p).name)
    (List.finRange plugins.length) (fun _ => []) h
  rw [List.append_nil] at hChain
  exact hChain

theorem hashGet_name (hNames : (plugins.map PluginArg.name).Nodup) (p : Fin plugins.length) :
    hashGet plugins (plugins.get p).name = some p := by
  have hMem : p ∈ pluginHash plugins (mkhash (plugins.get p).name) := by simp [pluginHash_eq]
  cases hFind : hashGet plugins (plugins.get p).name with
  | none =>
      have hNot := List.find?_eq_none.mp hFind p hMem
      simp at hNot
  | some q =>
      have hName := List.find?_some hFind
      exact congrArg some (name_injective hNames (by simpa using hName))

/-! The plugins enabled with one plugin. -/

/-- A plugin whose name has come into the table. -/
def NewIn (state state' : (Fin plugins.length → Int) × List CString) (q : Fin plugins.length) : Prop :=
  (plugins.get q).name ∈ state'.2 ∧ (plugins.get q).name ∉ state.2

/-- What a part of the recursion has done: the plugins whose names are new are enabled and
allowed, and the table has the names of their dependencies. -/
structure Visited (allowed : Fin plugins.length → Prop)
    (state state' : (Fin plugins.length → Int) × List CString) : Prop where
  seen : state.2 ⊆ state'.2
  launch : ∀ q, state'.1 q ≠ launchDisabled ↔ state.1 q ≠ launchDisabled ∨ NewIn state state' q
  new : ∀ q, NewIn state state' q → allowed q
  closed : ∀ q d, NewIn state state' q → (pluginTable plugins).Depends q d →
    (plugins.get d).name ∈ state'.2

variable {allowed : Fin plugins.length → Prop}
  {state state' state'' : (Fin plugins.length → Int) × List CString}

theorem Visited.refl : Visited allowed state state where
  seen := List.Subset.refl _
  launch _ := (or_iff_left fun h => h.2 h.1).symm
  new _ h := absurd h.1 h.2
  closed _ _ h := absurd h.1 h.2

/-- A name is new by now if it was new before or has become so. -/
theorem newIn_trans_iff (hSeen : state.2 ⊆ state'.2) (hSeen' : state'.2 ⊆ state''.2)
    (q : Fin plugins.length) :
    NewIn state state'' q ↔ NewIn state state' q ∨ NewIn state' state'' q := by
  constructor
  · rintro ⟨hIn, hOut⟩
    by_cases hMid : (plugins.get q).name ∈ state'.2
    · exact .inl ⟨hMid, hOut⟩
    · exact .inr ⟨hIn, hMid⟩
  · rintro (⟨hIn, hOut⟩ | ⟨hIn, hOut⟩)
    · exact ⟨hSeen' hIn, hOut⟩
    · exact ⟨hIn, fun h => hOut (hSeen h)⟩

theorem Visited.trans (h : Visited allowed state state') (h' : Visited allowed state' state'') :
    Visited allowed state state'' where
  seen := List.Subset.trans h.seen h'.seen
  launch q := by rw [h'.launch, h.launch, newIn_trans_iff h.seen h'.seen, or_assoc]
  new q hNew := ((newIn_trans_iff h.seen h'.seen q).mp hNew).elim (h.new q) (h'.new q)
  closed q d hNew hEdge :=
    ((newIn_trans_iff h.seen h'.seen q).mp hNew).elim
      (fun hFirst => h'.seen (h.closed q d hFirst hEdge)) fun hThen => h'.closed q d hThen hEdge

theorem Visited.mono {allowed' : Fin plugins.length → Prop} (h : Visited allowed state state')
    (hAllowed : ∀ q, allowed q → allowed' q) : Visited allowed' state state' :=
  { h with new := fun q hNew => hAllowed q (h.new q hNew) }

/-- A run of the recursion over an array of dependencies. -/
theorem visited_foldlM {fuel : Nat}
    (hOne : ∀ d state state', enablePluginAndDependencies plugins fuel d state = some state' →
      Visited (ReflTransGen (pluginTable plugins).Depends d) state state' ∧
        (plugins.get d).name ∈ state'.2)
    {deps : List (Fin plugins.length)}
    (hAllowed : ∀ d ∈ deps, ∀ q, ReflTransGen (pluginTable plugins).Depends d q → allowed q)
    (h : deps.foldlM (fun state d => enablePluginAndDependencies plugins fuel d state) state =
      some state') :
    Visited allowed state state' ∧ ∀ d ∈ deps, (plugins.get d).name ∈ state'.2 := by
  induction deps generalizing state with
  | nil =>
      obtain rfl : state = state' := by simpa using h
      exact ⟨.refl, List.forall_mem_nil _⟩
  | cons d deps ih =>
      rw [List.foldlM_cons] at h
      obtain ⟨mid, hFirst, hRest⟩ := Option.bind_eq_some_iff.mp h
      obtain ⟨hVisit, hName⟩ := hOne d state mid hFirst
      obtain ⟨hThen, hNames⟩ := ih (fun d' hd' => hAllowed d' (List.mem_cons_of_mem _ hd')) hRest
      refine ⟨(hVisit.mono (hAllowed d (by simp))).trans hThen, ?_⟩
      exact List.forall_mem_cons.mpr ⟨hThen.seen hName, hNames⟩

theorem visited_enable (hNames : (plugins.map PluginArg.name).Nodup) {fuel : Nat}
    {p : Fin plugins.length} (h : enablePluginAndDependencies plugins fuel p state = some state') :
    Visited (ReflTransGen (pluginTable plugins).Depends p) state state' ∧
      (plugins.get p).name ∈ state'.2 := by
  induction fuel generalizing p state state' with
  | zero => cases h
  | succ fuel ih =>
      obtain ⟨launch, depsTable⟩ := state
      rw [enablePluginAndDependencies] at h
      dsimp only at h
      split at h
      case isTrue hSeen =>
        obtain rfl := Option.some.inj h
        exact ⟨.refl, hSeen⟩
      case isFalse hNew =>
        have hFound : hashGet plugins plugins[p].name = some p := hashGet_name hNames p
        rw [hFound, Option.bind_some] at h
        obtain ⟨hVisit, hDeps⟩ := @visited_foldlM plugins (ReflTransGen (pluginTable plugins).Depends p) _ _ _
          (fun d state state' hd => ih hd) _ (fun d hd q hPath => ReflTransGen.head hd hPath) h
        have hStart : Visited (ReflTransGen (pluginTable plugins).Depends p) (launch, depsTable) state' := by
          have hOne : ∀ q, NewIn (launch, depsTable) state' q ↔ q = p ∨
              NewIn (if launch p = launchDisabled then Function.update launch p launchRun else launch,
                (plugins.get p).name :: depsTable) state' q := by
            intro q
            by_cases hq : q = p
            · subst hq
              exact ⟨fun _ => .inl rfl, fun _ => ⟨hVisit.seen (by simp), hNew⟩⟩
            · have hName : (plugins.get q).name ≠ (plugins.get p).name := fun hEq => hq (name_injective hNames hEq)
              simp only [NewIn, List.mem_cons, hq, hName, false_or]
          refine ⟨fun name hName => hVisit.seen (List.mem_cons_of_mem _ hName), fun q => ?_,
            fun q hq => ?_, fun q d hq hEdge => ?_⟩
          · rw [hVisit.launch, hOne, ← or_assoc]
            refine or_congr_left ?_
            by_cases hq : q = p
            · subst hq
              by_cases hLaunch : launch q = launchDisabled
              · simp [hLaunch, launchRun, launchDisabled]
              · simp [hLaunch]
            · by_cases hLaunch : launch p = launchDisabled
              · simp [hLaunch, hq]
              · simp [hLaunch, hq]
          · rcases (hOne q).mp hq with rfl | hLater
            · exact .refl
            · exact hVisit.new q hLater
          · rcases (hOne q).mp hq with rfl | hLater
            · exact hDeps d hEdge
            · exact hVisit.closed q d hLater hEdge
        exact ⟨hStart, hVisit.seen (by simp)⟩

/-- With an empty table, what is enabled is what the plugin depends on, directly or not. -/
theorem enable_iff (hNames : (plugins.map PluginArg.name).Nodup) {fuel : Nat}
    {p : Fin plugins.length} {launch : Fin plugins.length → Int}
    (h : enablePluginAndDependencies plugins fuel p (launch, []) = some state')
    (q : Fin plugins.length) :
    state'.1 q ≠ launchDisabled ↔
      launch q ≠ launchDisabled ∨ ReflTransGen (pluginTable plugins).Depends p q := by
  obtain ⟨hVisit, hName⟩ := visited_enable hNames h
  rw [hVisit.launch]
  refine or_congr_right ⟨hVisit.new q, fun hPath => ?_⟩
  induction hPath with
  | refl => exact ⟨hName, List.not_mem_nil⟩
  | tail _ hEdge ih => exact ⟨hVisit.closed _ _ ih hEdge, List.not_mem_nil⟩

/-! The pass over all plugins. -/

/-- A plugin is enabled by a plugin on which it bears. -/
def Wanted (launch : Fin plugins.length → Int) (q : Fin plugins.length) : Prop :=
  ∃ p, launch p ≠ launchDisabled ∧ ReflTransGen (pluginTable plugins).Depends p q

theorem enableAll_foldlM (hNames : (plugins.map PluginArg.name).Nodup) {fuel : Nat}
    {ps : List (Fin plugins.length)} {launch launch' : Fin plugins.length → Int}
    (h : ps.foldlM (fun launch p =>
      if launch p ≠ launchDisabled then
        (enablePluginAndDependencies plugins fuel p (launch, [])).map Prod.fst
      else some launch) launch = some launch') :
    (∀ q, launch q ≠ launchDisabled → launch' q ≠ launchDisabled) ∧
      (∀ q, launch' q ≠ launchDisabled → Wanted launch q) ∧
      ∀ p ∈ ps, launch p ≠ launchDisabled → ∀ q, ReflTransGen (pluginTable plugins).Depends p q →
        launch' q ≠ launchDisabled := by
  induction ps generalizing launch with
  | nil =>
      obtain rfl : launch = launch' := by simpa using h
      exact ⟨fun _ hq => hq, fun q hq => ⟨q, hq, .refl⟩, List.forall_mem_nil _⟩
  | cons p ps ih =>
      rw [List.foldlM_cons] at h
      obtain ⟨mid, hFirst, hRest⟩ := Option.bind_eq_some_iff.mp h
      have hStep : ∀ q, mid q ≠ launchDisabled ↔ launch q ≠ launchDisabled ∨
          (launch p ≠ launchDisabled ∧ ReflTransGen (pluginTable plugins).Depends p q) := by
        intro q
        by_cases hLaunch : launch p ≠ launchDisabled
        · rw [if_pos hLaunch] at hFirst
          obtain ⟨state, hEnable, rfl⟩ := Option.map_eq_some_iff.mp hFirst
          rw [enable_iff hNames hEnable, and_iff_right hLaunch]
        · rw [if_neg hLaunch] at hFirst
          obtain rfl := Option.some.inj hFirst
          simp [not_not.mp hLaunch]
      obtain ⟨hKeep, hOnly, hAll⟩ := ih hRest
      refine ⟨fun q hq => hKeep q ((hStep q).mpr (.inl hq)), fun q hq => ?_, fun r hr hLaunch q hPath => ?_⟩
      · obtain ⟨r, hr, hPath⟩ := hOnly q hq
        rcases (hStep r).mp hr with hBefore | ⟨hLaunch, hReach⟩
        · exact ⟨r, hBefore, hPath⟩
        · exact ⟨p, hLaunch, hReach.trans hPath⟩
      · rcases List.mem_cons.mp hr with rfl | hMem
        · exact hKeep q ((hStep q).mpr (.inr ⟨hLaunch, hPath⟩))
        · exact hAll r hMem ((hStep r).mpr (.inl hLaunch)) q hPath

/-- After the pass the plugins are enabled that an enabled plugin needs. -/
theorem enableAll_iff (hNames : (plugins.map PluginArg.name).Nodup) {fuel : Nat}
    {launch launch' : Fin plugins.length → Int} (h : enableAll plugins fuel launch = some launch')
    (q : Fin plugins.length) : launch' q ≠ launchDisabled ↔ Wanted launch q := by
  obtain ⟨-, hOnly, hAll⟩ := enableAll_foldlM hNames h
  refine ⟨hOnly q, ?_⟩
  rintro ⟨p, hLaunch, hPath⟩
  exact hAll p (List.mem_finRange p) hLaunch q hPath

/-! The linked lists. -/

/-- The lists as the fill loop links them; the cell of a plugin is its number. -/
def fillLists (plugins : List PluginArg) : Store Nat (Fin plugins.length) :=
  (List.finRange plugins.length).foldl (fun lists p => pushFront lists (listIndex plugins p) p)
    Store.empty

/-- The loop that takes the plugins out that will not be launched. -/
def removeDisabled (launch : Fin plugins.length → Int) (lists : Store Nat (Fin plugins.length)) :
    Option (Store Nat (Fin plugins.length)) :=
  (List.range (actLast + 1)).foldlM
    (fun lists i =>
      removeWhere (fun p => decide (launch p = launchDisabled)) i plugins.length (lists.head i) lists)
    lists

theorem fillLists_represents : Represents (fillLists plugins) (categoryLists plugins) := by
  have hFold : ∀ (ps : List (Fin plugins.length)) (s : Store Nat (Fin plugins.length))
      (lists : Nat → List (Fin plugins.length)), Represents s lists → ps.Nodup →
      (∀ p ∈ ps, ∀ i, p ∉ lists i) →
      Represents (ps.foldl (fun s p => pushFront s (listIndex plugins p) p) s)
        (ps.foldl (fun lists p => Function.update lists (listIndex plugins p)
          (p :: lists (listIndex plugins p))) lists) := by
    intro ps
    induction ps with
    | nil => exact fun s lists h _ _ => h
    | cons p ps ih =>
        intro s lists h hNodup hFresh
        obtain ⟨hp, hRest⟩ := List.nodup_cons.mp hNodup
        refine ih _ _ (h.pushFront _ (hFresh p (by simp))) hRest fun q hq i => ?_
        have hOld := hFresh q (List.mem_cons_of_mem _ hq)
        dsimp only
        by_cases hi : i = listIndex plugins p
        · subst hi
          rw [Function.update_self, List.mem_cons, not_or]
          exact ⟨fun hEq => hp (hEq ▸ hq), hOld _⟩
        · rw [Function.update_of_ne hi]
          exact hOld i
  exact hFold _ _ _ represents_empty (List.nodup_finRange _) fun _ _ _ => List.not_mem_nil

theorem removeDisabled_represents {launch : Fin plugins.length → Int}
    {s : Store Nat (Fin plugins.length)} {lists : Nat → List (Fin plugins.length)}
    (h : Represents s lists) :
    ∃ s', removeDisabled launch s = some s' ∧ Represents s' fun i =>
      if i ≤ actLast then (lists i).filter fun p => launch p ≠ launchDisabled else lists i := by
  have hFold : ∀ (indices : List Nat) (s : Store Nat (Fin plugins.length))
      (lists : Nat → List (Fin plugins.length)), Represents s lists → indices.Nodup →
      ∃ s', indices.foldlM (fun s i =>
          removeWhere (fun p => decide (launch p = launchDisabled)) i plugins.length (s.head i) s)
          s = some s' ∧
        Represents s' fun i =>
          if i ∈ indices then (lists i).filter fun p => launch p ≠ launchDisabled else lists i := by
    intro indices
    induction indices with
    | nil => exact fun s lists h _ => ⟨s, rfl, by simpa using h⟩
    | cons i indices ih =>
        intro s lists h hNodup
        obtain ⟨hi, hRest⟩ := List.nodup_cons.mp hNodup
        have hLength : (lists i).length ≤ plugins.length := by
          simpa using List.Nodup.length_le_card (h.nodup i)
        obtain ⟨mid, hFirst, hMid⟩ := h.removeWhere (fun p => decide (launch p = launchDisabled))
          (List.nil_append (lists i)).symm hLength
        obtain ⟨s', hThen, hRep⟩ := ih mid _ hMid hRest
        refine ⟨s', ?_, ?_⟩
        · rw [List.foldlM_cons, h.head_eq i, hFirst]
          exact hThen
        · convert hRep using 2 with j
          by_cases hj : j = i
          · subst hj
            simp [hi]
          · simp [hj]
  obtain ⟨s', hEq, hRep⟩ := hFold (List.range (actLast + 1)) s lists h List.nodup_range
  refine ⟨s', hEq, ?_⟩
  simpa [Nat.lt_succ_iff] using hRep

/-- `plugins_scheduler_init` with `autoload` ends for every plugin set; `nasl_plugin_add` gives
plugins their OID, and `script_category` takes no negative category. It enables what the enabled
plugins depend on, and its lists, linked in memory, hold the enabled plugins of a category in
the reverse of their order. -/
theorem autoload_closure (hLoadable : Loadable plugins) (hNames : (plugins.map PluginArg.name).Nodup)
    {fuel : Nat} (hFuel : plugins.length < fuel) :
    ∃ launch s lists,
      enableAll plugins fuel (fun p => plugins[p].launch) = some launch ∧
      (∀ q, launch q ≠ launchDisabled ↔ ∃ p : Fin plugins.length, plugins[p].launch ≠ launchDisabled ∧
        ReflTransGen (pluginTable plugins).Depends p q) ∧
      pluginsSchedulerInit plugins fuel true false = some s ∧
      removeDisabled launch (fillLists plugins) = some lists ∧ Represents lists s.list ∧
      ∀ i, s.list i = ((List.finRange plugins.length).filter fun p =>
        listIndex plugins p = i ∧ launch p ≠ launchDisabled).reverse := by
  obtain ⟨launch, hEnable⟩ := enableAll_total hFuel fun p => plugins[p].launch
  obtain ⟨lists, hRemove, hRep⟩ :=
    @removeDisabled_represents plugins launch _ _ fillLists_represents
  have hList : ∀ i, (categoryLists plugins i).filter (fun p => decide (launch p ≠ launchDisabled)) =
      ((List.finRange plugins.length).filter fun p =>
        listIndex plugins p = i ∧ launch p ≠ launchDisabled).reverse := by
    intro i
    rw [categoryLists_eq, List.filter_reverse, List.filter_filter]
    simp [Bool.and_comm]
  obtain ⟨s, hInit, hLists⟩ : ∃ s, pluginsSchedulerInit plugins fuel true false = some s ∧
      s.list = fun i => (categoryLists plugins i).filter fun p => launch p ≠ launchDisabled := by
    refine ⟨⟨fun _ => .unrun, _, []⟩, ?_, rfl⟩
    simp only [pluginsSchedulerInit, if_pos hLoadable, if_true, hEnable]
    simp
  refine ⟨launch, s, lists, hEnable, enableAll_iff hNames hEnable, hInit, hRemove, ?_, fun i => ?_⟩
  · rw [hLists]
    convert hRep using 2 with i
    split
    · rfl
    · rename_i hHigh
      have hNone : categoryLists plugins i = [] := by
        rw [categoryLists_eq, List.reverse_eq_nil_iff, List.filter_eq_nil_iff]
        intro p _
        have hLow : listIndex plugins p ≤ actLast := Nat.min_le_right _ _
        simp only [decide_eq_true_eq]
        omega
      rw [hNone]
      rfl
  · rw [hLists]
    exact hList i

end

/-- Two plugins that depend on each other, of which one is enabled, and a third one. -/
def mutualPair : List PluginArg :=
  [⟨lit "a.nasl", some (lit "1"), 3, some (lit "b.nasl"), none, launchRun⟩,
    ⟨lit "b.nasl", some (lit "2"), 3, some (lit "a.nasl"), none, launchDisabled⟩,
    ⟨lit "c.nasl", some (lit "3"), 3, some (lit "a.nasl"), none, launchDisabled⟩]

theorem autoload_closure_mutual : ∃ launch s lists,
    enableAll mutualPair 4 (fun p => mutualPair[p].launch) = some launch ∧
    (∀ q, launch q ≠ launchDisabled ↔ ∃ p : Fin mutualPair.length,
      mutualPair[p].launch ≠ launchDisabled ∧
        ReflTransGen (pluginTable mutualPair).Depends p q) ∧
    pluginsSchedulerInit mutualPair 4 true false = some s ∧
    removeDisabled launch (fillLists mutualPair) = some lists ∧ Represents lists s.list ∧
    ∀ i, s.list i = ((List.finRange mutualPair.length).filter fun p =>
      listIndex mutualPair p = i ∧ launch p ≠ launchDisabled).reverse :=
  autoload_closure (by decide) (by decide) (by decide)

end Scheduler
