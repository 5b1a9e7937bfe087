import OpenVAS.Scheduler.Basic
import Mathlib.Logic.Relation

/-! What one walk of the scheduler can do. A search for an unrun dependency and a
walk along a category list only clean up finished plugins before they answer;
the plugin they answer with is unrun and has finished dependencies. -/
namespace Scheduler

open Relation

variable {n : Nat} {table : PluginTable n}

/-- The dependency relation of a set of plugins. -/
def PluginTable.Depends (table : PluginTable n) (p d : Fin n) : Prop := d ∈ table.deps p

instance (table : PluginTable n) (p d : Fin n) : Decidable (table.Depends p d) :=
  inferInstanceAs (Decidable (d ∈ table.deps p))

/-- No plugin depends on itself, directly or through others. -/
def PluginTable.Acyclic (table : PluginTable n) : Prop := ∀ p, ¬ TransGen table.Depends p p

theorem deps_eq {p : Fin n} {depsPtr : List (Fin n)} (h : table.dependenciesPtr p = some depsPtr) :
    table.deps p = depsPtr := by
  simp [PluginTable.deps, h]

theorem deps_eq_nil {p : Fin n} (h : table.dependenciesPtr p = none) : table.deps p = [] := by
  simp [PluginTable.deps, h]

/-- DONE or DONE_AND_CLEANED. -/
def Finished (state : RunningState) : Prop := state = .done ∨ state = .doneAndCleaned

instance : DecidablePred Finished := fun state =>
  inferInstanceAs (Decidable (state = .done ∨ state = .doneAndCleaned))

theorem finished_iff {state : RunningState} :
    Finished state ↔ state ≠ .unrun ∧ state ≠ .running := by
  cases state <;> simp [Finished]

/-- How a running state changes while nobody starts or resets the plugin. -/
def Later (state later : RunningState) : Prop :=
  later = state ∨ (state = .running ∧ Finished later) ∨ (state = .done ∧ later = .doneAndCleaned)

theorem Later.refl (state : RunningState) : Later state state := Or.inl rfl

theorem Later.trans {a b c : RunningState} (hab : Later a b) (hbc : Later b c) : Later a c := by
  cases a <;> cases b <;> cases c <;> simp_all [Later, Finished]

theorem Later.finished {a b : RunningState} (h : Later a b) (ha : Finished a) : Finished b := by
  cases a <;> cases b <;> simp_all [Later, Finished]

theorem Later.unrun_iff {a b : RunningState} (h : Later a b) : b = .unrun ↔ a = .unrun := by
  cases a <;> cases b <;> simp_all [Later, Finished]

theorem Later.running {a b : RunningState} (h : Later a b) (hb : b = .running) : a = .running := by
  cases a <;> cases b <;> simp_all [Later, Finished]

/-- Between two states some running plugins finish and finished ones are cleaned
up; only cells of finished plugins leave the lists. -/
structure Elapsed (s s' : Sched n) : Prop where
  later : ∀ p, Later (s.state p) (s'.state p)
  sublist : ∀ c, (s'.list c).Sublist (s.list c)
  removed : ∀ c, ∀ q ∈ s.list c, q ∈ s'.list c ∨ Finished (s'.state q)

theorem Elapsed.refl (s : Sched n) : Elapsed s s :=
  ⟨fun p => Later.refl (s.state p), fun _ => List.Sublist.refl _, fun _ _ hq => Or.inl hq⟩

theorem Elapsed.trans {a b c : Sched n} (hab : Elapsed a b) (hbc : Elapsed b c) : Elapsed a c := by
  refine ⟨fun p => (hab.later p).trans (hbc.later p),
    fun i => (hbc.sublist i).trans (hab.sublist i), fun i q hq => ?_⟩
  rcases hab.removed i q hq with hq | hq
  · exact hbc.removed i q hq
  · exact Or.inr ((hbc.later q).finished hq)

/-- A list that became empty had only plugins that have finished by now. -/
theorem Elapsed.finished {s s' : Sched n} (h : Elapsed s s') {c : Nat} (hEmpty : s'.list c = [])
    {q : Fin n} (hq : q ∈ s.list c) : Finished (s'.state q) := by
  rcases h.removed c q hq with hq | hq
  · simp [hEmpty] at hq
  · exact hq

theorem Elapsed.empty {s s' : Sched n} (h : Elapsed s s') {c : Nat} (hEmpty : s.list c = []) :
    s'.list c = [] := by
  have hSublist := h.sublist c
  rw [hEmpty] at hSublist
  exact List.sublist_nil.mp hSublist

/-- The same without any plugin that finishes: what one walk does. -/
structure Cleaned (s s' : Sched n) : Prop extends Elapsed s s' where
  running : ∀ p, s.state p = .running → s'.state p = .running

theorem Cleaned.refl (s : Sched n) : Cleaned s s := ⟨Elapsed.refl s, fun _ h => h⟩

theorem Cleaned.trans {a b c : Sched n} (hab : Cleaned a b) (hbc : Cleaned b c) :
    Cleaned a c :=
  ⟨hab.toElapsed.trans hbc.toElapsed, fun p hp => hbc.running p (hab.running p hp)⟩

/-- The cells of one category list replaced. -/
def withList (s : Sched n) (category : Nat) (cells : List (Fin n)) : Sched n :=
  { s with list := Function.update s.list category cells }

@[simp] theorem withList_state (s : Sched n) (category : Nat) (cells : List (Fin n)) :
    (withList s category cells).state = s.state := rfl

@[simp] theorem withList_self (s : Sched n) (category : Nat) (cells : List (Fin n)) :
    (withList s category cells).list category = cells := by
  simp [withList]

theorem withList_of_ne (s : Sched n) {category c : Nat} (cells : List (Fin n))
    (h : c ≠ category) : (withList s category cells).list c = s.list c := by
  simp [withList, h]

@[simp] theorem withList_list (s : Sched n) (category : Nat) :
    withList s category (s.list category) = s := by
  simp [withList]

/-- A clean-up, seen with the cells that a walk has kept so far. -/
theorem Cleaned.withList {s s' : Sched n} (h : Cleaned s s') (category : Nat)
    {cells cells' : List (Fin n)} (hCells : cells'.Sublist cells)
    (hRemoved : ∀ q ∈ cells, q ∈ cells' ∨ Finished (s'.state q)) :
    Cleaned (withList s category cells) (withList s' category cells') := by
  refine ⟨⟨h.later, fun c => ?_, fun c q hq => ?_⟩, h.running⟩
  · rcases eq_or_ne c category with rfl | hc
    · simpa using hCells
    · simpa [withList_of_ne _ _ hc] using h.sublist c
  · rcases eq_or_ne c category with rfl | hc
    · simpa using hRemoved q (by simpa using hq)
    · simpa [withList_of_ne _ _ hc] using h.removed c q (by simpa [withList_of_ne _ _ hc] using hq)

/-- The states and lists of a scheduler do not depend on its ports in use. -/
@[simp] theorem schedulerRmRunningPorts_state (s : Sched n) (p : Fin n) :
    (schedulerRmRunningPorts table s p).state = s.state := by
  unfold schedulerRmRunningPorts; split <;> rfl

@[simp] theorem schedulerRmRunningPorts_list (s : Sched n) (p : Fin n) :
    (schedulerRmRunningPorts table s p).list = s.list := by
  unfold schedulerRmRunningPorts; split <;> rfl

@[simp] theorem schedulerMarkRunningPorts_state (s : Sched n) (p : Fin n) :
    (schedulerMarkRunningPorts table s p).state = s.state := by
  unfold schedulerMarkRunningPorts; split <;> rfl

@[simp] theorem schedulerMarkRunningPorts_list (s : Sched n) (p : Fin n) :
    (schedulerMarkRunningPorts table s p).list = s.list := by
  unfold schedulerMarkRunningPorts; split <;> rfl

@[simp] theorem cleanUp_state (s : Sched n) (p : Fin n) :
    (cleanUp table s p).state = Function.update s.state p .doneAndCleaned := by
  simp [cleanUp, pluginSetRunningState]

@[simp] theorem cleanUp_list (s : Sched n) (p : Fin n) : (cleanUp table s p).list = s.list := by
  simp [cleanUp, pluginSetRunningState]

@[simp] theorem startPlugin_state (s : Sched n) (p : Fin n) :
    (startPlugin table s p).state = Function.update s.state p .running := by
  simp [startPlugin, pluginSetRunningState]

@[simp] theorem startPlugin_list (s : Sched n) (p : Fin n) :
    (startPlugin table s p).list = s.list := by
  simp [startPlugin, pluginSetRunningState]

theorem startPlugin_withList (s : Sched n) (category : Nat) (cells : List (Fin n)) (p : Fin n) :
    withList (startPlugin table s p) category cells = startPlugin table (withList s category cells) p := by
  simp only [startPlugin, pluginSetRunningState, schedulerMarkRunningPorts, withList]
  split <;> rfl

theorem cleaned_cleanUp {s : Sched n} {p : Fin n} (h : s.state p = .done) :
    Cleaned s (cleanUp table s p) := by
  refine ⟨⟨fun q => ?_, by simp, fun c q hq => Or.inl (by simpa using hq)⟩, fun q hq => ?_⟩
  · rcases eq_or_ne q p with rfl | hqp
    · exact Or.inr (Or.inr ⟨h, by simp⟩)
    · exact Or.inl (by simp [hqp])
  · have hqp : q ≠ p := by
      rintro rfl
      simp [h] at hq
    simpa [hqp] using hq

/-- A plugin is ready when all its dependencies have finished. -/
def Ready (table : PluginTable n) (s : Sched n) (p : Fin n) : Prop :=
  ∀ d ∈ table.deps p, Finished (s.state d)

/-- The result of a search below an array of dependencies. -/
def SearchResult (table : PluginTable n) (s : Sched n) (depsPtr : List (Fin n)) :
    Found n → Sched n → Prop
  | .null, s' => Cleaned s s' ∧ ∀ d ∈ depsPtr, Finished (s'.state d)
  | .plugRunning, s' => Cleaned s s'
  | .plugin p, s' => Cleaned s s' ∧ s.state p = .unrun ∧ Ready table s' p ∧
      ∃ d ∈ depsPtr, ReflTransGen table.Depends d p

theorem SearchResult.cleaned {s s' : Sched n} {depsPtr : List (Fin n)} {found : Found n}
    (h : SearchResult table s depsPtr found s') : Cleaned s s' := by
  cases found with
  | null => exact h.1
  | plugRunning => exact h
  | plugin p => exact h.1

/-- A search that starts after a clean-up, over the rest of the array. -/
theorem SearchResult.cons {s mid s' : Sched n} {d : Fin n} {next : List (Fin n)} {found : Found n}
    (h : SearchResult table mid next found s') (hMid : Cleaned s mid)
    (hHead : found = .null → Finished (mid.state d)) : SearchResult table s (d :: next) found s' := by
  cases found with
  | null =>
      obtain ⟨hCleaned, hNext⟩ := h
      refine ⟨hMid.trans hCleaned, fun q hq => ?_⟩
      rcases List.mem_cons.mp hq with rfl | hq
      · exact (hCleaned.later q).finished (hHead rfl)
      · exact hNext q hq
  | plugRunning => exact hMid.trans h
  | plugin p =>
      obtain ⟨hCleaned, hUnrun, hReady, e, he, hPath⟩ := h
      exact ⟨hMid.trans hCleaned, (hMid.later p).unrun_iff.mp hUnrun, hReady, e,
        List.mem_cons_of_mem d he, hPath⟩

theorem dependenciesLoop_result {search : Sched n → List (Fin n) → Option (Found n × Sched n)}
    (hSearch : ∀ s depsPtr found s', search s depsPtr = some (found, s') →
      SearchResult table s depsPtr found s')
    (depsPtr : List (Fin n)) (s : Sched n) (flag : Bool) (found : Found n) (s' : Sched n)
    (h : dependenciesLoop table search s flag depsPtr = some (found, s')) :
    SearchResult table s depsPtr found s' ∧ (flag = true → found ≠ .null) := by
  induction depsPtr generalizing s flag with
  | nil =>
      obtain ⟨rfl, rfl⟩ : (if flag then .plugRunning else .null) = found ∧ s = s' := by
        simpa [dependenciesLoop] using h
      cases flag with
      | true => exact ⟨Cleaned.refl s, by simp⟩
      | false => exact ⟨⟨Cleaned.refl s, by simp⟩, by simp⟩
  | cons plugin next ih =>
      rw [dependenciesLoop] at h
      split at h
      case h_1 hState =>
        split at h
        case h_1 hPtr =>
          obtain ⟨rfl, rfl⟩ : Found.plugin plugin = found ∧ s = s' := by simpa using h
          exact ⟨⟨Cleaned.refl s, hState, by simp [Ready, deps_eq_nil hPtr], plugin, by simp,
            .refl⟩, by simp⟩
        case h_2 ptr hPtr =>
          split at h
          case h_1 => simp at h
          case h_2 mid hFound =>
            obtain ⟨rfl, rfl⟩ : Found.plugin plugin = found ∧ mid = s' := by simpa using h
            obtain ⟨hCleaned, hDeps⟩ := hSearch _ _ _ _ hFound
            exact ⟨⟨hCleaned, hState, by simpa [Ready, deps_eq hPtr] using hDeps, plugin, by simp,
              .refl⟩, by simp⟩
          case h_3 mid hFound =>
            obtain ⟨hResult, hFlag⟩ := ih mid true h
            exact ⟨hResult.cons (hSearch _ _ _ _ hFound) fun hNull => absurd hNull (hFlag rfl),
              fun _ => hFlag rfl⟩
          case h_4 ret mid hFound =>
            obtain ⟨rfl, rfl⟩ : Found.plugin ret = found ∧ mid = s' := by simpa using h
            obtain ⟨hCleaned, hUnrun, hReady, d, hd, hPath⟩ := hSearch _ _ _ _ hFound
            have hEdge : table.Depends plugin d := by
              rw [PluginTable.Depends, deps_eq hPtr]
              exact hd
            exact ⟨⟨hCleaned, hUnrun, hReady, plugin, by simp, hPath.head hEdge⟩, by simp⟩
      case h_2 hState =>
        obtain ⟨hResult, hFlag⟩ := ih s true h
        exact ⟨hResult.cons (Cleaned.refl s) fun hNull => absurd hNull (hFlag rfl),
          fun _ => hFlag rfl⟩
      case h_3 hState =>
        obtain ⟨hResult, hFlag⟩ := ih _ flag h
        exact ⟨hResult.cons (cleaned_cleanUp hState) fun _ => Or.inr (by simp), hFlag⟩
      case h_4 hState =>
        obtain ⟨hResult, hFlag⟩ := ih s flag h
        exact ⟨hResult.cons (Cleaned.refl s) fun _ => Or.inr hState, hFlag⟩

theorem pluginNextUnrunDependencie_result {fuel : Nat} {s : Sched n} {depsPtr : List (Fin n)}
    {found : Found n} {s' : Sched n}
    (h : pluginNextUnrunDependencie table fuel s depsPtr = some (found, s')) :
    SearchResult table s depsPtr found s' := by
  induction fuel generalizing s depsPtr found s' with
  | zero => simp [pluginNextUnrunDependencie] at h
  | succ fuel ih =>
      exact (dependenciesLoop_result (fun _ _ _ _ => ih) depsPtr s false found s' h).1

/-- The result of a walk along the list of a category, compared with the state in
which that list holds the cells kept and those still to visit. -/
def WalkResult (table : PluginTable n) (category : Nat) (s : Sched n) (flag runningCategory : Nat)
    (kept : List (Fin n)) : ListWalk n → Prop
  | .found p s' => ∃ mid l, Cleaned s mid ∧ s' = startPlugin table mid p ∧ mid.state p = .unrun ∧
      Ready table mid p ∧ l ∈ mid.list category ∧ mid.state l = .unrun ∧
      ReflTransGen table.Depends l p
  | .exhausted flag' runningCategory' s' => Cleaned s s' ∧ runningCategory' ≤ runningCategory ∧
      (flag' = flag ∧ s'.list category = kept ∨
        flag < flag' ∧ ∃ q ∈ s'.list category, runningCategory' ≤ table.category q)

theorem WalkResult.mono {category : Nat} {s mid : Sched n} {flag runningCategory : Nat}
    {kept : List (Fin n)} {walk : ListWalk n}
    (h : WalkResult table category mid flag runningCategory kept walk) (hMid : Cleaned s mid) :
    WalkResult table category s flag runningCategory kept walk := by
  cases walk with
  | found p s' =>
      obtain ⟨last, l, hCleaned, hRest⟩ := h
      exact ⟨last, l, hMid.trans hCleaned, hRest⟩
  | exhausted flag' runningCategory' s' =>
      obtain ⟨hCleaned, hRest⟩ := h
      exact ⟨hMid.trans hCleaned, hRest⟩

/-- A cell to wait for is kept and counted. -/
theorem WalkResult.wait {category : Nat} {s : Sched n} {flag runningCategory : Nat}
    {kept : List (Fin n)} {l : Fin n} {walk : ListWalk n}
    (h : WalkResult table category s (flag + 1) (min (table.category l) runningCategory)
      (kept ++ [l]) walk) :
    WalkResult table category s flag runningCategory kept walk := by
  cases walk with
  | found p s' => exact h
  | exhausted flag' runningCategory' s' =>
      obtain ⟨hCleaned, hMin, hRest⟩ := h
      refine ⟨hCleaned, hMin.trans (min_le_right _ _), Or.inr ?_⟩
      rcases hRest with ⟨rfl, hList⟩ | ⟨hFlag, hSome⟩
      · exact ⟨Nat.lt_succ_self flag, l, by simp [hList], hMin.trans (min_le_left _ _)⟩
      · exact ⟨(Nat.lt_succ_self flag).trans hFlag, hSome⟩

theorem listWalk_result {fuel category : Nat} {rest : List (Fin n)} {s : Sched n}
    {flag runningCategory : Nat} {kept : List (Fin n)} {walk : ListWalk n}
    (h : listWalk table fuel category s flag runningCategory kept rest = some walk) :
    WalkResult table category (withList s category (kept ++ rest)) flag runningCategory kept walk := by
  induction rest generalizing s flag runningCategory kept with
  | nil =>
      obtain rfl : ListWalk.exhausted flag runningCategory (withList s category kept) = walk := by
        simpa [listWalk, withList] using h
      rw [List.append_nil]
      exact ⟨Cleaned.refl _, le_refl _, Or.inl ⟨rfl, by simp⟩⟩
  | cons l rest ih =>
      have hKeep {mid : Sched n} (hMid : Cleaned s mid) :
          Cleaned (withList s category (kept ++ l :: rest))
            (withList mid category (kept ++ l :: rest)) :=
        hMid.withList category (List.Sublist.refl _) fun _ hq => Or.inl hq
      have hRemove {mid : Sched n} (hMid : Cleaned s mid) (hl : Finished (mid.state l)) :
          Cleaned (withList s category (kept ++ l :: rest)) (withList mid category (kept ++ rest)) := by
        refine hMid.withList category (by simp) fun q hq => ?_
        rcases eq_or_ne q l with rfl | hql
        · exact Or.inr hl
        · exact Or.inl (by simpa [hql] using hq)
      have hWait {mid : Sched n} (hMid : Cleaned s mid)
          (hWalk : listWalk table fuel category mid (flag + 1)
            (min (table.category l) runningCategory) (kept ++ [l]) rest = some walk) :
          WalkResult table category (withList s category (kept ++ l :: rest)) flag
            runningCategory kept walk := by
        have hNext := ih hWalk
        rw [List.append_assoc, List.singleton_append] at hNext
        exact (hNext.mono (hKeep hMid)).wait
      have hFound {mid : Sched n} {p : Fin n} (hMid : Cleaned s mid)
          (hWalk : some (ListWalk.found p (withList (startPlugin table mid p) category
            (kept ++ l :: rest))) = some walk)
          (hp : mid.state p = .unrun) (hReady : Ready table mid p) (hl : mid.state l = .unrun)
          (hPath : ReflTransGen table.Depends l p) :
          WalkResult table category (withList s category (kept ++ l :: rest)) flag
            runningCategory kept walk := by
        obtain rfl := Option.some.inj hWalk
        exact ⟨withList mid category (kept ++ l :: rest), l, hKeep hMid,
          startPlugin_withList _ _ _ _, hp, hReady, by simp, hl, hPath⟩
      rw [listWalk] at h
      dsimp only at h
      split at h
      case h_1 hState =>
        split at h
        case h_1 depsPtr hPtr =>
          split at h
          case h_1 => simp at h
          case h_2 mid hSearch =>
            obtain ⟨hMid, hDeps⟩ := pluginNextUnrunDependencie_result hSearch
            have hl : mid.state l = .unrun := (hMid.later l).unrun_iff.mpr hState
            exact hFound hMid h hl (by simpa [Ready, deps_eq hPtr] using hDeps) hl .refl
          case h_3 mid hSearch => exact hWait (pluginNextUnrunDependencie_result hSearch) h
          case h_4 p mid hSearch =>
            obtain ⟨hMid, hUnrun, hReady, d, hd, hPath⟩ := pluginNextUnrunDependencie_result hSearch
            have hEdge : table.Depends l d := by
              rw [PluginTable.Depends, deps_eq hPtr]
              exact hd
            exact hFound hMid h ((hMid.later p).unrun_iff.mpr hUnrun) hReady
              ((hMid.later l).unrun_iff.mpr hState) (hPath.head hEdge)
        case h_2 hPtr =>
          exact hFound (Cleaned.refl s) h hState (by simp [Ready, deps_eq_nil hPtr]) hState .refl
      case h_2 hState => exact hWait (Cleaned.refl s) h
      case h_3 hState =>
        exact (ih h).mono (hRemove (cleaned_cleanUp hState) (Or.inr (by simp)))
      case h_4 hState => exact (ih h).mono (hRemove (Cleaned.refl s) (Or.inr hState))

end Scheduler
