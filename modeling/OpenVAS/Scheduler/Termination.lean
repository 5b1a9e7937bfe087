import OpenVAS.Lib.Acyclic
import OpenVAS.Scheduler.Init
import OpenVAS.Scheduler.Next
import Mathlib.Order.Filter.AtTopBot.Basic
import Mathlib.Order.Filter.Finite

/-! Termination of the scheduler. The dependency search keeps no table of visited
plugins, so it ends for all running states exactly when no plugin depends on
itself; then the loop over the categories ends as well. -/
namespace Scheduler

open CString Relation Filter

variable {n : Nat} {table : PluginTable n}

/-- The search below an array of dependencies returns. -/
def SearchEnds (table : PluginTable n) (s : Sched n) (depsPtr : List (Fin n)) : Prop :=
  ∀ᶠ fuel in atTop, pluginNextUnrunDependencie table fuel s depsPtr ≠ none

/-- A call of `plugins_scheduler_next` returns or is inside a wait that does not. -/
def NextReturns (table : PluginTable n) (L : Launcher n) (w : L.World) (s : Sched n) : Prop :=
  ∀ᶠ fuel in atTop, pluginsSchedulerNext table L fuel w s ≠ .error .fuel

theorem dependenciesLoop_ne_none {search : Sched n → List (Fin n) → Option (Found n × Sched n)}
    {deps : List (Fin n)} (hSearch : ∀ d ∈ deps, ∀ s, search s (table.deps d) ≠ none)
    (s : Sched n) (flag : Bool) : dependenciesLoop table search s flag deps ≠ none := by
  induction deps generalizing s flag with
  | nil => simp [dependenciesLoop]
  | cons d next ih =>
      have hNext := ih fun e he => hSearch e (List.mem_cons_of_mem d he)
      rw [dependenciesLoop]
      split
      case h_1 =>
        split
        case h_1 => simp
        case h_2 depsPtr hPtr =>
          have hHead := hSearch d (by simp) s
          rw [deps_eq hPtr] at hHead
          split
          case h_1 hNone => exact absurd hNone hHead
          case h_2 => simp
          case h_3 => exact hNext _ _
          case h_4 => simp
      case h_2 => exact hNext _ _
      case h_3 => exact hNext _ _
      case h_4 => exact hNext _ _

/-- Without cycles one depth of recursion is enough for every search. -/
theorem search_ends (h : table.Acyclic) :
    ∀ᶠ fuel in atTop, ∀ p s, pluginNextUnrunDependencie table fuel s (table.deps p) ≠ none := by
  refine eventually_all.mpr fun p => ?_
  induction p using (Acyclic.wellFounded h).induction with
  | _ p ih =>
      have hDeps : ∀ᶠ fuel in atTop, ∀ d, table.Depends p d →
          ∀ s, pluginNextUnrunDependencie table fuel s (table.deps d) ≠ none := by
        refine eventually_all.mpr fun d => ?_
        by_cases hd : table.Depends p d
        · filter_upwards [ih d hd] with fuel hFuel _ using hFuel
        · exact Eventually.of_forall fun _ h => absurd h hd
      obtain ⟨bound, hBound⟩ := eventually_atTop.mp hDeps
      refine eventually_atTop.mpr ⟨bound + 1, fun fuel hFuel s => ?_⟩
      obtain ⟨fuel, rfl⟩ : ∃ k, fuel = k + 1 := ⟨fuel - 1, by omega⟩
      exact dependenciesLoop_ne_none (hBound fuel (by omega)) s false

/-- A search among plugins of a cycle that are all unrun never returns. -/
theorem search_on_cycle {p : Fin n} (hCycle : TransGen table.Depends p p) {s : Sched n}
    (hUnrun : ∀ q, Acyclic.OnCycle table.Depends p q → s.state q = .unrun)
    (hRest : ∀ q, ¬ Acyclic.OnCycle table.Depends p q → s.state q = .doneAndCleaned)
    (fuel : Nat) {q : Fin n} (hq : Acyclic.OnCycle table.Depends p q) :
    pluginNextUnrunDependencie table fuel s (table.deps q) = none := by
  induction fuel generalizing q with
  | zero => rfl
  | succ fuel ih =>
      have hLoop : ∀ deps : List (Fin n), (∃ d ∈ deps, Acyclic.OnCycle table.Depends p d) →
          ∀ flag, dependenciesLoop table (pluginNextUnrunDependencie table fuel) s flag deps =
            none := by
        intro deps hDeps
        induction deps with
        | nil => simp at hDeps
        | cons e next ihNext =>
            intro flag
            rw [dependenciesLoop]
            by_cases he : Acyclic.OnCycle table.Depends p e
            · obtain ⟨d, hd, -⟩ := he.next hCycle
              rw [hUnrun e he]
              dsimp only
              split
              case h_1 hPtr => simp [PluginTable.Depends, deps_eq_nil hPtr] at hd
              case h_2 depsPtr hPtr =>
                have hNone := ih he
                rw [deps_eq hPtr] at hNone
                rw [hNone]
            · rw [hRest e he]
              refine ihNext ?_ flag
              obtain ⟨d, hd, hOn⟩ := hDeps
              rcases List.mem_cons.mp hd with rfl | hd
              · exact absurd hOn he
              · exact ⟨d, hd, hOn⟩
      obtain ⟨d, hd, hOn⟩ := hq.next hCycle
      exact hLoop (table.deps q) ⟨d, hd, hOn⟩ false

/-- The running states in which exactly the cycle of a plugin is unrun. -/
noncomputable def cycleUnrun (table : PluginTable n) (p : Fin n) : Sched n :=
  open Classical in
  { state := fun q => if Acyclic.OnCycle table.Depends p q then .unrun else .doneAndCleaned
    list := fun _ => []
    plist := [] }

theorem not_searchEnds_of_cycle {p : Fin n} (hCycle : TransGen table.Depends p p) :
    ¬ SearchEnds table (cycleUnrun table p) (table.deps p) := by
  intro hEnds
  obtain ⟨fuel, hFuel⟩ := hEnds.exists
  refine hFuel (search_on_cycle hCycle ?_ ?_ fuel ⟨.refl, .refl⟩)
  · intro q hq
    simp [cycleUnrun, hq]
  · intro q hq
    simp [cycleUnrun, hq]

theorem listWalk_ne_none {fuel : Nat}
    (hSearch : ∀ p s, pluginNextUnrunDependencie table fuel s (table.deps p) ≠ none)
    (category : Nat) (rest : List (Fin n)) (s : Sched n) (flag runningCategory : Nat)
    (kept : List (Fin n)) :
    listWalk table fuel category s flag runningCategory kept rest ≠ none := by
  induction rest generalizing s flag runningCategory kept with
  | nil => simp [listWalk]
  | cons l rest ih =>
      rw [listWalk]
      dsimp only
      split
      case h_1 =>
        split
        case h_1 depsPtr hPtr =>
          have hHead := hSearch l s
          rw [deps_eq hPtr] at hHead
          split
          case h_1 hNone => exact absurd hNone hHead
          case h_2 => simp
          case h_3 => exact ih _ _ _ _
          case h_4 => simp
        case h_2 => simp
      case h_2 => exact ih _ _ _ _
      case h_3 => exact ih _ _ _ _
      case h_4 => exact ih _ _ _ _

/-- The plugins that run. -/
def runningPlugins (s : Sched n) : Finset (Fin n) :=
  Finset.univ.filter fun p => s.state p = .running

theorem runningPlugins_elapsed {s s' : Sched n} (h : Elapsed s s') :
    runningPlugins s' ⊆ runningPlugins s := by
  intro p hp
  simp only [runningPlugins, Finset.mem_filter, Finset.mem_univ, true_and] at hp ⊢
  exact (h.later p).running hp

/-- Each wait leaves fewer running plugins, each other round of the loop a higher
category, so the loop ends. -/
theorem schedulerLoop_ne_fuel {L : Launcher n} {fuel : Nat}
    (hSearch : ∀ p s, pluginNextUnrunDependencie table fuel s (table.deps p) ≠ none)
    {steps category flag runningCategory : Nat} {w : L.World} {s : Sched n}
    (hInv : L.Inv w s.state)
    (hSteps : (runningPlugins s).card + (actLast + 1 - category) < steps) :
    schedulerLoop table L fuel steps category flag runningCategory w s ≠ .error .fuel := by
  induction steps generalizing category flag runningCategory w s with
  | zero => omega
  | succ steps ih =>
      rw [schedulerLoop]
      split
      case isFalse => simp
      case isTrue hCategory =>
        dsimp only
        have hSet : L.Inv (L.setFor category w) s.state := L.kept.setFor hInv
        split
        case h_1 hNone => exact absurd hNone (listWalk_ne_none hSearch _ _ _ _ _ _)
        case h_2 => simp
        case h_3 flag' runningCategory' mid hOver =>
          have hWalk := listWalk_result hOver
          rw [List.nil_append, withList_list] at hWalk
          have hMid : L.Inv (L.setFor category w) mid.state := L.kept.walk _ _ _ hWalk.1 hSet
          have hCard := Finset.card_le_card (runningPlugins_elapsed hWalk.1.toElapsed)
          split
          case isTrue =>
            split
            case h_1 => simp
            case h_2 w₁ state hWait =>
              refine ih (L.kept.wait _ _ _ _ hMid hWait) ?_
              have hFewer : (runningPlugins { mid with state := state }).card <
                  (runningPlugins mid).card := by
                obtain ⟨p, hp, hDone⟩ := L.wait_progress _ _ _ _ hMid hWait
                refine Finset.card_lt_card ((Finset.ssubset_iff_of_subset
                  (runningPlugins_elapsed (elapsed_wait hMid hWait))).mpr ⟨p, ?_, ?_⟩)
                · simp [runningPlugins, hp]
                · simp [runningPlugins, hDone]
              omega
          case isFalse =>
            split
            case isTrue => simp
            case isFalse => exact ih hMid (by omega)

theorem next_returns_of_acyclic (h : table.Acyclic) (L : Launcher n) :
    ∀ᶠ fuel in atTop, ∀ (w : L.World) (s : Sched n), L.Inv w s.state →
      pluginsSchedulerNext table L fuel w s ≠ .error .fuel := by
  filter_upwards [search_ends h, eventually_gt_atTop (n + (actLast + 1))] with fuel hSearch hFuel
  intro w s hInv
  refine schedulerLoop_ne_fuel hSearch hInv (lt_of_le_of_lt ?_ hFuel)
  have hCard : (runningPlugins s).card ≤ n := by
    simpa using Finset.card_le_univ (runningPlugins s)
  simp only [actFirst, actInit]
  omega

/-- Every search and every call of the scheduler returns, whatever the running
states are and whatever the processes do. -/
def Terminates (plugins : List PluginArg) : Prop :=
  (∀ s p, SearchEnds (pluginTable plugins) s ((pluginTable plugins).deps p)) ∧
  ∀ (L : Launcher plugins.length) (w : L.World) (s : Sched plugins.length), L.Inv w s.state →
    NextReturns (pluginTable plugins) L w s

/-- The scheduler terminates on a set of plugins exactly when no plugin of the set
depends on itself. -/
theorem terminates_iff_acyclic (plugins : List PluginArg) :
    Terminates plugins ↔ (pluginTable plugins).Acyclic := by
  constructor
  · intro hEnds p hCycle
    exact not_searchEnds_of_cycle hCycle (hEnds.1 _ p)
  · intro hAcyclic
    refine ⟨fun s p => ?_, fun L w s hInv => ?_⟩
    · filter_upwards [search_ends hAcyclic] with fuel hFuel using hFuel p s
    · filter_upwards [next_returns_of_acyclic hAcyclic L] with fuel hFuel using hFuel w s hInv

theorem schedulerLoop_skip {L : Launcher n} {fuel steps category runningCategory : Nat}
    {w : L.World} {s : Sched n} (hCategory : category ≤ actLast) (hEmpty : s.list category = []) :
    schedulerLoop table L fuel (steps + 1) category 0 runningCategory w s =
      schedulerLoop table L fuel steps (category + 1) 0 runningCategory (L.setFor category w) s := by
  have hSelf : { s with list := Function.update s.list category [] } = s := by
    simp [← hEmpty]
  rw [schedulerLoop, if_pos hCategory]
  simp only [hEmpty, listWalk, hSelf]
  simp

/-- A walk that does not return behind empty lists is reached by the loop. -/
theorem schedulerLoop_of_walk_none {L : Launcher n} {fuel steps category last runningCategory : Nat}
    {w : L.World} {s : Sched n} (hLast : last ≤ actLast) (hEmpty : ∀ c < last, s.list c = [])
    (hWalk : listWalk table fuel last s 0 runningCategory [] (s.list last) = none)
    (hCategory : category ≤ last) :
    schedulerLoop table L fuel steps category 0 runningCategory w s = .error .fuel := by
  induction steps generalizing category w with
  | zero => rfl
  | succ steps ih =>
      rcases Nat.lt_or_eq_of_le hCategory with hLt | rfl
      · rw [schedulerLoop_skip (by omega) (hEmpty category hLt)]
        exact ih (by omega)
      · rw [schedulerLoop, if_pos hLast]
        simp only [hWalk]

/-- A plugin that lists its own file among its dependencies. -/
def selfReference : PluginArg where
  name := lit "a.nasl"
  oid := some (lit "1")
  category := 3
  dependencies := some (lit "a.nasl")
  requiredPorts := none
  launch := launchRun

theorem selfReference_deps :
    (pluginTable [selfReference]).dependenciesPtr ⟨0, by decide⟩ = some [⟨0, by decide⟩] := by
  decide

/-- The first call after `plugins_scheduler_init` never returns, however the
processes behave, because the search never does. -/
theorem self_reference_never_returns :
    ¬ Terminates [selfReference] ∧
    ∃ s, pluginsSchedulerInit [selfReference] 2 true false = some s ∧
      ∀ (L : Launcher [selfReference].length) (w : L.World) (fuel : Nat),
        pluginsSchedulerNext (pluginTable [selfReference]) L fuel w s = .error .fuel := by
  have hCycle : TransGen (pluginTable [selfReference]).Depends ⟨0, by decide⟩ ⟨0, by decide⟩ := by
    refine TransGen.single ?_
    rw [PluginTable.Depends, deps_eq selfReference_deps]
    decide
  have hAll : ∀ q : Fin [selfReference].length,
      Acyclic.OnCycle (pluginTable [selfReference]).Depends ⟨0, by decide⟩ q := by
    intro q
    obtain rfl : (⟨0, by decide⟩ : Fin [selfReference].length) = q := Subsingleton.elim (α := Fin 1) _ q
    exact ⟨.refl, .refl⟩
  refine ⟨fun h => not_searchEnds_of_cycle hCycle (h.1 _ _), ?_⟩
  obtain ⟨s, hs, hUnrun, hEmpty, hList⟩ :
      ∃ s, pluginsSchedulerInit [selfReference] 2 true false = some s ∧
        (∀ q, s.state q = .unrun) ∧ (∀ c < 3, s.list c = []) ∧ s.list 3 = [⟨0, by decide⟩] :=
    ⟨_, rfl, fun _ => rfl, by decide, by decide⟩
  refine ⟨s, hs, fun L w fuel => ?_⟩
  have hSearch : pluginNextUnrunDependencie (pluginTable [selfReference]) fuel s [⟨0, by decide⟩] =
      none := by
    have hNone := search_on_cycle hCycle (fun q _ => hUnrun q) (fun q hq => absurd (hAll q) hq)
      fuel (hAll ⟨0, by decide⟩)
    rwa [deps_eq selfReference_deps] at hNone
  have hWalk : listWalk (pluginTable [selfReference]) fuel 3 s 0 actLast [] (s.list 3) = none := by
    simp only [hList, listWalk, hUnrun, selfReference_deps, hSearch]
  exact schedulerLoop_of_walk_none (by decide) hEmpty hWalk (by decide)

end Scheduler
