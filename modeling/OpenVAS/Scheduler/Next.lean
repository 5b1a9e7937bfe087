import OpenVAS.Scheduler.Search

/-! What one call of `plugins_scheduler_next` can do. The loop over the categories
carries an invariant about the flag and the running category, from which the
emptiness of the lists below the visited category follows. -/
namespace Scheduler

open Relation

variable {n : Nat} {table : PluginTable n}

/-- Every cell is in the list that `plugins_scheduler_init` chose for it. -/
def Indexed (table : PluginTable n) (s : Sched n) : Prop :=
  ∀ c, ∀ q ∈ s.list c, c = min (table.category q) actLast

theorem Indexed.elapsed {s s' : Sched n} (h : Indexed table s) (hLater : Elapsed s s') :
    Indexed table s' :=
  fun c q hq => h c q ((hLater.sublist c).subset hq)

/-- A property of the processes and the scheduler that a call keeps until it
hands out a plugin. -/
structure Kept (L : Launcher n) (J : L.World → Sched n → Prop) : Prop where
  inv : ∀ w s, J w s → L.Inv w s.state
  disable : ∀ w s, J w s → J (L.disableParrallelChecks w) s
  enable : ∀ w s, J w s → J (L.enableParrallelChecks w) s
  walk : ∀ w s s', Cleaned s s' → J w s → J w s'
  wait : ∀ w s w' state, J w s → L.waitForFreeProcess w s.state = some (w', state) →
    J w' { s with state := state }

/-- The consistency of the process table is itself such a property. -/
theorem Launcher.kept (L : Launcher n) : Kept L fun w s => L.Inv w s.state where
  inv _ _ h := h
  disable w s h := L.disable_inv w s.state h
  enable w s h := L.enable_inv w s.state h
  walk w s s' hCleaned h := L.inv_mono w s.state s'.state h hCleaned.running
  wait w s w' state h hWait := L.wait_inv w s.state w' state h hWait

theorem elapsed_wait {L : Launcher n} {w w' : L.World} {s : Sched n} {state : Fin n → RunningState}
    (hInv : L.Inv w s.state) (hWait : L.waitForFreeProcess w s.state = some (w', state)) :
    Elapsed s { s with state := state } := by
  refine ⟨fun p => ?_, fun _ => List.Sublist.refl _, fun _ _ hq => Or.inl hq⟩
  rcases L.wait_finishes w s.state w' state hInv hWait p with h | ⟨h, h'⟩
  · exact Or.inl h
  · exact Or.inr (Or.inl ⟨h, Or.inl h'⟩)

theorem Kept.setFor {L : Launcher n} {J : L.World → Sched n → Prop} (hJ : Kept L J)
    {category : Nat} {w : L.World} {s : Sched n} (h : J w s) : J (L.setFor category w) s := by
  unfold Launcher.setFor
  split
  · exact hJ.disable w s h
  · exact hJ.enable w s h

/-- What is known when the loop visits a category: the lists it has passed hold
nothing unless a plugin below DENIAL is being waited for, and the first three
lists are passed only when they are empty. -/
structure Visiting (category flag runningCategory : Nat) (s : Sched n) : Prop where
  early : ∀ c < category, c ≤ actSettings → s.list c = []
  first : category ≤ actGatherInfo → flag = 0
  passed : flag = 0 → ∀ c < category, s.list c = []
  waiting : flag ≠ 0 → category ≤ actDenial → runningCategory < actDenial
  barrier : actDenial ≤ category → ∀ c < actDenial, s.list c = []

/-- The result of a call of `plugins_scheduler_next`. -/
def NextResult (table : PluginTable n) (L : Launcher n) (J : L.World → Sched n → Prop)
    (s : Sched n) : Answer n → L.World → Sched n → Prop
  | .null, w', s' => Elapsed s s' ∧ J w' s' ∧ ∀ c ≤ actLast, s'.list c = []
  | .plugRunning, w', s' => Elapsed s s' ∧ J w' s'
  | .plugin p c, w', s' => ∃ mid w l, Elapsed s mid ∧ J w' mid ∧ w' = L.setFor c w ∧
      s' = startPlugin table mid p ∧ mid.state p = .unrun ∧ Ready table mid p ∧
      c ≤ actLast ∧ l ∈ mid.list c ∧ mid.state l = .unrun ∧ ReflTransGen table.Depends l p ∧
      (∀ c' < c, c' ≤ actSettings → mid.list c' = []) ∧
      (actDenial ≤ c → ∀ c' < actDenial, mid.list c' = [])

theorem NextResult.mono {L : Launcher n} {J : L.World → Sched n → Prop} {s mid : Sched n}
    {answer : Answer n} {w' : L.World} {s' : Sched n}
    (h : NextResult table L J mid answer w' s') (hMid : Elapsed s mid) :
    NextResult table L J s answer w' s' := by
  cases answer with
  | null => exact ⟨hMid.trans h.1, h.2⟩
  | plugRunning => exact ⟨hMid.trans h.1, h.2⟩
  | plugin p c =>
      obtain ⟨last, w, l, hLast, hRest⟩ := h
      exact ⟨last, w, l, hMid.trans hLast, hRest⟩

theorem Visiting.start (s : Sched n) : Visiting actFirst 0 actLast s where
  early _ hc := absurd hc (Nat.not_lt_zero _)
  first _ := rfl
  passed _ _ hc := absurd hc (Nat.not_lt_zero _)
  waiting h := absurd rfl h
  barrier h := absurd h (by decide)

/-- After a wait the same category is visited again. -/
theorem Visiting.again {category flag runningCategory : Nat} {s s' : Sched n}
    (h : Visiting category flag runningCategory s) (hLater : Elapsed s s')
    (hCategory : category ≤ actSettings) (runningCategory' : Nat) :
    Visiting category 0 runningCategory' s' where
  early c hc hle := hLater.empty (h.early c hc hle)
  first _ := rfl
  passed _ c hc := hLater.empty (h.early c hc (by omega))
  waiting hFlag := absurd rfl hFlag
  barrier hDenial := absurd hDenial (by simp only [actSettings, actDenial] at *; omega)

/-- The next category is visited when the walk ended neither in a wait nor in an
early answer. -/
theorem Visiting.next {category flag runningCategory flag' runningCategory' : Nat} {s s' : Sched n}
    (h : Visiting category flag runningCategory s) (hIndexed : Indexed table s)
    (hWalk : WalkResult table category s flag runningCategory [] (.exhausted flag' runningCategory' s'))
    (hNoWait : category ≤ actSettings → flag' = 0)
    (hNoAnswer : actDenial ≤ category + 1 → flag' ≠ 0 → actDenial ≤ runningCategory') :
    Visiting (category + 1) flag' runningCategory' s' := by
  obtain ⟨hCleaned, hMin, hEnd⟩ := hWalk
  have hEmpty : flag' = 0 → ∀ c < category + 1, s'.list c = [] := by
    intro hFlag c hc
    rcases hEnd with ⟨rfl, hNil⟩ | ⟨hLt, -⟩
    · rcases Nat.lt_succ_iff_lt_or_eq.mp hc with hc | rfl
      · exact hCleaned.empty (h.passed hFlag c hc)
      · exact hNil
    · omega
  have hWaiting : flag' ≠ 0 → category + 1 ≤ actDenial → runningCategory' < actDenial := by
    intro hFlag hCategory
    rcases hEnd with ⟨rfl, -⟩ | ⟨-, q, hq, hle⟩
    · exact lt_of_le_of_lt hMin (h.waiting hFlag (by omega))
    · have hIndex := hIndexed.elapsed hCleaned.toElapsed category q hq
      simp only [actDenial, actLast, actEnd] at *
      omega
  refine ⟨fun c hc hle => ?_, fun hle => ?_, hEmpty, hWaiting, fun hDenial c hc => ?_⟩
  · rcases Nat.lt_succ_iff_lt_or_eq.mp hc with hc | rfl
    · exact hCleaned.empty (h.early c hc hle)
    · exact hEmpty (hNoWait hle) c hc
  · exact hNoWait (by simp only [actGatherInfo, actSettings] at *; omega)
  · rcases Nat.lt_or_ge category actDenial with hCategory | hCategory
    · have hFlag : flag' = 0 := by
        by_contra hFlag
        exact absurd (hWaiting hFlag hCategory) (not_lt.mpr (hNoAnswer hDenial hFlag))
      exact hEmpty hFlag c (by omega)
    · exact hCleaned.empty (h.barrier hCategory c hc)

theorem schedulerLoop_result {L : Launcher n} {J : L.World → Sched n → Prop} (hJ : Kept L J)
    {fuel steps category flag runningCategory : Nat} {w : L.World} {s : Sched n}
    {answer : Answer n} {w' : L.World} {s' : Sched n}
    (hIndexed : Indexed table s) (hVisiting : Visiting category flag runningCategory s)
    (hInv : J w s)
    (h : schedulerLoop table L fuel steps category flag runningCategory w s =
      .ok (answer, w', s')) :
    NextResult table L J s answer w' s' := by
  induction steps generalizing category flag runningCategory w s with
  | zero => simp [schedulerLoop] at h
  | succ steps ih =>
      rw [schedulerLoop] at h
      split at h
      case isFalse hCategory =>
        obtain ⟨rfl, rfl, rfl⟩ : (if flag ≠ 0 then .plugRunning else .null) = answer ∧ w = w' ∧
            s = s' := by simpa using h
        rcases eq_or_ne flag 0 with rfl | hFlag
        · exact ⟨Elapsed.refl s, hInv, fun c hc => hVisiting.passed rfl c (by omega)⟩
        · simpa [hFlag] using ⟨Elapsed.refl s, hInv⟩
      case isTrue hCategory =>
        dsimp only at h
        have hSet : J (L.setFor category w) s := hJ.setFor hInv
        split at h
        case h_1 => simp at h
        case h_2 p mid hWalk =>
          obtain ⟨rfl, rfl, rfl⟩ : Answer.plugin p category = answer ∧
              L.setFor category w = w' ∧ mid = s' := by simpa using h
          obtain ⟨last, l, hCleaned, hStart, hUnrun, hReady, hl, hlUnrun, hPath⟩ :=
            listWalk_result hWalk
          rw [List.nil_append, withList_list] at hCleaned
          exact ⟨last, w, l, hCleaned.toElapsed, hJ.walk _ _ _ hCleaned hSet, rfl, hStart, hUnrun,
            hReady, hCategory, hl, hlUnrun, hPath,
            fun c hc hle => hCleaned.empty (hVisiting.early c hc hle),
            fun hDenial c hc => hCleaned.empty (hVisiting.barrier hDenial c hc)⟩
        case h_3 flag' runningCategory' mid hOver =>
          have hWalk := listWalk_result hOver
          rw [List.nil_append, withList_list] at hWalk
          have hMid : J (L.setFor category w) mid := hJ.walk _ _ _ hWalk.1 hSet
          split at h
          case isTrue hWaits =>
            split at h
            case h_1 => simp at h
            case h_2 w₁ state hWait =>
              have hLater : Elapsed s { mid with state := state } :=
                hWalk.1.toElapsed.trans (elapsed_wait (hJ.inv _ _ hMid) hWait)
              have hEarly : category ≤ actSettings := by
                simp only [actScanner, actInit, actSettings] at hWaits ⊢
                omega
              exact (ih (hIndexed.elapsed hLater) (hVisiting.again hLater hEarly _)
                (hJ.wait _ _ _ _ hMid hWait) h).mono hLater
          case isFalse hNoWait =>
            split at h
            case isTrue =>
              obtain ⟨rfl, rfl, rfl⟩ : Answer.plugRunning = answer ∧ L.setFor category w = w' ∧
                  mid = s' := by simpa using h
              exact ⟨hWalk.1.toElapsed, hMid⟩
            case isFalse hNoAnswer =>
              have hNext := hVisiting.next hIndexed hWalk
                (fun hle => by
                  simp only [actScanner, actInit, actSettings] at hNoWait hle
                  omega)
                (fun hDenial hFlag => by
                  by_contra hLt
                  exact hNoAnswer ⟨hDenial, hFlag, not_le.mp hLt⟩)
              exact (ih (hIndexed.elapsed hWalk.1.toElapsed) hNext hMid h).mono hWalk.1.toElapsed

/-- Every answer of `plugins_scheduler_next`, from any scheduler whose cells are
in their lists. -/
theorem pluginsSchedulerNext_result {L : Launcher n} {J : L.World → Sched n → Prop}
    (hJ : Kept L J) {fuel : Nat} {w : L.World} {s : Sched n} {answer : Answer n} {w' : L.World}
    {s' : Sched n} (hIndexed : Indexed table s) (hInv : J w s)
    (h : pluginsSchedulerNext table L fuel w s = .ok (answer, w', s')) :
    NextResult table L J s answer w' s' :=
  schedulerLoop_result hJ hIndexed (Visiting.start s) hInv h

end Scheduler
