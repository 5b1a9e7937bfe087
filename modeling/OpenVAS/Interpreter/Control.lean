import OpenVAS.Interpreter.BigStep

/-! The flags of the contexts realise the meaning of the statements. -/
namespace Interpreter

open StateComp

variable {B : Base}

theorem askWorld_apply {α : Type} (f : B.World → α) (σ : State B) : askWorld f σ = (some (f σ.world), σ) := rfl

theorem onWorld_apply {α : Type} (f : B.World → α × B.World) (σ : State B) :
    onWorld f σ = (some (f σ.world).1, { σ with world := (f σ.world).2 }) := rfl

/-! What the flags do. -/

/-- The end of a round: a `break` ends the loop, and a `continue` is over. -/
def afterBlock (next : M B (Option B.Cell)) : M B (Option B.Cell) := do
  let σ ← get
  if σ.lexic.breakFlag then do
    modify (·.setBreak false)
    return some .fake
  else do
    modify (·.setCont false)
    next

/-- The end of a round of a foreach loop. -/
def afterForeach (next : M B (Option B.Cell)) : M B (Option B.Cell) := do
  let σ ← get
  if σ.lexic.retVal.isSome then return some .fake
  else if σ.lexic.breakFlag then do
    modify (·.setBreak false)
    return some .fake
  else do
    modify (·.setCont false)
    next

/-- A foreach loop tests for a return value first; the rest is as in the other loops. -/
theorem afterForeach_apply (next : M B (Option B.Cell)) (σ : State B) :
    afterForeach next σ = if σ.left then (some (some .fake), σ) else afterBlock next σ := by
  rw [afterForeach, bind_of_some (get_apply σ), afterBlock, bind_of_some (get_apply σ)]
  unfold State.left
  split <;> rfl

theorem setBreak_eq {σ : State B} (h : σ.lexic.breakFlag = false) (flag : Bool) :
    (σ.setBreak flag).setBreak false = σ := by
  obtain ⟨world, ⟨retVal, fctCtxt, breakFlag, contFlag, functions⟩, up, calls, trace⟩ := σ
  cases h
  rfl

theorem setCont_eq {σ : State B} (h : σ.lexic.contFlag = false) (flag : Bool) :
    (σ.setCont flag).setCont false = σ := by
  obtain ⟨world, ⟨retVal, fctCtxt, breakFlag, contFlag, functions⟩, up, calls, trace⟩ := σ
  cases h
  rfl

/-- A pending `break` ends the loop and is taken away. -/
theorem afterBlock_break {σ : State B} (h : Settled .brk σ) (next : M B (Option B.Cell)) :
    afterBlock next (Completion.brk.pending σ) = (some (some .fake), σ) := by
  change (some (some Cell.fake), (σ.setBreak true).setBreak false) = _
  rw [setBreak_eq h.breakFlag]

/-- Any other completion goes on with the loop, without a pending `continue`. -/
theorem afterBlock_next {o : Completion} {σ : State B} (h : Settled o σ) (hOther : o ≠ .brk)
    (next : M B (Option B.Cell)) : afterBlock next (o.pending σ) = next σ := by
  have hFlag : (o.pending σ).lexic.breakFlag = false := by
    cases o with
    | brk => exact absurd rfl hOther
    | normal | cont | ret => exact h.breakFlag
  have hCont : (o.pending σ).setCont false = σ := by
    cases o with
    | brk => exact absurd rfl hOther
    | normal | ret => exact setCont_eq h.contFlag false
    | cont => exact setCont_eq h.contFlag true
  rw [afterBlock, bind_of_some (get_apply _), if_neg (ne_true_of_eq_false hFlag),
    bind_of_some (modify_apply _ _), hCont]

/-- A loop leaves no flag. -/
theorem loop_pending {o : Completion} (h : o = .normal ∨ o = .ret) (σ : State B) : o.pending σ = σ := by
  cases h with
  | inl hNormal =>
      rw [hNormal]
      rfl
  | inr hReturn =>
      rw [hReturn]
      rfl

theorem pending_left (o : Completion) (σ : State B) : (o.pending σ).left = σ.left := by
  cases o <;> rfl

/-- Once a function is left, everything returns its value at once. -/
theorem exec_of_left {σ : State B} (h : σ.left = true) (k : Nat) (st : Tree B) :
    naslExec (k + 1) st σ = (some σ.lexic.retVal, σ) := by
  unfold naslExec
  rw [bind_of_some (get_apply σ)]
  exact congrFun (if_pos h) σ

/-- Nothing happens once a function is left. -/
theorem eq_of_exec_left {σ τ : State B} (h : σ.left = true) {k : Nat} {st : Tree B} {c : Option B.Cell}
    (hRun : naslExec k st σ = (some c, τ)) : τ = σ := by
  cases k with
  | zero => cases hRun
  | succ k =>
      rw [exec_of_left h] at hRun
      exact (congrArg Prod.snd hRun).symm

/-- A node that is executed with nothing pending. -/
theorem exec_of_clear {σ : State B} (h : Clear σ) (k : Nat) {st : Tree B} (hNode : ∀ c, st ≠ .cell c) :
    naslExec (k + 1) st σ = execNode (naslExec k) k st (σ.enter st) := by
  unfold naslExec
  rw [bind_of_some (get_apply σ), h.retVal, h.breakFlag, h.contFlag]
  simp only [Option.isSome_none, Bool.false_eq_true, if_false, Bool.or_self]
  split
  · exact absurd rfl (hNode _)
  · exact absurd rfl (hNode _)
  · exact bind_of_some (modify_apply _ σ)

/-! The condition of a loop, with what follows if it holds. -/

def guarded (exec : Tree B → M B (Option B.Cell)) (fuel : Nat) (cond : Tree B)
    (body : M B (Option B.Cell)) : M B (Option B.Cell) := do
  let ret ← exec cond
  if ret.isNone then return none
  else do
    let flag ← cell2bool exec fuel (.cell ret)
    if !flag then return some .fake
    else body

/-- NULL is false. -/
theorem cond_of_guarded {k j : Nat} {cond : Tree B} {body : M B (Option B.Cell)} {σ τ : State B}
    {c : Option B.Cell} (h : guarded (naslExec k) j cond body σ = (some c, τ)) :
    ∃ b σ₁, Cond cond σ b σ₁ ∧ (b = false → τ = σ₁) ∧ (b = true → body σ₁ = (some c, τ)) := by
  obtain ⟨ret, σ₁, hExec, h⟩ := bind_eq_some.mp h
  split at h
  · rename_i hNone
    rw [Option.isNone_iff_eq_none] at hNone
    subst hNone
    cases h
    exact ⟨false, τ, ⟨k, 0, (bind_of_some hExec).trans rfl⟩, fun _ => rfl, fun h => nomatch h⟩
  · obtain ⟨flag, σ₂, hBool, h⟩ := bind_eq_some.mp h
    have hCond : Cond cond σ flag σ₂ := ⟨k, j, (bind_of_some hExec).trans hBool⟩
    cases flag with
    | false =>
        cases h
        exact ⟨false, τ, hCond, fun _ => rfl, fun h => nomatch h⟩
    | true => exact ⟨true, σ₂, hCond, fun h => (nomatch h), fun _ => h⟩

/-! What a loop does with nothing pending, and once the function is left. -/

section Rounds

variable {exec : Tree B → M B (Option B.Cell)} {cond endExpr block : Tree B} {σ : State B}

/-- A round of a while loop in a state where nothing is pending. -/
theorem whileLoop_of_clear (h : Clear σ) (fuel : Nat) :
    whileLoop exec cond block (fuel + 1) σ =
      guarded exec fuel cond (exec block >>= fun _ => afterBlock (whileLoop exec cond block fuel)) σ := by
  rw [whileLoop, bind_of_some (get_apply σ), h.retVal]
  rfl

/-- A round of a for loop in a state where nothing is pending. -/
theorem forLoop_of_clear (h : Clear σ) (fuel : Nat) :
    forLoop exec cond endExpr block (fuel + 1) σ =
      guarded exec fuel cond (exec block >>= fun _ => afterBlock (exec endExpr >>= fun _ =>
        forLoop exec cond endExpr block fuel)) σ := by
  rw [forLoop, bind_of_some (get_apply σ), h.retVal]
  rfl

/-- A round of a repeat loop in a state where nothing is pending. -/
theorem repeatLoop_of_clear (h : Clear σ) (fuel : Nat) :
    repeatLoop exec block cond (fuel + 1) σ =
      (exec block >>= fun _ => afterBlock (exec cond >>= fun ret => cell2bool exec fuel (.cell ret) >>= fun flag =>
        if flag then pure (some .fake) else repeatLoop exec block cond fuel)) σ := by
  rw [repeatLoop, bind_of_some (get_apply σ), h.retVal]
  rfl

/-- A foreach loop ends with its iterator. -/
theorem foreachLoop_end {v : B.Cell} {ai : B.Iterator} (hNext : σ.next ai = none) (fuel : Nat) :
    foreachLoop exec v block (fuel + 1) ai σ = (some (some .fake), σ) := by
  rw [foreachLoop, bind_of_some (askWorld_apply _ σ)]
  unfold State.next at hNext
  rw [hNext]
  rfl

/-- A round of a foreach loop assigns the next element and runs the block. -/
theorem foreachLoop_round {v val : B.Cell} {ai ai' : B.Iterator} (hNext : σ.next ai = some (val, ai'))
    (fuel : Nat) :
    foreachLoop exec v block (fuel + 1) ai σ =
      (exec block >>= fun _ => afterForeach (foreachLoop exec v block fuel ai'))
        (σ.affect (some v) (some val)) := by
  rw [foreachLoop, bind_of_some (askWorld_apply _ σ)]
  unfold State.next at hNext
  rw [hNext]
  rfl

/-- A while loop of a function that is left does nothing. -/
theorem whileLoop_of_left (h : σ.left = true) (fuel : Nat) :
    whileLoop exec cond block (fuel + 1) σ = (some σ.lexic.retVal, σ) := by
  rw [whileLoop, bind_of_some (get_apply σ)]
  exact congrFun (if_pos h) σ

/-- Nor does a for loop. -/
theorem forLoop_of_left (h : σ.left = true) (fuel : Nat) :
    forLoop exec cond endExpr block (fuel + 1) σ = (some σ.lexic.retVal, σ) := by
  rw [forLoop, bind_of_some (get_apply σ)]
  exact congrFun (if_pos h) σ

/-- Nor does a repeat loop. -/
theorem repeatLoop_of_left (h : σ.left = true) (fuel : Nat) :
    repeatLoop exec block cond (fuel + 1) σ = (some σ.lexic.retVal, σ) := by
  rw [repeatLoop, bind_of_some (get_apply σ)]
  exact congrFun (if_pos h) σ

end Rounds

/-! From a run to the meaning. -/

theorem eq_of_whileLoop_left {k j : Nat} {cond block : Tree B} {σ τ : State B} {c : Option B.Cell}
    (h : σ.left = true) (hRun : whileLoop (naslExec k) cond block j σ = (some c, τ)) : τ = σ := by
  cases j with
  | zero => cases hRun
  | succ j =>
      rw [whileLoop_of_left h] at hRun
      exact (congrArg Prod.snd hRun).symm

theorem eq_of_forLoop_left {k j : Nat} {cond endExpr block : Tree B} {σ τ : State B} {c : Option B.Cell}
    (h : σ.left = true) (hRun : forLoop (naslExec k) cond endExpr block j σ = (some c, τ)) : τ = σ := by
  cases j with
  | zero => cases hRun
  | succ j =>
      rw [forLoop_of_left h] at hRun
      exact (congrArg Prod.snd hRun).symm

theorem eq_of_repeatLoop_left {k j : Nat} {cond block : Tree B} {σ τ : State B} {c : Option B.Cell}
    (h : σ.left = true) (hRun : repeatLoop (naslExec k) block cond j σ = (some c, τ)) : τ = σ := by
  cases j with
  | zero => cases hRun
  | succ j =>
      rw [repeatLoop_of_left h] at hRun
      exact (congrArg Prod.snd hRun).symm

def atomTruth : B.Cell → Bool
  | .leaf v => B.truth v
  | _ => false

/-- The value of a function is tested as it is. -/
theorem cell2bool_atom {v : B.Cell} (h : v.isAtom = true) (exec : Tree B → M B (Option B.Cell)) (j : Nat) :
    cell2bool exec j (.cell (some v)) = pure (atomTruth v) := by
  cases v with
  | fake | leaf =>
      unfold cell2bool
      rfl
  | refVar v => cases h

/-- So the condition of a repeat loop is found to be whatever it is after a `return`. -/
theorem eq_of_cond_left {k j : Nat} {cond : Tree B} {σ σ₁ τ : State B} {ret : Option B.Cell} {b : Bool}
    (hSettled : Settled .ret σ) (hExec : naslExec k cond σ = (some ret, σ₁))
    (hBool : cell2bool (naslExec k) j (.cell ret) σ₁ = (some b, τ)) : τ = σ := by
  cases k with
  | zero => cases hExec
  | succ k =>
      obtain ⟨v, hv, hAtom⟩ := hSettled.retVal
      rw [exec_of_left hSettled.left, hv] at hExec
      cases hExec
      rw [cell2bool_atom hAtom] at hBool
      exact (congrArg Prod.snd hBool).symm

/-- A block that runs after `exit` was called in the condition of its loop. -/
theorem eq_of_block_left {k : Nat} {block : Tree B} {next : M B (Option B.Cell)} {σ τ : State B}
    {c : Option B.Cell} (hSettled : Settled .ret σ) (hNext : ∀ c τ, next σ = (some c, τ) → τ = σ)
    (h : (naslExec k block >>= fun _ => afterBlock next) σ = (some c, τ)) : τ = σ := by
  obtain ⟨ret, σ₁, hExec, hRest⟩ := bind_eq_some.mp h
  obtain rfl := eq_of_exec_left hSettled.left hExec
  have hAfter := afterBlock_next hSettled (by decide) next
  exact hNext c τ (hAfter.symm.trans hRest)

/-- What the interpreter does with a tree is what the tree means. -/
def Meant (k : Nat) (s : Tree B) : Prop := ∀ σ c τ, Clear σ → naslExec k s σ = (some c, τ) →
  ∃ o σ', BigStep (.tree s) σ o σ' ∧ τ = o.pending σ'

theorem goesOn_of_ne {o : Completion} (hBreak : o ≠ .brk) (hReturn : o ≠ .ret) : o.goesOn = true := by
  cases o with
  | normal | cont => rfl
  | brk => exact absurd rfl hBreak
  | ret => exact absurd rfl hReturn

section Meant

variable {k : Nat} {cond endExpr block : Tree B} (hStmt : IsStmt block) (hBlock : Meant k block)

include hStmt hBlock

/-- A while loop that returns does what the big-step rules say, by induction on its rounds. -/
theorem whileLoop_meant (hCond : IsExpr cond) {j : Nat} {σ τ : State B} {c : Option B.Cell} (hClear : Clear σ)
    (h : whileLoop (naslExec k) cond block j σ = (some c, τ)) :
    ∃ o, BigStep (.whileLoop cond block) σ o τ := by
  induction j generalizing σ with
  | zero => cases h
  | succ j ih =>
      rw [whileLoop_of_clear hClear] at h
      obtain ⟨b, σ₁, hTest, hFalse, hTrue⟩ := cond_of_guarded h
      have hKeeping := cond_keeping hCond hTest
      cases hLeft : σ₁.left with
      | true =>
          have hSettled := settled_of_left hClear hKeeping hLeft
          have hSame : τ = σ₁ := by
            cases b with
            | false => exact hFalse rfl
            | true => exact eq_of_block_left hSettled (fun _ _ => eq_of_whileLoop_left hLeft) (hTrue rfl)
          subst hSame
          exact ⟨.ret, BigStep.whileLeft hTest hLeft⟩
      | false =>
          have hClear₁ := clear_of_keeping hClear hKeeping hLeft
          cases b with
          | false =>
              obtain rfl := hFalse rfl
              exact ⟨.normal, BigStep.whileEnd hTest hLeft⟩
          | true =>
              obtain ⟨ret, _, hExec, hRest⟩ := bind_eq_some.mp (hTrue rfl)
              obtain ⟨o, σ₂, hStep, rfl⟩ := hBlock _ _ _ hClear₁ hExec
              have hSettled := bigStep_settled hStep hStmt hClear₁
              by_cases hBreak : o = .brk
              · subst hBreak
                rw [afterBlock_break hSettled] at hRest
                cases hRest
                exact ⟨.normal, BigStep.whileBreak hTest hLeft hStep⟩
              rw [afterBlock_next hSettled hBreak] at hRest
              by_cases hReturn : o = .ret
              · subst hReturn
                obtain rfl := eq_of_whileLoop_left hSettled.left hRest
                exact ⟨.ret, BigStep.whileReturn hTest hLeft hStep⟩
              · obtain ⟨o', hLoop⟩ := ih (hSettled.clear hReturn) hRest
                exact ⟨o', BigStep.whileNext hTest hLeft hStep (goesOn_of_ne hBreak hReturn) hLoop⟩

/-- So does a for loop. -/
theorem forLoop_meant (hCond : IsExpr cond) (hEnd : IsExpr endExpr) {j : Nat} {σ τ : State B}
    {c : Option B.Cell} (hClear : Clear σ)
    (h : forLoop (naslExec k) cond endExpr block j σ = (some c, τ)) :
    ∃ o, BigStep (.forLoop cond endExpr block) σ o τ := by
  -- Once the function is left, neither the end expression nor the loop does anything.
  have hDone : ∀ {j : Nat} {σ : State B}, σ.left = true → ∀ c τ, (naslExec k endExpr >>= fun _ =>
      forLoop (naslExec k) cond endExpr block j) σ = (some c, τ) → τ = σ := by
    intro j σ hLeft c τ hRun
    obtain ⟨ret, σ₁, hExec, hRest⟩ := bind_eq_some.mp hRun
    obtain rfl := eq_of_exec_left hLeft hExec
    exact eq_of_forLoop_left hLeft hRest
  induction j generalizing σ with
  | zero => cases h
  | succ j ih =>
      rw [forLoop_of_clear hClear] at h
      obtain ⟨b, σ₁, hTest, hFalse, hTrue⟩ := cond_of_guarded h
      have hKeeping := cond_keeping hCond hTest
      cases hLeft : σ₁.left with
      | true =>
          have hSettled := settled_of_left hClear hKeeping hLeft
          have hSame : τ = σ₁ := by
            cases b with
            | false => exact hFalse rfl
            | true => exact eq_of_block_left hSettled (hDone hLeft) (hTrue rfl)
          subst hSame
          exact ⟨.ret, BigStep.forCondLeft hTest hLeft⟩
      | false =>
          have hClear₁ := clear_of_keeping hClear hKeeping hLeft
          cases b with
          | false =>
              obtain rfl := hFalse rfl
              exact ⟨.normal, BigStep.forEnd hTest hLeft⟩
          | true =>
              obtain ⟨ret, _, hExec, hRest⟩ := bind_eq_some.mp (hTrue rfl)
              obtain ⟨o, σ₂, hStep, rfl⟩ := hBlock _ _ _ hClear₁ hExec
              have hSettled := bigStep_settled hStep hStmt hClear₁
              by_cases hBreak : o = .brk
              · subst hBreak
                rw [afterBlock_break hSettled] at hRest
                cases hRest
                exact ⟨.normal, BigStep.forBreak hTest hLeft hStep⟩
              rw [afterBlock_next hSettled hBreak] at hRest
              by_cases hReturn : o = .ret
              · subst hReturn
                obtain rfl := hDone hSettled.left _ _ hRest
                exact ⟨.ret, BigStep.forReturn hTest hLeft hStep⟩
              have hOn := goesOn_of_ne hBreak hReturn
              have hClear₂ := hSettled.clear hReturn
              obtain ⟨ret', σ₃, hExec', hLoop⟩ := bind_eq_some.mp hRest
              have hEval : Eval endExpr σ₂ ret' σ₃ := ⟨k, hExec'⟩
              cases hEndLeft : σ₃.left with
              | true =>
                  obtain rfl := eq_of_forLoop_left hEndLeft hLoop
                  exact ⟨.ret, BigStep.forEndLeft hTest hLeft hStep hOn hEval hEndLeft⟩
              | false =>
                  have hClear₃ := clear_of_keeping hClear₂ (eval_keeping hEnd hEval) hEndLeft
                  obtain ⟨o', hNext⟩ := ih hClear₃ hLoop
                  exact ⟨o', BigStep.forNext hTest hLeft hStep hOn hEval hEndLeft hNext⟩

/-- So does a repeat loop. -/
theorem repeatLoop_meant (hCond : IsExpr cond) {j : Nat} {σ τ : State B} {c : Option B.Cell} (hClear : Clear σ)
    (h : repeatLoop (naslExec k) block cond j σ = (some c, τ)) :
    ∃ o, BigStep (.repeatLoop block cond) σ o τ := by
  induction j generalizing σ with
  | zero => cases h
  | succ j ih =>
      rw [repeatLoop_of_clear hClear] at h
      obtain ⟨ret, _, hExec, hRest⟩ := bind_eq_some.mp h
      obtain ⟨o, σ₁, hStep, rfl⟩ := hBlock _ _ _ hClear hExec
      have hSettled := bigStep_settled hStep hStmt hClear
      by_cases hBreak : o = .brk
      · subst hBreak
        rw [afterBlock_break hSettled] at hRest
        cases hRest
        exact ⟨.normal, BigStep.repeatBreak hStep⟩
      rw [afterBlock_next hSettled hBreak] at hRest
      obtain ⟨ret', σ₂, hTest, hRest⟩ := bind_eq_some.mp hRest
      obtain ⟨flag, σ₃, hBool, hRest⟩ := bind_eq_some.mp hRest
      by_cases hReturn : o = .ret
      · subst hReturn
        obtain rfl := eq_of_cond_left hSettled hTest hBool
        have hSame : τ = σ₃ := by
          cases flag with
          | true => exact (congrArg Prod.snd hRest).symm
          | false => exact eq_of_repeatLoop_left hSettled.left hRest
        subst hSame
        exact ⟨.ret, BigStep.repeatReturn hStep⟩
      have hOn := goesOn_of_ne hBreak hReturn
      have hClear₁ := hSettled.clear hReturn
      have hHolds : Cond cond σ₁ flag σ₃ := ⟨k, j, (bind_of_some hTest).trans hBool⟩
      have hKeeping := cond_keeping hCond hHolds
      cases hLeft : σ₃.left with
      | true =>
          have hSame : τ = σ₃ := by
            cases flag with
            | true => exact (congrArg Prod.snd hRest).symm
            | false => exact eq_of_repeatLoop_left hLeft hRest
          subst hSame
          exact ⟨.ret, BigStep.repeatLeft hStep hOn hHolds hLeft⟩
      | false =>
          cases flag with
          | true =>
              cases hRest
              exact ⟨.normal, BigStep.repeatEnd hStep hOn hHolds hLeft⟩
          | false =>
              obtain ⟨o', hLoop⟩ := ih (clear_of_keeping hClear₁ hKeeping hLeft) hRest
              exact ⟨o', BigStep.repeatNext hStep hOn hHolds hLeft hLoop⟩

/-- So does a foreach loop, over what is left of the array. -/
theorem foreachLoop_meant {j : Nat} {v : B.Cell} {ai : B.Iterator} {σ τ : State B} {c : Option B.Cell}
    (hClear : Clear σ) (h : foreachLoop (naslExec k) v block j ai σ = (some c, τ)) :
    ∃ o, BigStep (.foreachLoop v block ai) σ o τ := by
  induction j generalizing σ ai with
  | zero => cases h
  | succ j ih =>
      cases hNext : σ.next ai with
      | none =>
          rw [foreachLoop_end hNext] at h
          cases h
          exact ⟨.normal, BigStep.foreachEnd hNext⟩
      | some found =>
          obtain ⟨val, ai'⟩ := found
          rw [foreachLoop_round hNext] at h
          obtain ⟨ret, _, hExec, hRest⟩ := bind_eq_some.mp h
          obtain ⟨o, σ₁, hStep, rfl⟩ := hBlock _ _ _ (hClear.affect _ _) hExec
          have hSettled := bigStep_settled hStep hStmt (hClear.affect _ _)
          rw [afterForeach_apply, pending_left] at hRest
          by_cases hReturn : o = .ret
          · subst hReturn
            rw [if_pos hSettled.left] at hRest
            cases hRest
            exact ⟨.ret, BigStep.foreachReturn hNext hStep⟩
          have hClear₁ := hSettled.clear hReturn
          rw [if_neg (ne_true_of_eq_false hClear₁.left)] at hRest
          by_cases hBreak : o = .brk
          · subst hBreak
            rw [afterBlock_break hSettled] at hRest
            cases hRest
            exact ⟨.normal, BigStep.foreachBreak hNext hStep⟩
          rw [afterBlock_next hSettled hBreak] at hRest
          obtain ⟨o', hLoop⟩ := ih hClear₁ hRest
          exact ⟨o', BigStep.foreachNext hNext hStep (goesOn_of_ne hBreak hReturn) hLoop⟩

end Meant

/-- An empty tail, or an else branch that is not there. -/
theorem bigStep_empty {σ : State B} (h : Clear σ) : BigStep (.tree (.cell none)) σ .normal σ := by
  have hEval : Eval (.cell none) σ none σ := by
    refine ⟨1, ?_⟩
    unfold naslExec
    rw [bind_of_some (get_apply σ), h.retVal, h.breakFlag, h.contFlag]
    rfl
  have hStep := BigStep.expr (isExpr_cell none) (by simp) hEval
  rwa [completion_of_not_left h.left] at hStep

/-- If `exit` was called for the array then one element is assigned. -/
theorem eq_of_foreachLoop_left {k j : Nat} {v : B.Cell} {block : Tree B} {a : Option B.Cell} {σ τ : State B}
    {c : Option B.Cell} (h : σ.left = true)
    (hRun : foreachLoop (naslExec k) v block j (B.naslArrayIterator a σ.world) σ = (some c, τ)) :
    τ = σ.affectFirst v a := by
  cases j with
  | zero => cases hRun
  | succ j =>
      unfold State.affectFirst
      cases hNext : σ.next (B.naslArrayIterator a σ.world) with
      | none =>
          rw [foreachLoop_end hNext] at hRun
          exact (congrArg Prod.snd hRun).symm
      | some found =>
          obtain ⟨val, ai'⟩ := found
          rw [foreachLoop_round hNext] at hRun
          obtain ⟨ret, σ₁, hExec, hRest⟩ := bind_eq_some.mp hRun
          obtain rfl := eq_of_exec_left (σ := σ.affect (some v) (some val)) h hExec
          rw [afterForeach_apply, if_pos (by exact h)] at hRest
          exact (congrArg Prod.snd hRest).symm

/-- Whatever the interpreter does with a statement is what the statement means. -/
theorem naslExec_meant {s : Tree B} (hs : IsStmt s) (k : Nat) : Meant k s := by
  induction k generalizing s with
  | zero =>
      intro _ _ _ _ h
      cases h
  | succ k ih =>
      intro σ c τ hClear h
      cases hs with
      | expr he =>
          by_cases hAff : ∃ l r, s = .nodeAff l r
          · obtain ⟨l, r, rfl⟩ := hAff
            rw [exec_of_clear hClear k (by simp)] at h
            obtain ⟨tc1, σ₁, hLeft, h⟩ := bind_eq_some.mp h
            obtain ⟨tc2, σ₂, hRight, h⟩ := bind_eq_some.mp h
            cases h
            exact ⟨_, _, BigStep.assign ⟨k, hLeft⟩ ⟨k, hRight⟩, (completion_pending _ _).symm⟩
          · have hOther : ∀ l r, s ≠ .nodeAff l r := fun l r hEq => hAff ⟨l, r, hEq⟩
            exact ⟨_, _, BigStep.expr he hOther ⟨k + 1, h⟩, (completion_pending _ _).symm⟩
      | breakStmt =>
          rw [exec_of_clear hClear k (by simp)] at h
          cases h
          exact ⟨.brk, _, BigStep.breakStmt, rfl⟩
      | continueStmt =>
          rw [exec_of_clear hClear k (by simp)] at h
          cases h
          exact ⟨.cont, _, BigStep.continueStmt, rfl⟩
      | returnStmt hRetVal =>
          rw [exec_of_clear hClear k (by simp), execNode, naslReturn_eq] at h
          obtain ⟨retv, σ₁, hAtom, h⟩ := bind_eq_some.mp h
          cases h
          exact ⟨.ret, _, BigStep.returnStmt ⟨k, k, hAtom⟩, rfl⟩
      | whileStmt hCond hBlock =>
          rw [exec_of_clear hClear k (by simp)] at h
          obtain ⟨o, hLoop⟩ := whileLoop_meant hBlock (ih hBlock) hCond (hClear.enter _) h
          exact ⟨o, τ, BigStep.whileStmt hLoop, (loop_pending (completion_of_loop hLoop rfl) τ).symm⟩
      | repeatStmt hBlock hCond =>
          rw [exec_of_clear hClear k (by simp)] at h
          obtain ⟨o, hLoop⟩ := repeatLoop_meant hBlock (ih hBlock) hCond (hClear.enter _) h
          exact ⟨o, τ, BigStep.repeatStmt hLoop, (loop_pending (completion_of_loop hLoop rfl) τ).symm⟩
      | forStmt hStart hCond hEnd hBlock =>
          rw [exec_of_clear hClear k (by simp)] at h
          obtain ⟨ret, σ₁, hExec, h⟩ := bind_eq_some.mp h
          have hEval : Eval _ _ ret σ₁ := ⟨k, hExec⟩
          cases hLeft : σ₁.left with
          | true =>
              obtain rfl := eq_of_forLoop_left hLeft h
              exact ⟨.ret, τ, BigStep.forLeft hEval hLeft, rfl⟩
          | false =>
              have hClear₁ := clear_of_keeping (hClear.enter _) (eval_keeping hStart hEval) hLeft
              obtain ⟨o, hLoop⟩ := forLoop_meant hBlock (ih hBlock) hCond hEnd hClear₁ h
              exact ⟨o, τ, BigStep.forStmt hEval hLeft hLoop, (loop_pending (completion_of_loop hLoop rfl) τ).symm⟩
      | instrL hFirst hTail =>
          rename_i first tail
          rw [exec_of_clear hClear k (by simp)] at h
          obtain ⟨ret, _, hExec, h⟩ := bind_eq_some.mp h
          obtain ⟨o, σ₁, hStep, rfl⟩ := ih hFirst _ _ _ (hClear.enter _) hExec
          have hSettled := bigStep_settled hStep hFirst (hClear.enter _)
          rw [bind_of_some (get_apply _)] at h
          split at h
          · cases h
            by_cases hNormal : o = .normal
            · subst hNormal
              exact ⟨.normal, σ₁, BigStep.seqNext hStep (bigStep_empty (hSettled.clear (by decide))), rfl⟩
            · exact ⟨o, σ₁, BigStep.seqStop hStep hNormal, rfl⟩
          split at h
          · rename_i hFlag
            cases h
            refine ⟨o, σ₁, BigStep.seqStop hStep ?_, rfl⟩
            rintro rfl
            change (σ₁.lexic.breakFlag || σ₁.lexic.contFlag) = true at hFlag
            rw [hSettled.breakFlag, hSettled.contFlag] at hFlag
            cases hFlag
          · rename_i hFlag
            cases o with
            | brk => exact absurd rfl hFlag
            | cont =>
                rw [Bool.or_eq_true] at hFlag
                exact absurd (Or.inr rfl) hFlag
            | ret =>
                obtain rfl := eq_of_exec_left hSettled.left h
                exact ⟨.ret, τ, BigStep.seqStop hStep (by decide), rfl⟩
            | normal =>
                obtain ⟨o', σ₂, hRest, rfl⟩ := ih hTail _ _ _ (hSettled.clear (by decide)) h
                exact ⟨o', σ₂, BigStep.seqNext hStep hRest, rfl⟩
      | ifElse hCond hIf hElse =>
          rw [exec_of_clear hClear k (by simp)] at h
          obtain ⟨ret, σ₁, hExec, h⟩ := bind_eq_some.mp h
          obtain ⟨flag, σ₂, hBool, h⟩ := bind_eq_some.mp h
          have hHolds : Cond _ _ flag σ₂ := ⟨k, k, (bind_of_some hExec).trans hBool⟩
          have hKeeping := cond_keeping hCond hHolds
          cases hLeft : σ₂.left with
          | true =>
              have hSame : τ = σ₂ := by
                split at h
                · exact eq_of_exec_left hLeft h
                · split at h
                  · exact (congrArg Prod.snd h).symm
                  · exact eq_of_exec_left hLeft h
              subst hSame
              exact ⟨.ret, τ, BigStep.ifLeft hHolds hLeft, rfl⟩
          | false =>
              have hClear₂ := clear_of_keeping (hClear.enter _) hKeeping hLeft
              cases flag with
              | true =>
                  obtain ⟨o, σ₃, hStep, rfl⟩ := ih hIf _ _ _ hClear₂ h
                  exact ⟨o, σ₃, BigStep.ifTrue hHolds hLeft hStep, rfl⟩
              | false =>
                  rw [if_neg Bool.false_ne_true] at h
                  split at h
                  · cases h
                    exact ⟨.normal, τ, BigStep.ifFalse hHolds hLeft (bigStep_empty hClear₂), rfl⟩
                  · obtain ⟨o, σ₃, hStep, rfl⟩ := ih hElse _ _ _ hClear₂ h
                    exact ⟨o, σ₃, BigStep.ifFalse hHolds hLeft hStep, rfl⟩
      | foreachStmt hArray hBlock =>
          rename_i index array block
          rw [exec_of_clear hClear k (by simp), execNode, bind_of_some (onWorld_apply _ _)] at h
          cases hIndex : (σ.enter (.nodeForeach index array block)).index index with
          | none =>
              unfold State.index at hIndex
              rw [hIndex] at h
              cases h
              exact ⟨.normal, _, BigStep.foreachNone hIndex, rfl⟩
          | some v =>
              unfold State.index at hIndex
              rw [hIndex] at h
              obtain ⟨a, σ₁, hExec, h⟩ := bind_eq_some.mp h
              rw [bind_of_some (askWorld_apply _ σ₁)] at h
              have hEval : Eval array ((σ.enter (.nodeForeach index array block)).indexed index) a σ₁ := ⟨k, hExec⟩
              cases hLeft : σ₁.left with
              | true =>
                  obtain rfl := eq_of_foreachLoop_left hLeft h
                  exact ⟨.ret, _, BigStep.foreachLeft hIndex hEval hLeft, rfl⟩
              | false =>
                  have hClear₁ := clear_of_keeping ((hClear.enter _).indexed _) (eval_keeping hArray hEval) hLeft
                  obtain ⟨o, hLoop⟩ := foreachLoop_meant hBlock (ih hBlock) hClear₁ h
                  exact ⟨o, τ, BigStep.foreachStmt hIndex hEval hLeft hLoop,
                    (loop_pending (completion_of_loop hLoop rfl) τ).symm⟩

end Interpreter
