import OpenVAS.Interpreter.Control

/-! What a statement means is what the interpreter does, given enough fuel. -/
namespace Interpreter

open StateComp

variable {B : Base}

/-! Expressions. -/

theorem cells_le {k k' : Nat} (h : k ≤ k') (c : Option B.Cell) :
    Le (naslExec k (.cell c)) (naslExec k' (.cell c)) := naslExec_le h (.cell c)

/-- An expression that means a cell is executed to it with enough fuel. -/
theorem eval_converges {e : Tree B} {σ τ : State B} {c : Option B.Cell} (h : Eval e σ c τ) :
    Converges (fun k _ => naslExec k e) σ c τ := by
  obtain ⟨k, hRun⟩ := h
  exact Converges.of_le (j := 0) (fun k k' _ _ hk _ => naslExec_le hk e) hRun

/-- So is an atom by `cell2atom`. -/
theorem atom_converges {e : Tree B} {σ τ : State B} {c : Option B.Cell} (h : Atom e σ c τ) :
    Converges (fun k j => cell2atom (naslExec k) j e) σ c τ := by
  obtain ⟨k, j, hRun⟩ := h
  exact Converges.of_le (fun k k' j j' hk hj =>
    cell2atom_related le_framed (cells_le hk) (naslExec_le hk e) hj) hRun

/-- A condition is evaluated and then converted. -/
theorem cond_converges {e : Tree B} {σ τ : State B} {b : Bool} (h : Cond e σ b τ) :
    ∃ ret σ₁, Converges (fun k _ => naslExec k e) σ ret σ₁ ∧
      Converges (fun k j => cell2bool (naslExec k) j (.cell ret)) σ₁ b τ := by
  obtain ⟨k, j, hRun⟩ := h
  obtain ⟨ret, σ₁, hExec, hBool⟩ := bind_eq_some.mp hRun
  have hMono : ∀ k k' j j' : Nat, k ≤ k' → j ≤ j' →
      Le (cell2bool (naslExec k) j (.cell ret)) (cell2bool (naslExec k') j' (.cell (B := B) ret)) :=
    fun k k' j j' hk hj => cell2bool_related le_framed (cells_le hk) (cells_le hk ret) hj
  exact ⟨ret, σ₁, eval_converges ⟨k, hExec⟩, Converges.of_le hMono hBool⟩

/-- Once a function is left, everything converges to its value. -/
theorem left_converges {σ : State B} (h : σ.left = true) (st : Tree B) :
    Converges (fun k _ => naslExec k st) σ σ.lexic.retVal σ := by
  refine ⟨1, fun k hk j _ => ?_⟩
  obtain ⟨k, rfl⟩ := Nat.exists_eq_succ_of_ne_zero (show k ≠ 0 by omega)
  exact exec_of_left h k st

/-- The step from a node to its execution. -/
theorem node_converges {st : Tree B} {σ τ : State B} {c : Option B.Cell} (hClear : Clear σ)
    (hNode : ∀ c, st ≠ .cell c) (h : Converges (fun k j => execNode (naslExec k) j st) (σ.enter st) c τ) :
    Converges (fun k _ => naslExec k st) σ c τ := by
  obtain ⟨n, hRun⟩ := h
  refine ⟨n + 1, fun k hk j _ => ?_⟩
  obtain ⟨k, rfl⟩ := Nat.exists_eq_succ_of_ne_zero (show k ≠ 0 by omega)
  exact (exec_of_clear hClear k hNode).trans (hRun k (by omega) k (by omega))

/-! Conditions of loops. -/

section Guarded

variable {cond block : Tree B} {σ σ₁ τ : State B}

/-- A round is entered where the condition holds, and runs as its body does. -/
theorem guarded_converges {body : Nat → Nat → M B (Option B.Cell)} {c : Option B.Cell}
    (hCond : Cond cond σ true σ₁) (hBody : Converges body σ₁ c τ) :
    Converges (fun k j => guarded (naslExec k) j cond (body k j)) σ c τ := by
  obtain ⟨ret, σ', hExec, hBool⟩ := cond_converges hCond
  apply hExec.bind
  cases ret with
  | none =>
      obtain ⟨n, hRun⟩ := hBool
      have hFalse := hRun n (Nat.le_refl n) n (Nat.le_refl n)
      unfold cell2bool at hFalse
      cases hFalse
  | some ret => exact hBool.bind hBody

/-- The loop ends where the condition fails. -/
theorem guarded_false (body : Nat → Nat → M B (Option B.Cell)) (hCond : Cond cond σ false σ₁) :
    ∃ c, Converges (fun k j => guarded (naslExec k) j cond (body k j)) σ c σ₁ := by
  obtain ⟨ret, σ', hExec, hBool⟩ := cond_converges hCond
  cases ret with
  | none =>
      obtain ⟨n, hRun⟩ := hBool
      have hSame := hRun n (Nat.le_refl n) n (Nat.le_refl n)
      unfold cell2bool at hSame
      cases hSame
      exact ⟨none, hExec.bind (Converges.of_eq fun k j => rfl)⟩
  | some ret =>
      exact ⟨some .fake, hExec.bind (hBool.bind (Converges.of_eq fun k j => rfl))⟩

/-- Behind a block that does not break, the loop goes on. -/
theorem afterBlock_converges {next : Nat → Nat → M B (Option B.Cell)} {o : Completion} {c : Option B.Cell}
    (hSettled : Settled o σ) (hOther : o ≠ .brk) (hNext : Converges next σ c τ) :
    Converges (fun k j => afterBlock (next k j)) (o.pending σ) c τ := by
  obtain ⟨n, hRun⟩ := hNext
  exact ⟨n, fun k hk j hj => (afterBlock_next hSettled hOther _).trans (hRun k hk j hj)⟩

/-- Behind a block that breaks, the loop ends with its flag taken away. -/
theorem afterBlock_broken (next : Nat → Nat → M B (Option B.Cell)) (hSettled : Settled .brk σ) :
    Converges (fun k j => afterBlock (next k j)) (Completion.brk.pending σ) (some .fake) σ :=
  Converges.of_eq fun _ _ => afterBlock_break hSettled _

/-- If `exit` is called in the condition then the loop ends, whatever the condition is found to be. -/
theorem guarded_left {next : Nat → Nat → M B (Option B.Cell)} {b : Bool} (hCond : Cond cond σ b σ₁)
    (hSettled : Settled .ret σ₁) (hNext : ∃ c, Converges next σ₁ c σ₁) :
    ∃ c, Converges (fun k j => guarded (naslExec k) j cond
      (naslExec k block >>= fun _ => afterBlock (next k j))) σ c σ₁ := by
  cases b with
  | false => exact guarded_false _ hCond
  | true =>
      obtain ⟨c, hRun⟩ := hNext
      exact ⟨c, guarded_converges hCond ((left_converges hSettled.left block).bind
        (afterBlock_converges hSettled (by decide) hRun))⟩

end Guarded

/-! Parts that may be missing. -/

/-- A link that is NULL. -/
def Tree.isEmpty : Tree B → Bool
  | .cell none => true
  | _ => false

theorem eq_of_isEmpty {t : Tree B} (h : t.isEmpty = true) : t = .cell none := by
  unfold Tree.isEmpty at h
  split at h
  · rfl
  · cases h

/-- What comes after the first statement of a block. -/
def restOf (exec : Tree B → M B (Option B.Cell)) (tail : Tree B) (ret : Option B.Cell) :
    M B (Option B.Cell) := do
  let σ ← get
  if tail.isEmpty || σ.lexic.breakFlag || σ.lexic.contFlag then return ret else exec tail

theorem execNode_instrL (exec : Tree B → M B (Option B.Cell)) (fuel : Nat) (first tail : Tree B) :
    execNode exec fuel (.nodeInstrL first tail) = exec first >>= restOf exec tail := by
  cases tail with
  | cell c => cases c <;> rfl
  | _ => rfl

def elseOf (exec : Tree B → M B (Option B.Cell)) (elseBlock : Tree B) : M B (Option B.Cell) :=
  if elseBlock.isEmpty then pure (some .fake) else exec elseBlock

theorem execNode_ifElse (exec : Tree B → M B (Option B.Cell)) (fuel : Nat) (cond ifBlock elseBlock : Tree B) :
    execNode exec fuel (.nodeIfElse cond ifBlock elseBlock) = (do
      let ret ← exec cond
      let flag ← cell2bool exec fuel (.cell ret)
      if flag then exec ifBlock else elseOf exec elseBlock) := by
  cases elseBlock with
  | cell c => cases c <;> rfl
  | _ => rfl

/-- Nothing is what an empty statement means. -/
theorem eq_of_empty {σ τ : State B} {o : Completion} (h : BigStep (.tree (.cell none)) σ o τ) (hClear : Clear σ) :
    o = .normal ∧ τ = σ := by
  cases h with
  | expr he hOther hEval =>
      obtain ⟨k, hRun⟩ := hEval
      cases k with
      | zero => cases hRun
      | succ k =>
          unfold naslExec at hRun
          rw [bind_of_some (get_apply σ), hClear.retVal, hClear.breakFlag, hClear.contFlag] at hRun
          cases hRun
          exact ⟨completion_of_not_left hClear.left, rfl⟩

/-! Tasks. -/

def runTask : Task B → Nat → Nat → M B (Option B.Cell)
  | .tree s, k, _ => naslExec k s
  | .forLoop cond endExpr block, k, j => forLoop (naslExec k) cond endExpr block j
  | .whileLoop cond block, k, j => whileLoop (naslExec k) cond block j
  | .repeatLoop block cond, k, j => repeatLoop (naslExec k) block cond j
  | .foreachLoop v block ai, k, j => foreachLoop (naslExec k) v block j ai

section Rounds

variable {cond endExpr block : Tree B} {σ τ : State B} {c : Option B.Cell}

/-- One round of a while loop, from a state where nothing is pending. -/
theorem while_converges (hClear : Clear σ)
    (h : Converges (fun k j => guarded (naslExec k) j cond (naslExec k block >>= fun _ =>
      afterBlock (runTask (Task.whileLoop cond block) k j))) σ c τ) :
    Converges (runTask (Task.whileLoop cond block)) σ c τ := by
  obtain ⟨n, hRun⟩ := h
  exact Converges.succ ⟨n, fun k hk j hj => (whileLoop_of_clear hClear j).trans (hRun k hk j hj)⟩

/-- One round of a for loop. -/
theorem for_converges (hClear : Clear σ)
    (h : Converges (fun k j => guarded (naslExec k) j cond (naslExec k block >>= fun _ =>
      afterBlock (naslExec k endExpr >>= fun _ => runTask (Task.forLoop cond endExpr block) k j))) σ c τ) :
    Converges (runTask (Task.forLoop cond endExpr block)) σ c τ := by
  obtain ⟨n, hRun⟩ := h
  exact Converges.succ ⟨n, fun k hk j hj => (forLoop_of_clear hClear j).trans (hRun k hk j hj)⟩

/-- One round of a repeat loop, which tests its condition behind the block. -/
theorem repeat_converges (hClear : Clear σ)
    (h : Converges (fun k j => naslExec k block >>= fun _ => afterBlock (naslExec k cond >>= fun ret =>
      cell2bool (naslExec k) j (.cell ret) >>= fun flag =>
        if flag then pure (some .fake) else runTask (Task.repeatLoop block cond) k j)) σ c τ) :
    Converges (runTask (Task.repeatLoop block cond)) σ c τ := by
  obtain ⟨n, hRun⟩ := h
  exact Converges.succ ⟨n, fun k hk j hj => (repeatLoop_of_clear hClear j).trans (hRun k hk j hj)⟩

/-- One round of a foreach loop, for the element that the iterator gives. -/
theorem foreach_converges {v val : B.Cell} {ai ai' : B.Iterator} (hNext : σ.next ai = some (val, ai'))
    (h : Converges (fun k j => naslExec k block >>= fun _ =>
      afterForeach (runTask (Task.foreachLoop v block ai') k j)) (σ.affect (some v) (some val)) c τ) :
    Converges (runTask (Task.foreachLoop v block ai)) σ c τ := by
  obtain ⟨n, hRun⟩ := h
  exact Converges.succ ⟨n, fun k hk j hj => (foreachLoop_round hNext j).trans (hRun k hk j hj)⟩

/-- Once the function is left, a loop does nothing. -/
theorem loop_left {m : Nat → Nat → M B (Option B.Cell)}
    (h : ∀ k j, m k (j + 1) σ = (some σ.lexic.retVal, σ)) : ∃ c, Converges m σ c σ :=
  ⟨_, Converges.succ (Converges.of_eq h)⟩

end Rounds

/-- The rest of a block is not run behind a statement that completes otherwise. -/
theorem restOf_stops {o : Completion} {σ : State B} (hSettled : Settled o σ) (hStop : o ≠ .normal) (tail : Tree B)
    (ret : Option B.Cell) : ∃ c, Converges (fun k _ => restOf (naslExec k) tail ret) (o.pending σ) c (o.pending σ) := by
  cases hEmpty : tail.isEmpty with
  | true =>
      refine ⟨ret, Converges.of_eq fun k _ => ?_⟩
      rw [restOf, bind_of_some (get_apply _), hEmpty]
      rfl
  | false =>
      cases o with
      | normal => exact absurd rfl hStop
      | brk =>
          refine ⟨ret, Converges.of_eq fun k _ => ?_⟩
          rw [restOf, bind_of_some (get_apply _), hEmpty]
          rfl
      | cont =>
          refine ⟨ret, Converges.of_eq fun k _ => ?_⟩
          rw [restOf, bind_of_some (get_apply _), if_pos]
          · rfl
          · rw [Bool.or_eq_true]
            exact Or.inr rfl
      | ret =>
          obtain ⟨n, hRun⟩ := left_converges hSettled.left tail
          refine ⟨σ.lexic.retVal, n, fun k hk j hj => ?_⟩
          change restOf (naslExec k) tail ret σ = _
          rw [restOf, bind_of_some (get_apply _), hEmpty, if_neg]
          · exact hRun k hk j hj
          · rw [hSettled.breakFlag, hSettled.contFlag]
            exact Bool.false_ne_true

/-- The rest of a block is run behind a statement that completes normally. -/
theorem restOf_runs {tail : Tree B} {o : Completion} {σ τ : State B} {c : Option B.Cell} (hClear : Clear σ)
    (hTail : BigStep (.tree tail) σ o τ) (hRun : Converges (fun k _ => naslExec k tail) σ c (o.pending τ))
    (ret : Option B.Cell) : ∃ c, Converges (fun k _ => restOf (naslExec k) tail ret) σ c (o.pending τ) := by
  cases hEmpty : tail.isEmpty with
  | true =>
      obtain rfl := eq_of_isEmpty hEmpty
      obtain ⟨rfl, rfl⟩ := eq_of_empty hTail hClear
      exact ⟨ret, Converges.of_eq fun k _ => rfl⟩
  | false =>
      obtain ⟨n, hRun⟩ := hRun
      refine ⟨c, n, fun k hk j hj => ?_⟩
      change restOf (naslExec k) tail ret σ = _
      rw [restOf, bind_of_some (get_apply _), hEmpty, hClear.breakFlag, hClear.contFlag]
      exact hRun k hk j hj

/-- The other block of a condition runs as it means. -/
theorem elseOf_runs {elseBlock : Tree B} {o : Completion} {σ τ : State B} {c : Option B.Cell} (hClear : Clear σ)
    (hElse : BigStep (.tree elseBlock) σ o τ)
    (hRun : Converges (fun k _ => naslExec k elseBlock) σ c (o.pending τ)) :
    ∃ c, Converges (fun k _ => elseOf (naslExec k) elseBlock) σ c (o.pending τ) := by
  unfold elseOf
  cases hEmpty : elseBlock.isEmpty with
  | true =>
      obtain rfl := eq_of_isEmpty hEmpty
      obtain ⟨rfl, rfl⟩ := eq_of_empty hElse hClear
      exact ⟨some .fake, Converges.of_eq fun k _ => rfl⟩
  | false => exact ⟨c, hRun⟩

theorem elseOf_left {σ : State B} (h : σ.left = true) (elseBlock : Tree B) :
    ∃ c, Converges (fun k _ => elseOf (naslExec k) elseBlock) σ c σ := by
  unfold elseOf
  cases hEmpty : elseBlock.isEmpty with
  | true => exact ⟨some .fake, Converges.of_eq fun k _ => rfl⟩
  | false => exact ⟨_, left_converges h elseBlock⟩

/-- The condition of a statement, with what follows. -/
theorem ifElse_converges {cond ifBlock elseBlock : Tree B} {b : Bool} {σ σ₁ τ : State B} {c : Option B.Cell}
    (hClear : Clear σ) (hCond : Cond cond (σ.enter (.nodeIfElse cond ifBlock elseBlock)) b σ₁)
    (hBranch : Converges (fun k _ => if b then naslExec k ifBlock else elseOf (naslExec k) elseBlock) σ₁ c τ) :
    Converges (fun k _ => naslExec k (.nodeIfElse cond ifBlock elseBlock)) σ c τ := by
  obtain ⟨ret, σ', hExec, hBool⟩ := cond_converges hCond
  apply node_converges hClear (by nofun)
  simp only [execNode_ifElse]
  exact hExec.bind (hBool.bind hBranch)

theorem forRest_left {cond endExpr block : Tree B} {σ : State B} (h : σ.left = true) :
    ∃ c, Converges (fun k j => naslExec k endExpr >>= fun _ => runTask (Task.forLoop cond endExpr block) k j)
      σ c σ := by
  obtain ⟨c, hLoop⟩ := loop_left fun k j => @forLoop_of_left B (naslExec k) cond endExpr block σ h j
  exact ⟨c, (left_converges h endExpr).bind hLoop⟩

/-- Neither does the condition of a repeat loop, nor what comes after it. -/
theorem repeatRest_left {cond block : Tree B} {σ : State B} (h : Settled .ret σ) :
    ∃ c, Converges (fun k j => naslExec k cond >>= fun ret => cell2bool (naslExec k) j (.cell ret) >>= fun flag =>
      if flag then pure (some .fake) else runTask (Task.repeatLoop block cond) k j) σ c σ := by
  obtain ⟨v, hv, hAtom⟩ := h.retVal
  obtain ⟨c, hLoop⟩ := loop_left fun k j => @repeatLoop_of_left B (naslExec k) cond block σ h.left j
  have hExec := left_converges h.left cond
  rw [hv] at hExec
  have hBool : Converges (fun k j => cell2bool (naslExec k) j (.cell (some v))) σ (atomTruth v) σ :=
    Converges.of_eq fun k j => by rw [cell2bool_atom hAtom]; rfl
  cases hTruth : atomTruth v with
  | true =>
      rw [hTruth] at hBool
      exact ⟨some .fake, hExec.bind (hBool.bind (Converges.of_eq fun _ _ => rfl))⟩
  | false =>
      rw [hTruth] at hBool
      exact ⟨c, hExec.bind (hBool.bind hLoop)⟩

/-- A foreach loop goes on like the others where the function is not left. -/
theorem afterForeach_converges {next : Nat → Nat → M B (Option B.Cell)} {o : Completion} {σ τ : State B}
    {c : Option B.Cell} (hStays : σ.left = false)
    (h : Converges (fun k j => afterBlock (next k j)) (o.pending σ) c τ) :
    Converges (fun k j => afterForeach (next k j)) (o.pending σ) c τ := by
  obtain ⟨n, hRun⟩ := h
  refine ⟨n, fun k hk j hj => ?_⟩
  change afterForeach (next k j) (o.pending σ) = _
  rw [afterForeach_apply, pending_left, if_neg (ne_true_of_eq_false hStays)]
  exact hRun k hk j hj

/-- A foreach loop ends where the function is left. -/
theorem afterForeach_left (next : Nat → Nat → M B (Option B.Cell)) {σ : State B} (h : σ.left = true) :
    Converges (fun k j => afterForeach (next k j)) σ (some .fake) σ :=
  Converges.of_eq fun _ _ => (afterForeach_apply _ _).trans (if_pos h)

/-- If `exit` was called for the array then its first element is still assigned. -/
theorem foreachLoop_left {v : B.Cell} {block : Tree B} {a : Option B.Cell} {σ : State B} (h : σ.left = true) :
    ∃ c, Converges (runTask (.foreachLoop v block (B.naslArrayIterator a σ.world))) σ c (σ.affectFirst v a) := by
  unfold State.affectFirst
  cases hNext : σ.next (B.naslArrayIterator a σ.world) with
  | none => exact ⟨some .fake, Converges.succ (Converges.of_eq fun _ j => foreachLoop_end hNext j)⟩
  | some found =>
      have hLeft : (σ.affect (some v) (some found.1)).left = true := h
      exact ⟨some .fake, foreach_converges hNext ((left_converges hLeft block).bind
        (afterForeach_left _ hLeft))⟩

/-- A foreach statement, up to its loop. -/
theorem foreachStmt_converges {index : String} {array block : Tree B} {v : B.Cell} {a : Option B.Cell}
    {σ σ₁ τ : State B} {c : Option B.Cell} (hClear : Clear σ)
    (hIndex : (σ.enter (.nodeForeach index array block)).index index = some v)
    (hArray : Eval array ((σ.enter (.nodeForeach index array block)).indexed index) a σ₁)
    (hLoop : Converges (runTask (.foreachLoop v block (B.naslArrayIterator a σ₁.world))) σ₁ c τ) :
    Converges (fun k _ => naslExec k (.nodeForeach index array block)) σ c τ := by
  apply node_converges hClear (by nofun)
  have hRounds : Converges (fun k j => askWorld (B.naslArrayIterator a) >>= fun ai =>
      foreachLoop (naslExec k) v block j ai) σ₁ c τ := by
    obtain ⟨n, hRun⟩ := hLoop
    exact ⟨n, fun k hk j hj => (bind_of_some (askWorld_apply _ σ₁)).trans (hRun k hk j hj)⟩
  have hBoth : Converges (fun k j => naslExec k array >>= fun a => askWorld (B.naslArrayIterator a) >>= fun ai =>
      foreachLoop (naslExec k) v block j ai) ((σ.enter (.nodeForeach index array block)).indexed index) c τ :=
    (eval_converges hArray).bind hRounds
  obtain ⟨n, hRun⟩ := hBoth
  refine ⟨n, fun k hk j hj => ?_⟩
  unfold State.index at hIndex
  change execNode (naslExec k) j (.nodeForeach index array block) _ = _
  rw [execNode, bind_of_some (onWorld_apply _ _), hIndex]
  exact hRun k hk j hj

/-- Every task is carried out, given enough fuel for both calls and loops. -/
theorem bigStep_converges {task : Task B} {σ τ : State B} {o : Completion} (h : BigStep task σ o τ)
    (hOk : task.Ok) (hClear : Clear σ) : ∃ c, Converges (runTask task) σ c (o.pending τ) := by
  induction h with
  | expr he hOther hEval =>
      rw [completion_pending]
      exact ⟨_, eval_converges hEval⟩
  | assign hLeft hRight =>
      rw [completion_pending]
      exact ⟨_, node_converges hClear (by nofun) ((eval_converges hLeft).bind
        ((eval_converges hRight).bind (Converges.of_eq fun _ _ => rfl)))⟩
  | @seqStop first tail σ τ o hFirst hStop ih =>
      obtain ⟨hStmt, -⟩ := IsStmt.instrL_inv hOk
      have hSettled := bigStep_settled hFirst hStmt (hClear.enter _)
      obtain ⟨c, hRun⟩ := ih hStmt (hClear.enter _)
      obtain ⟨c', hTail⟩ := restOf_stops hSettled hStop tail c
      refine ⟨c', node_converges hClear (by nofun) ?_⟩
      simp only [execNode_instrL]
      exact hRun.bind hTail
  | @seqNext first tail σ σ₁ τ o hFirst hTail ih ih' =>
      obtain ⟨hStmt, hStmt'⟩ := IsStmt.instrL_inv hOk
      have hClear₁ := (bigStep_settled hFirst hStmt (hClear.enter _)).clear (by decide)
      obtain ⟨c, hRun⟩ := ih hStmt (hClear.enter _)
      obtain ⟨c', hRest⟩ := ih' hStmt' hClear₁
      obtain ⟨c'', hNext⟩ := restOf_runs hClear₁ hTail hRest c
      refine ⟨c'', node_converges hClear (by nofun) ?_⟩
      simp only [execNode_instrL]
      exact hRun.bind hNext
  | @ifLeft cond ifBlock elseBlock σ τ b hCond hLeft =>
      cases b with
      | true => exact ⟨_, ifElse_converges hClear hCond (left_converges hLeft ifBlock)⟩
      | false =>
          obtain ⟨c, hElse⟩ := elseOf_left hLeft elseBlock
          exact ⟨c, ifElse_converges hClear hCond hElse⟩
  | ifTrue hCond hLeft hIf ih =>
      obtain ⟨hExpr, hStmt, -⟩ := IsStmt.ifElse_inv hOk
      obtain ⟨c, hRun⟩ := ih hStmt (clear_of_keeping (hClear.enter _) (cond_keeping hExpr hCond) hLeft)
      exact ⟨c, ifElse_converges hClear hCond hRun⟩
  | ifFalse hCond hLeft hElse ih =>
      obtain ⟨hExpr, -, hStmt⟩ := IsStmt.ifElse_inv hOk
      have hClear₁ := clear_of_keeping (hClear.enter _) (cond_keeping hExpr hCond) hLeft
      obtain ⟨c, hRun⟩ := ih hStmt hClear₁
      obtain ⟨c', hBranch⟩ := elseOf_runs hClear₁ hElse hRun
      exact ⟨c', ifElse_converges hClear hCond hBranch⟩
  | breakStmt | continueStmt =>
      exact ⟨_, node_converges hClear (by nofun) (Converges.of_eq fun _ _ => rfl)⟩
  | returnStmt hAtom =>
      exact ⟨_, node_converges hClear (by nofun) ((atom_converges hAtom).bind
        (Converges.of_eq fun _ _ => rfl))⟩
  | whileStmt hLoop ih =>
      obtain ⟨c, hRun⟩ := ih (IsStmt.while_inv hOk) (hClear.enter _)
      exact ⟨c, node_converges hClear (by nofun) hRun⟩
  | repeatStmt hLoop ih =>
      obtain ⟨c, hRun⟩ := ih (IsStmt.repeat_inv hOk) (hClear.enter _)
      exact ⟨c, node_converges hClear (by nofun) hRun⟩
  | whileLeft hCond hLeft =>
      have hSettled := settled_of_left hClear (cond_keeping hOk.1 hCond) hLeft
      obtain ⟨c, hRun⟩ := guarded_left hCond hSettled (loop_left fun _ j => whileLoop_of_left hLeft j)
      exact ⟨c, while_converges hClear hRun⟩
  | whileEnd hCond hLeft =>
      obtain ⟨c, hRun⟩ := guarded_false _ hCond
      exact ⟨c, while_converges hClear hRun⟩
  | whileBreak hCond hLeft hBlock ih =>
      have hClear₁ := clear_of_keeping hClear (cond_keeping hOk.1 hCond) hLeft
      have hSettled := bigStep_settled hBlock hOk.2 hClear₁
      obtain ⟨c, hRun⟩ := ih hOk.2 hClear₁
      exact ⟨_, while_converges hClear (guarded_converges hCond (hRun.bind (afterBlock_broken _ hSettled)))⟩
  | whileReturn hCond hLeft hBlock ih =>
      have hClear₁ := clear_of_keeping hClear (cond_keeping hOk.1 hCond) hLeft
      have hSettled := bigStep_settled hBlock hOk.2 hClear₁
      obtain ⟨c, hRun⟩ := ih hOk.2 hClear₁
      obtain ⟨c', hLoop⟩ := loop_left fun k j => @whileLoop_of_left B (naslExec k) _ _ _ hSettled.left j
      exact ⟨_, while_converges hClear (guarded_converges hCond
        (hRun.bind (afterBlock_converges hSettled (by decide) hLoop)))⟩
  | whileNext hCond hLeft hBlock hOn hLoop ih ih' =>
      have hClear₁ := clear_of_keeping hClear (cond_keeping hOk.1 hCond) hLeft
      have hSettled := bigStep_settled hBlock hOk.2 hClear₁
      obtain ⟨c, hRun⟩ := ih hOk.2 hClear₁
      obtain ⟨c', hRest⟩ := ih' hOk (hSettled.clear (stays_of_goesOn hOn))
      exact ⟨c', while_converges hClear (guarded_converges hCond
        (hRun.bind (afterBlock_converges hSettled (unbroken_of_goesOn hOn) hRest)))⟩
  | forLeft hStart hLeft =>
      obtain ⟨c, hRun⟩ := loop_left fun k j => @forLoop_of_left B (naslExec k) _ _ _ _ hLeft j
      exact ⟨c, node_converges hClear (by nofun) ((eval_converges hStart).bind hRun)⟩
  | forStmt hStart hLeft hLoop ih =>
      obtain ⟨hExpr, hRest⟩ := IsStmt.for_inv hOk
      obtain ⟨c, hRun⟩ := ih hRest (clear_of_keeping (hClear.enter _) (eval_keeping hExpr hStart) hLeft)
      exact ⟨c, node_converges hClear (by nofun) ((eval_converges hStart).bind hRun)⟩
  | forCondLeft hCond hLeft =>
      have hSettled := settled_of_left hClear (cond_keeping hOk.1 hCond) hLeft
      obtain ⟨c, hRun⟩ := guarded_left hCond hSettled (forRest_left hLeft)
      exact ⟨c, for_converges hClear hRun⟩
  | forEnd hCond hLeft =>
      obtain ⟨c, hRun⟩ := guarded_false _ hCond
      exact ⟨c, for_converges hClear hRun⟩
  | forBreak hCond hLeft hBlock ih =>
      have hClear₁ := clear_of_keeping hClear (cond_keeping hOk.1 hCond) hLeft
      have hSettled := bigStep_settled hBlock hOk.2.2 hClear₁
      obtain ⟨c, hRun⟩ := ih hOk.2.2 hClear₁
      exact ⟨_, for_converges hClear (guarded_converges hCond (hRun.bind (afterBlock_broken _ hSettled)))⟩
  | forReturn hCond hLeft hBlock ih =>
      have hClear₁ := clear_of_keeping hClear (cond_keeping hOk.1 hCond) hLeft
      have hSettled := bigStep_settled hBlock hOk.2.2 hClear₁
      obtain ⟨c, hRun⟩ := ih hOk.2.2 hClear₁
      obtain ⟨c', hRest⟩ := forRest_left hSettled.left
      exact ⟨_, for_converges hClear (guarded_converges hCond
        (hRun.bind (afterBlock_converges hSettled (by decide) hRest)))⟩
  | forEndLeft hCond hLeft hBlock hOn hEnd hEndLeft ih =>
      have hClear₁ := clear_of_keeping hClear (cond_keeping hOk.1 hCond) hLeft
      have hSettled := bigStep_settled hBlock hOk.2.2 hClear₁
      obtain ⟨c, hRun⟩ := ih hOk.2.2 hClear₁
      obtain ⟨c', hLoop⟩ := loop_left fun k j => @forLoop_of_left B (naslExec k) _ _ _ _ hEndLeft j
      exact ⟨_, for_converges hClear (guarded_converges hCond (hRun.bind
        (afterBlock_converges hSettled (unbroken_of_goesOn hOn) ((eval_converges hEnd).bind hLoop))))⟩
  | forNext hCond hLeft hBlock hOn hEnd hEndLeft hLoop ih ih' =>
      have hClear₁ := clear_of_keeping hClear (cond_keeping hOk.1 hCond) hLeft
      have hSettled := bigStep_settled hBlock hOk.2.2 hClear₁
      have hClear₂ := hSettled.clear (stays_of_goesOn hOn)
      obtain ⟨c, hRun⟩ := ih hOk.2.2 hClear₁
      obtain ⟨c', hRest⟩ := ih' hOk (clear_of_keeping hClear₂ (eval_keeping hOk.2.1 hEnd) hEndLeft)
      exact ⟨_, for_converges hClear (guarded_converges hCond (hRun.bind
        (afterBlock_converges hSettled (unbroken_of_goesOn hOn) ((eval_converges hEnd).bind hRest))))⟩
  | repeatBreak hBlock ih =>
      have hSettled := bigStep_settled hBlock hOk.1 hClear
      obtain ⟨c, hRun⟩ := ih hOk.1 hClear
      exact ⟨_, repeat_converges hClear (hRun.bind (afterBlock_broken _ hSettled))⟩
  | repeatReturn hBlock ih =>
      have hSettled := bigStep_settled hBlock hOk.1 hClear
      obtain ⟨c, hRun⟩ := ih hOk.1 hClear
      obtain ⟨c', hRest⟩ := repeatRest_left hSettled
      exact ⟨_, repeat_converges hClear (hRun.bind (afterBlock_converges hSettled (by decide) hRest))⟩
  | @repeatLeft block cond σ σ₁ τ o b hBlock hOn hCond hLeft ih =>
      have hSettled := bigStep_settled hBlock hOk.1 hClear
      obtain ⟨c, hRun⟩ := ih hOk.1 hClear
      obtain ⟨ret, σ', hExec, hBool⟩ := cond_converges hCond
      obtain ⟨c', hLoop⟩ := loop_left fun k j => @repeatLoop_of_left B (naslExec k) cond block τ hLeft j
      have hRest : ∃ c, Converges (fun k j => if b then pure (some .fake) else
          runTask (Task.repeatLoop block cond) k j) τ c τ := by
        cases b with
        | true => exact ⟨some .fake, Converges.of_eq fun _ _ => rfl⟩
        | false => exact ⟨c', hLoop⟩
      obtain ⟨c'', hEnd⟩ := hRest
      exact ⟨c'', repeat_converges hClear (hRun.bind (afterBlock_converges hSettled (unbroken_of_goesOn hOn)
        (hExec.bind (hBool.bind hEnd))))⟩
  | repeatEnd hBlock hOn hCond hLeft ih =>
      have hSettled := bigStep_settled hBlock hOk.1 hClear
      obtain ⟨c, hRun⟩ := ih hOk.1 hClear
      obtain ⟨ret, σ', hExec, hBool⟩ := cond_converges hCond
      exact ⟨some .fake, repeat_converges hClear (hRun.bind (afterBlock_converges hSettled (unbroken_of_goesOn hOn)
        (hExec.bind (hBool.bind (Converges.of_eq fun _ _ => rfl)))))⟩
  | repeatNext hBlock hOn hCond hLeft hLoop ih ih' =>
      have hSettled := bigStep_settled hBlock hOk.1 hClear
      have hClear₁ := hSettled.clear (stays_of_goesOn hOn)
      obtain ⟨c, hRun⟩ := ih hOk.1 hClear
      obtain ⟨ret, σ', hExec, hBool⟩ := cond_converges hCond
      obtain ⟨c', hRest⟩ := ih' hOk (clear_of_keeping hClear₁ (cond_keeping hOk.2 hCond) hLeft)
      exact ⟨_, repeat_converges hClear (hRun.bind (afterBlock_converges hSettled (unbroken_of_goesOn hOn)
        (hExec.bind (hBool.bind hRest))))⟩
  | @foreachNone index array block σ hIndex =>
      refine ⟨none, node_converges hClear (by nofun) (Converges.of_eq fun k j => ?_)⟩
      unfold State.index at hIndex
      rw [execNode, bind_of_some (onWorld_apply _ _), hIndex]
      rfl
  | foreachLeft hIndex hArray hLeft =>
      obtain ⟨c, hLoop⟩ := foreachLoop_left hLeft
      exact ⟨c, foreachStmt_converges hClear hIndex hArray hLoop⟩
  | foreachStmt hIndex hArray hLeft hLoop ih =>
      obtain ⟨hExpr, hStmt⟩ := IsStmt.foreach_inv hOk
      obtain ⟨c, hRun⟩ := ih hStmt
        (clear_of_keeping ((hClear.enter _).indexed _) (eval_keeping hExpr hArray) hLeft)
      exact ⟨c, foreachStmt_converges hClear hIndex hArray hRun⟩
  | foreachEnd hNext =>
      exact ⟨some .fake, Converges.succ (Converges.of_eq fun _ j => foreachLoop_end hNext j)⟩
  | foreachBreak hNext hBlock ih =>
      have hSettled := bigStep_settled hBlock hOk (hClear.affect _ _)
      obtain ⟨c, hRun⟩ := ih hOk (hClear.affect _ _)
      exact ⟨_, foreach_converges hNext (hRun.bind
        (afterForeach_converges (hSettled.clear (by decide)).left (afterBlock_broken _ hSettled)))⟩
  | foreachReturn hNext hBlock ih =>
      have hSettled := bigStep_settled hBlock hOk (hClear.affect _ _)
      obtain ⟨c, hRun⟩ := ih hOk (hClear.affect _ _)
      exact ⟨_, foreach_converges hNext (hRun.bind (afterForeach_left _ hSettled.left))⟩
  | foreachNext hNext hBlock hOn hLoop ih ih' =>
      have hSettled := bigStep_settled hBlock hOk (hClear.affect _ _)
      have hClear₁ := hSettled.clear (stays_of_goesOn hOn)
      obtain ⟨c, hRun⟩ := ih hOk (hClear.affect _ _)
      obtain ⟨c', hRest⟩ := ih' hOk hClear₁
      exact ⟨_, foreach_converges hNext (hRun.bind (afterForeach_converges hClear₁.left
        (afterBlock_converges hSettled (unbroken_of_goesOn hOn) hRest)))⟩

/-- From a state with nothing pending, executing a statement ends exactly where its meaning leads, with what
the completion leaves pending, and a loop leaves neither a `break` nor a `continue`. -/
theorem naslExec_iff_bigStep {s : Tree B} (hs : IsStmt s) {σ : State B} (hClear : Clear σ) (τ : State B) :
    ((∃ k c, naslExec k s σ = (some c, τ)) ↔
      ∃ o σ', BigStep (.tree s) σ o σ' ∧ Settled o σ' ∧ τ = o.pending σ') ∧
    ((Task.tree s).isLoop = true → (∃ k c, naslExec k s σ = (some c, τ)) →
      τ.lexic.breakFlag = false ∧ τ.lexic.contFlag = false) := by
  have hMeant : (∃ k c, naslExec k s σ = (some c, τ)) →
      ∃ o σ', BigStep (.tree s) σ o σ' ∧ Settled o σ' ∧ τ = o.pending σ' := by
    rintro ⟨k, c, hRun⟩
    obtain ⟨o, σ', hStep, hEnd⟩ := naslExec_meant hs k σ c τ hClear hRun
    exact ⟨o, σ', hStep, bigStep_settled hStep hs hClear, hEnd⟩
  refine ⟨⟨hMeant, ?_⟩, ?_⟩
  · rintro ⟨o, σ', hStep, -, rfl⟩
    obtain ⟨c, n, hRun⟩ := bigStep_converges hStep hs hClear
    exact ⟨n, c, hRun n (Nat.le_refl n) n (Nat.le_refl n)⟩
  · intro hLoop hRun
    obtain ⟨o, σ', hStep, hSettled, rfl⟩ := hMeant hRun
    rw [loop_pending (completion_of_loop hStep hLoop)]
    exact ⟨hSettled.breakFlag, hSettled.contFlag⟩

/-- A context in which nothing has happened. -/
def fresh : State plainBase where
  world := ()
  lexic := ⟨none, false, false, false, []⟩
  up := []
  calls := []
  trace := []

/-- `while (1) { break; }`. -/
def whileBroken : Tree plainBase :=
  .nodeWhile (.cell (some (.leaf (1 : Int32)))) (.nodeInstrL .nodeBreak (.cell none))

theorem naslExec_iff_bigStep_while :
    ((∃ k c, naslExec k whileBroken fresh = (some c, (naslExec 5 whileBroken fresh).2)) ↔
      ∃ o σ', BigStep (.tree whileBroken) fresh o σ' ∧ Settled o σ' ∧
        (naslExec 5 whileBroken fresh).2 = o.pending σ') ∧
    ((Task.tree whileBroken).isLoop = true →
      (∃ k c, naslExec k whileBroken fresh = (some c, (naslExec 5 whileBroken fresh).2)) →
      (naslExec 5 whileBroken fresh).2.lexic.breakFlag = false ∧
        (naslExec 5 whileBroken fresh).2.lexic.contFlag = false) :=
  naslExec_iff_bigStep
    (.whileStmt (isExpr_cell _) (.instrL .breakStmt (.expr (isExpr_cell none)))) ⟨rfl, rfl, rfl⟩ _

end Interpreter
