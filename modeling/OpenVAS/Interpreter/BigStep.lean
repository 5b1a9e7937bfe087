import OpenVAS.Interpreter.Flags
import OpenVAS.Interpreter.Fuel

/-! The meaning of the statements of NASL without flags: a statement completes normally, with a `break` or
a `continue` for a loop around it, or in that its function is left. Expressions mean what the interpreter
makes of them. -/
namespace Interpreter

open StateComp

variable {B : Base}

/-! Statements. -/

/-- The trees that statements are built as. -/
inductive IsStmt : Tree B → Prop where
  | expr {e : Tree B} (he : IsExpr e) : IsStmt e
  | instrL {first tail : Tree B} (hFirst : IsStmt first) (hTail : IsStmt tail) : IsStmt (.nodeInstrL first tail)
  | ifElse {cond ifBlock elseBlock : Tree B} (hCond : IsExpr cond) (hIf : IsStmt ifBlock)
      (hElse : IsStmt elseBlock) : IsStmt (.nodeIfElse cond ifBlock elseBlock)
  | forStmt {startExpr cond endExpr block : Tree B} (hStart : IsExpr startExpr) (hCond : IsExpr cond)
      (hEnd : IsExpr endExpr) (hBlock : IsStmt block) : IsStmt (.nodeFor startExpr cond endExpr block)
  | whileStmt {cond block : Tree B} (hCond : IsExpr cond) (hBlock : IsStmt block) :
      IsStmt (.nodeWhile cond block)
  | repeatStmt {block cond : Tree B} (hBlock : IsStmt block) (hCond : IsExpr cond) :
      IsStmt (.nodeRepeatUntil block cond)
  | foreachStmt {index : String} {array block : Tree B} (hArray : IsExpr array) (hBlock : IsStmt block) :
      IsStmt (.nodeForeach index array block)
  | breakStmt : IsStmt .nodeBreak
  | continueStmt : IsStmt .nodeContinue
  | returnStmt {retVal : Tree B} (hRetVal : IsExpr retVal) : IsStmt (.nodeReturn retVal)

/-- How a statement completes. -/
inductive Completion where
  | normal
  | brk
  | cont
  | ret
deriving DecidableEq

/-- A loop goes on after a block that completes so. -/
def Completion.goesOn : Completion → Bool
  | .normal | .cont => true
  | _ => false

/-- What is to be done: a statement, or what is left of a loop. -/
inductive Task (B : Base) where
  | tree (s : Tree B)
  | forLoop (cond endExpr block : Tree B)
  | whileLoop (cond block : Tree B)
  | repeatLoop (block cond : Tree B)
  | foreachLoop (v : B.Cell) (block : Tree B) (ai : B.Iterator)

/-! Expressions. -/

/-- The expression is evaluated to a cell, which may be NULL. -/
def Eval (e : Tree B) (σ : State B) (c : Option B.Cell) (τ : State B) : Prop :=
  ∃ k, naslExec k e σ = (some c, τ)

/-- It is evaluated and found to be true or false. -/
def Cond (e : Tree B) (σ : State B) (b : Bool) (τ : State B) : Prop :=
  ∃ k j, (naslExec k e >>= fun ret => cell2bool (naslExec k) j (.cell ret)) σ = (some b, τ)

/-- It is evaluated to an atom. -/
def Atom (e : Tree B) (σ : State B) (c : Option B.Cell) (τ : State B) : Prop :=
  ∃ k j, cell2atom (naslExec k) j e σ = (some c, τ)

/-- The expression has called `exit`. -/
def State.left (σ : State B) : Bool := σ.lexic.retVal.isSome

/-- How an expression completes. -/
def State.completion (σ : State B) : Completion := if σ.left then .ret else .normal

/-- The event that a node is executed. -/
def State.enter (σ : State B) (st : Tree B) : State B := σ.note (.node st)

def State.affect (σ : State B) (lvalue rvalue : Option B.Cell) : State B :=
  { σ with world := B.naslAffect lvalue rvalue σ.world }

/-- The variable that a foreach loop runs through. -/
def State.index (σ : State B) (name : String) : Option B.Cell := (B.getVariableByName name σ.world).1

def State.indexed (σ : State B) (name : String) : State B :=
  { σ with world := (B.getVariableByName name σ.world).2 }

/-- The elements of an array that are left. -/
def State.next (σ : State B) (ai : B.Iterator) : Option (B.Cell × B.Iterator) := B.naslIterateArray ai σ.world

/-- The first element is assigned even if `exit` was called for the array. -/
def State.affectFirst (σ : State B) (v : B.Cell) (a : Option B.Cell) : State B :=
  match σ.next (B.naslArrayIterator a σ.world) with
  | none => σ
  | some (val, _) => σ.affect (some v) (some val)

/-- A task turns a state into another one and completes somehow. -/
inductive BigStep : Task B → State B → Completion → State B → Prop where
  | expr {e : Tree B} {σ τ : State B} {c : Option B.Cell} (he : IsExpr e) (hOther : ∀ l r, e ≠ .nodeAff l r)
      (hEval : Eval e σ c τ) : BigStep (.tree e) σ τ.completion τ
  | assign {lvalue rvalue : Tree B} {σ σ₁ τ : State B} {tc1 tc2 : Option B.Cell}
      (hLeft : Eval lvalue (σ.enter (.nodeAff lvalue rvalue)) tc1 σ₁) (hRight : Eval rvalue σ₁ tc2 τ) :
      BigStep (.tree (.nodeAff lvalue rvalue)) σ τ.completion (τ.affect tc1 tc2)
  | seqStop {first tail : Tree B} {σ τ : State B} {o : Completion}
      (hFirst : BigStep (.tree first) (σ.enter (.nodeInstrL first tail)) o τ) (hStop : o ≠ .normal) :
      BigStep (.tree (.nodeInstrL first tail)) σ o τ
  | seqNext {first tail : Tree B} {σ σ₁ τ : State B} {o : Completion}
      (hFirst : BigStep (.tree first) (σ.enter (.nodeInstrL first tail)) .normal σ₁)
      (hTail : BigStep (.tree tail) σ₁ o τ) : BigStep (.tree (.nodeInstrL first tail)) σ o τ
  | ifLeft {cond ifBlock elseBlock : Tree B} {σ τ : State B} {b : Bool}
      (hCond : Cond cond (σ.enter (.nodeIfElse cond ifBlock elseBlock)) b τ) (hLeft : τ.left = true) :
      BigStep (.tree (.nodeIfElse cond ifBlock elseBlock)) σ .ret τ
  | ifTrue {cond ifBlock elseBlock : Tree B} {σ σ₁ τ : State B} {o : Completion}
      (hCond : Cond cond (σ.enter (.nodeIfElse cond ifBlock elseBlock)) true σ₁) (hLeft : σ₁.left = false)
      (hIf : BigStep (.tree ifBlock) σ₁ o τ) : BigStep (.tree (.nodeIfElse cond ifBlock elseBlock)) σ o τ
  | ifFalse {cond ifBlock elseBlock : Tree B} {σ σ₁ τ : State B} {o : Completion}
      (hCond : Cond cond (σ.enter (.nodeIfElse cond ifBlock elseBlock)) false σ₁) (hLeft : σ₁.left = false)
      (hElse : BigStep (.tree elseBlock) σ₁ o τ) : BigStep (.tree (.nodeIfElse cond ifBlock elseBlock)) σ o τ
  | breakStmt {σ : State B} : BigStep (.tree .nodeBreak) σ .brk (σ.enter .nodeBreak)
  | continueStmt {σ : State B} : BigStep (.tree .nodeContinue) σ .cont (σ.enter .nodeContinue)
  | returnStmt {retVal : Tree B} {σ τ : State B} {c : Option B.Cell}
      (hAtom : Atom retVal (σ.enter (.nodeReturn retVal)) c τ) :
      BigStep (.tree (.nodeReturn retVal)) σ .ret (τ.leave (retCell c τ.world))
  -- while
  | whileStmt {cond block : Tree B} {σ τ : State B} {o : Completion}
      (hLoop : BigStep (.whileLoop cond block) (σ.enter (.nodeWhile cond block)) o τ) :
      BigStep (.tree (.nodeWhile cond block)) σ o τ
  | whileLeft {cond block : Tree B} {σ τ : State B} {b : Bool} (hCond : Cond cond σ b τ)
      (hLeft : τ.left = true) : BigStep (.whileLoop cond block) σ .ret τ
  | whileEnd {cond block : Tree B} {σ τ : State B} (hCond : Cond cond σ false τ) (hLeft : τ.left = false) :
      BigStep (.whileLoop cond block) σ .normal τ
  | whileBreak {cond block : Tree B} {σ σ₁ τ : State B} (hCond : Cond cond σ true σ₁)
      (hLeft : σ₁.left = false) (hBlock : BigStep (.tree block) σ₁ .brk τ) :
      BigStep (.whileLoop cond block) σ .normal τ
  | whileReturn {cond block : Tree B} {σ σ₁ τ : State B} (hCond : Cond cond σ true σ₁)
      (hLeft : σ₁.left = false) (hBlock : BigStep (.tree block) σ₁ .ret τ) :
      BigStep (.whileLoop cond block) σ .ret τ
  | whileNext {cond block : Tree B} {σ σ₁ σ₂ τ : State B} {o o' : Completion} (hCond : Cond cond σ true σ₁)
      (hLeft : σ₁.left = false) (hBlock : BigStep (.tree block) σ₁ o σ₂) (hOn : o.goesOn = true)
      (hLoop : BigStep (.whileLoop cond block) σ₂ o' τ) : BigStep (.whileLoop cond block) σ o' τ
  -- for: the end expression comes after each round
  | forLeft {startExpr cond endExpr block : Tree B} {σ τ : State B} {c : Option B.Cell}
      (hStart : Eval startExpr (σ.enter (.nodeFor startExpr cond endExpr block)) c τ) (hLeft : τ.left = true) :
      BigStep (.tree (.nodeFor startExpr cond endExpr block)) σ .ret τ
  | forStmt {startExpr cond endExpr block : Tree B} {σ σ₁ τ : State B} {c : Option B.Cell} {o : Completion}
      (hStart : Eval startExpr (σ.enter (.nodeFor startExpr cond endExpr block)) c σ₁)
      (hLeft : σ₁.left = false) (hLoop : BigStep (.forLoop cond endExpr block) σ₁ o τ) :
      BigStep (.tree (.nodeFor startExpr cond endExpr block)) σ o τ
  | forCondLeft {cond endExpr block : Tree B} {σ τ : State B} {b : Bool} (hCond : Cond cond σ b τ)
      (hLeft : τ.left = true) : BigStep (.forLoop cond endExpr block) σ .ret τ
  | forEnd {cond endExpr block : Tree B} {σ τ : State B} (hCond : Cond cond σ false τ)
      (hLeft : τ.left = false) : BigStep (.forLoop cond endExpr block) σ .normal τ
  | forBreak {cond endExpr block : Tree B} {σ σ₁ τ : State B} (hCond : Cond cond σ true σ₁)
      (hLeft : σ₁.left = false) (hBlock : BigStep (.tree block) σ₁ .brk τ) :
      BigStep (.forLoop cond endExpr block) σ .normal τ
  | forReturn {cond endExpr block : Tree B} {σ σ₁ τ : State B} (hCond : Cond cond σ true σ₁)
      (hLeft : σ₁.left = false) (hBlock : BigStep (.tree block) σ₁ .ret τ) :
      BigStep (.forLoop cond endExpr block) σ .ret τ
  | forEndLeft {cond endExpr block : Tree B} {σ σ₁ σ₂ τ : State B} {o : Completion} {c : Option B.Cell}
      (hCond : Cond cond σ true σ₁) (hLeft : σ₁.left = false) (hBlock : BigStep (.tree block) σ₁ o σ₂)
      (hOn : o.goesOn = true) (hEnd : Eval endExpr σ₂ c τ) (hEndLeft : τ.left = true) :
      BigStep (.forLoop cond endExpr block) σ .ret τ
  | forNext {cond endExpr block : Tree B} {σ σ₁ σ₂ σ₃ τ : State B} {o o' : Completion} {c : Option B.Cell}
      (hCond : Cond cond σ true σ₁) (hLeft : σ₁.left = false) (hBlock : BigStep (.tree block) σ₁ o σ₂)
      (hOn : o.goesOn = true) (hEnd : Eval endExpr σ₂ c σ₃) (hEndLeft : σ₃.left = false)
      (hLoop : BigStep (.forLoop cond endExpr block) σ₃ o' τ) : BigStep (.forLoop cond endExpr block) σ o' τ
  -- repeat: the condition comes after each round
  | repeatStmt {block cond : Tree B} {σ τ : State B} {o : Completion}
      (hLoop : BigStep (.repeatLoop block cond) (σ.enter (.nodeRepeatUntil block cond)) o τ) :
      BigStep (.tree (.nodeRepeatUntil block cond)) σ o τ
  | repeatBreak {block cond : Tree B} {σ τ : State B} (hBlock : BigStep (.tree block) σ .brk τ) :
      BigStep (.repeatLoop block cond) σ .normal τ
  | repeatReturn {block cond : Tree B} {σ τ : State B} (hBlock : BigStep (.tree block) σ .ret τ) :
      BigStep (.repeatLoop block cond) σ .ret τ
  | repeatLeft {block cond : Tree B} {σ σ₁ τ : State B} {o : Completion} {b : Bool}
      (hBlock : BigStep (.tree block) σ o σ₁) (hOn : o.goesOn = true) (hCond : Cond cond σ₁ b τ)
      (hLeft : τ.left = true) : BigStep (.repeatLoop block cond) σ .ret τ
  | repeatEnd {block cond : Tree B} {σ σ₁ τ : State B} {o : Completion} (hBlock : BigStep (.tree block) σ o σ₁)
      (hOn : o.goesOn = true) (hCond : Cond cond σ₁ true τ) (hLeft : τ.left = false) :
      BigStep (.repeatLoop block cond) σ .normal τ
  | repeatNext {block cond : Tree B} {σ σ₁ σ₂ τ : State B} {o o' : Completion}
      (hBlock : BigStep (.tree block) σ o σ₁) (hOn : o.goesOn = true) (hCond : Cond cond σ₁ false σ₂)
      (hLeft : σ₂.left = false) (hLoop : BigStep (.repeatLoop block cond) σ₂ o' τ) :
      BigStep (.repeatLoop block cond) σ o' τ
  -- foreach
  | foreachNone {index : String} {array block : Tree B} {σ : State B}
      (hIndex : (σ.enter (.nodeForeach index array block)).index index = none) :
      BigStep (.tree (.nodeForeach index array block)) σ .normal
        ((σ.enter (.nodeForeach index array block)).indexed index)
  | foreachLeft {index : String} {array block : Tree B} {σ τ : State B} {v : B.Cell} {a : Option B.Cell}
      (hIndex : (σ.enter (.nodeForeach index array block)).index index = some v)
      (hArray : Eval array ((σ.enter (.nodeForeach index array block)).indexed index) a τ)
      (hLeft : τ.left = true) :
      BigStep (.tree (.nodeForeach index array block)) σ .ret (τ.affectFirst v a)
  | foreachStmt {index : String} {array block : Tree B} {σ σ₁ τ : State B} {v : B.Cell} {a : Option B.Cell}
      {o : Completion} (hIndex : (σ.enter (.nodeForeach index array block)).index index = some v)
      (hArray : Eval array ((σ.enter (.nodeForeach index array block)).indexed index) a σ₁)
      (hLeft : σ₁.left = false)
      (hLoop : BigStep (.foreachLoop v block (B.naslArrayIterator a σ₁.world)) σ₁ o τ) :
      BigStep (.tree (.nodeForeach index array block)) σ o τ
  | foreachEnd {v : B.Cell} {block : Tree B} {ai : B.Iterator} {σ : State B} (hNext : σ.next ai = none) :
      BigStep (.foreachLoop v block ai) σ .normal σ
  | foreachBreak {v val : B.Cell} {block : Tree B} {ai ai' : B.Iterator} {σ τ : State B}
      (hNext : σ.next ai = some (val, ai')) (hBlock : BigStep (.tree block) (σ.affect (some v) (some val)) .brk τ) :
      BigStep (.foreachLoop v block ai) σ .normal τ
  | foreachReturn {v val : B.Cell} {block : Tree B} {ai ai' : B.Iterator} {σ τ : State B}
      (hNext : σ.next ai = some (val, ai')) (hBlock : BigStep (.tree block) (σ.affect (some v) (some val)) .ret τ) :
      BigStep (.foreachLoop v block ai) σ .ret τ
  | foreachNext {v val : B.Cell} {block : Tree B} {ai ai' : B.Iterator} {σ σ₁ τ : State B} {o o' : Completion}
      (hNext : σ.next ai = some (val, ai')) (hBlock : BigStep (.tree block) (σ.affect (some v) (some val)) o σ₁)
      (hOn : o.goesOn = true) (hLoop : BigStep (.foreachLoop v block ai') σ₁ o' τ) :
      BigStep (.foreachLoop v block ai) σ o' τ

/-! States between statements. -/

/-- No flag is pending. -/
structure Clear (σ : State B) : Prop where
  retVal : σ.lexic.retVal = none
  breakFlag : σ.lexic.breakFlag = false
  contFlag : σ.lexic.contFlag = false

/-- What the interpreter sets for a completion. -/
def Completion.pending : Completion → State B → State B
  | .brk, σ => σ.setBreak true
  | .cont, σ => σ.setCont true
  | _, σ => σ

/-- A function is left with an atom as its value, and otherwise nothing is pending. -/
structure Settled (o : Completion) (σ : State B) : Prop where
  breakFlag : σ.lexic.breakFlag = false
  contFlag : σ.lexic.contFlag = false
  retVal : if o = .ret then ∃ v, σ.lexic.retVal = some v ∧ v.isAtom = true else σ.lexic.retVal = none

theorem settled_normal {σ : State B} (h : Clear σ) : Settled .normal σ :=
  ⟨h.breakFlag, h.contFlag, h.retVal⟩

/-- Where the function is not left, nothing is pending in a settled state. -/
theorem Settled.clear {o : Completion} {σ : State B} (h : Settled o σ) (hStays : o ≠ .ret) : Clear σ := by
  have hRetVal := h.retVal
  rw [if_neg hStays] at hRetVal
  exact ⟨hRetVal, h.breakFlag, h.contFlag⟩

/-- Completions that leave nothing pending, but for the value of the function. -/
theorem Settled.of_clear {o o' : Completion} {σ : State B} (h : Settled o σ) (hStays : o ≠ .ret)
    (hStays' : o' ≠ .ret) : Settled o' σ := by
  have hClear := h.clear hStays
  refine ⟨hClear.breakFlag, hClear.contFlag, ?_⟩
  rw [if_neg hStays']
  exact hClear.retVal

theorem Settled.left {σ : State B} (h : Settled .ret σ) : σ.left = true := by
  obtain ⟨v, hv, -⟩ := h.retVal
  rw [State.left, hv]
  rfl

theorem Clear.left {σ : State B} (h : Clear σ) : σ.left = false := by
  rw [State.left, h.retVal]
  rfl

theorem stays_of_goesOn {o : Completion} (h : o.goesOn = true) : o ≠ .ret := by
  rintro rfl
  cases h

theorem unbroken_of_goesOn {o : Completion} (h : o.goesOn = true) : o ≠ .brk := by
  rintro rfl
  cases h

theorem completion_of_left {σ : State B} (h : σ.left = true) : σ.completion = .ret := if_pos h

theorem completion_of_not_left {σ : State B} (h : σ.left = false) : σ.completion = .normal :=
  if_neg (ne_true_of_eq_false h)

/-- What is pending from the state alone is in it already. -/
theorem completion_pending (σ τ : State B) : σ.completion.pending τ = τ := by
  unfold State.completion
  split <;> rfl

/-- Whatever an expression does, it completes so. -/
theorem settled_of_keeping {σ τ : State B} (hClear : Clear σ) (h : Keeping Keeps σ τ) :
    Settled τ.completion τ := by
  have hKeeps := h.lexic
  have hReturns := hKeeps.returns
  rw [Returns, hClear.retVal] at hReturns
  refine ⟨hKeeps.breakFlag.trans hClear.breakFlag, hKeeps.contFlag.trans hClear.contFlag, ?_⟩
  cases hReturns with
  | inl hNone =>
      rw [completion_of_not_left (by rw [State.left, hNone]; rfl)]
      exact hNone
  | inr hAtom =>
      obtain ⟨v, hv, hIs⟩ := hAtom
      rw [completion_of_left (by rw [State.left, hv]; rfl)]
      exact ⟨v, hv, hIs⟩

section Expressions

variable {e : Tree B} (he : IsExpr e) {σ τ : State B}

include he

/-- An expression leaves the flags of all contexts as they were. -/
theorem eval_keeping {c : Option B.Cell} (h : Eval e σ c τ) : Keeping Keeps σ τ := by
  obtain ⟨k, hRun⟩ := h
  exact (naslExec_keeps k he).of_some hRun

/-- So does a condition. -/
theorem cond_keeping {b : Bool} (h : Cond e σ b τ) : Keeping Keeps σ τ := by
  obtain ⟨k, j, hRun⟩ := h
  have hCells : ∀ c : Option B.Cell, Ensures (Keeping Keeps) (fun _ _ => True) (naslExec k (.cell c)) :=
    fun c => naslExec_keeps k (isExpr_cell c)
  have hBoth := (keeping_chained admits_keeps).bind (naslExec_keeps k he) fun ret =>
    cell2bool_ensures (keeping_framed admits_keeps) hCells j (hCells ret)
  exact hBoth.of_some hRun

/-- And so does an atom. -/
theorem atom_keeping {c : Option B.Cell} (h : Atom e σ c τ) : Keeping Keeps σ τ := by
  obtain ⟨k, j, hRun⟩ := h
  have hCells : ∀ c : Option B.Cell, Ensures (Keeping Keeps) (fun _ _ => True) (naslExec k (.cell c)) :=
    fun c => naslExec_keeps k (isExpr_cell c)
  exact (cell2atom_ensures (keeping_framed admits_keeps) hCells j (naslExec_keeps k he)).of_some hRun

end Expressions

/-! The parts of statements. -/

theorem IsStmt.assign_inv {lvalue rvalue : Tree B} (h : IsStmt (.nodeAff lvalue rvalue)) :
    IsExpr lvalue ∧ IsExpr rvalue := by
  cases h with
  | expr he => exact ⟨he.of_part (by simp [Tree.parts]), he.of_part (by simp [Tree.parts])⟩

theorem IsStmt.instrL_inv {first tail : Tree B} (h : IsStmt (.nodeInstrL first tail)) :
    IsStmt first ∧ IsStmt tail := by
  cases h with
  | expr he => exact nomatch he.isSimple
  | instrL hFirst hTail => exact ⟨hFirst, hTail⟩

theorem IsStmt.ifElse_inv {cond ifBlock elseBlock : Tree B} (h : IsStmt (.nodeIfElse cond ifBlock elseBlock)) :
    IsExpr cond ∧ IsStmt ifBlock ∧ IsStmt elseBlock := by
  cases h with
  | expr he => exact nomatch he.isSimple
  | ifElse hCond hIf hElse => exact ⟨hCond, hIf, hElse⟩

theorem IsStmt.for_inv {startExpr cond endExpr block : Tree B}
    (h : IsStmt (.nodeFor startExpr cond endExpr block)) :
    IsExpr startExpr ∧ IsExpr cond ∧ IsExpr endExpr ∧ IsStmt block := by
  cases h with
  | expr he => exact nomatch he.isSimple
  | forStmt hStart hCond hEnd hBlock => exact ⟨hStart, hCond, hEnd, hBlock⟩

theorem IsStmt.while_inv {cond block : Tree B} (h : IsStmt (.nodeWhile cond block)) :
    IsExpr cond ∧ IsStmt block := by
  cases h with
  | expr he => exact nomatch he.isSimple
  | whileStmt hCond hBlock => exact ⟨hCond, hBlock⟩

theorem IsStmt.repeat_inv {block cond : Tree B} (h : IsStmt (.nodeRepeatUntil block cond)) :
    IsStmt block ∧ IsExpr cond := by
  cases h with
  | expr he => exact nomatch he.isSimple
  | repeatStmt hBlock hCond => exact ⟨hBlock, hCond⟩

theorem IsStmt.foreach_inv {index : String} {array block : Tree B} (h : IsStmt (.nodeForeach index array block)) :
    IsExpr array ∧ IsStmt block := by
  cases h with
  | expr he => exact nomatch he.isSimple
  | foreachStmt hArray hBlock => exact ⟨hArray, hBlock⟩

theorem IsStmt.return_inv {retVal : Tree B} (h : IsStmt (.nodeReturn retVal)) : IsExpr retVal := by
  cases h with
  | expr he => exact nomatch he.isSimple
  | returnStmt hRetVal => exact hRetVal

/-- The trees of a task are what they are to be. -/
def Task.Ok : Task B → Prop
  | .tree s => IsStmt s
  | .forLoop cond endExpr block => IsExpr cond ∧ IsExpr endExpr ∧ IsStmt block
  | .whileLoop cond block => IsExpr cond ∧ IsStmt block
  | .repeatLoop block cond => IsStmt block ∧ IsExpr cond
  | .foreachLoop _ block _ => IsStmt block

def Task.isLoop : Task B → Bool
  | .tree (.nodeFor ..) | .tree (.nodeWhile ..) | .tree (.nodeRepeatUntil ..) | .tree (.nodeForeach ..) => true
  | .tree _ => false
  | _ => true

/-- A loop as a whole completes normally or in that the function is left. -/
theorem completion_of_loop {task : Task B} {σ τ : State B} {o : Completion} (h : BigStep task σ o τ)
    (hLoop : task.isLoop = true) : o = .normal ∨ o = .ret := by
  induction h with
  | expr he hOther hEval =>
      unfold State.completion
      split
      · exact Or.inr rfl
      · exact Or.inl rfl
  | assign | seqStop | seqNext | ifLeft | ifTrue | ifFalse | breakStmt | continueStmt | returnStmt =>
      cases hLoop
  | whileEnd | whileBreak | forEnd | forBreak | repeatBreak | repeatEnd | foreachNone | foreachEnd |
    foreachBreak => exact Or.inl rfl
  | whileLeft | whileReturn | forLeft | forCondLeft | forReturn | forEndLeft | repeatReturn | repeatLeft |
    foreachLeft | foreachReturn => exact Or.inr rfl
  | whileStmt _ ih | forStmt _ _ _ ih | repeatStmt _ ih | foreachStmt _ _ _ _ ih => exact ih rfl
  | whileNext _ _ _ _ _ _ ih | forNext _ _ _ _ _ _ _ _ ih => exact ih rfl
  | repeatNext _ _ _ _ _ _ ih | foreachNext _ _ _ _ _ ih => exact ih rfl

theorem Clear.enter {σ : State B} (h : Clear σ) (st : Tree B) : Clear (σ.enter st) :=
  ⟨h.retVal, h.breakFlag, h.contFlag⟩

theorem Clear.affect {σ : State B} (h : Clear σ) (lvalue rvalue : Option B.Cell) :
    Clear (σ.affect lvalue rvalue) := ⟨h.retVal, h.breakFlag, h.contFlag⟩

theorem Settled.affect {o : Completion} {σ : State B} (h : Settled o σ) (lvalue rvalue : Option B.Cell) :
    Settled o (σ.affect lvalue rvalue) := ⟨h.breakFlag, h.contFlag, h.retVal⟩

/-- An assignment to the variable of a foreach loop leaves the flags. -/
theorem Settled.affectFirst {o : Completion} {σ : State B} (h : Settled o σ) (v : B.Cell) (a : Option B.Cell) :
    Settled o (σ.affectFirst v a) := by
  unfold State.affectFirst
  split
  · exact h
  · exact h.affect _ _

theorem Clear.indexed {σ : State B} (h : Clear σ) (name : String) : Clear (σ.indexed name) :=
  ⟨h.retVal, h.breakFlag, h.contFlag⟩

/-- An expression that has not called `exit` leaves nothing pending, and one that has leaves a value. -/
theorem clear_of_keeping {σ τ : State B} (hClear : Clear σ) (h : Keeping Keeps σ τ) (hLeft : τ.left = false) :
    Clear τ := by
  have hSettled := settled_of_keeping hClear h
  rw [completion_of_not_left hLeft] at hSettled
  exact hSettled.clear (by decide)

/-- A step that keeps the flags settles where the function is left. -/
theorem settled_of_left {σ τ : State B} (hClear : Clear σ) (h : Keeping Keeps σ τ) (hLeft : τ.left = true) :
    Settled .ret τ := by
  have hSettled := settled_of_keeping hClear h
  rwa [completion_of_left hLeft] at hSettled

/-- Every task ends in a state that its completion describes. -/
theorem bigStep_settled {task : Task B} {σ τ : State B} {o : Completion} (h : BigStep task σ o τ)
    (hOk : task.Ok) (hClear : Clear σ) : Settled o τ := by
  induction h with
  | expr he hOther hEval => exact settled_of_keeping hClear (eval_keeping he hEval)
  | assign hLeft hRight =>
      obtain ⟨hLvalue, hRvalue⟩ := IsStmt.assign_inv hOk
      have hBoth := (keeping_chained admits_keeps).trans _ _ _ (eval_keeping hLvalue hLeft)
        (eval_keeping hRvalue hRight)
      exact (settled_of_keeping (hClear.enter _) hBoth).affect _ _
  | seqStop hFirst hStop ih => exact ih (IsStmt.instrL_inv hOk).1 (hClear.enter _)
  | seqNext hFirst hTail ih ih' =>
      obtain ⟨hStmt, hStmt'⟩ := IsStmt.instrL_inv hOk
      exact ih' hStmt' ((ih hStmt (hClear.enter _)).clear (by decide))
  | ifLeft hCond hLeft =>
      exact settled_of_left (hClear.enter _) (cond_keeping (IsStmt.ifElse_inv hOk).1 hCond) hLeft
  | ifTrue hCond hLeft hIf ih =>
      obtain ⟨hExpr, hStmt, -⟩ := IsStmt.ifElse_inv hOk
      exact ih hStmt (clear_of_keeping (hClear.enter _) (cond_keeping hExpr hCond) hLeft)
  | ifFalse hCond hLeft hElse ih =>
      obtain ⟨hExpr, -, hStmt⟩ := IsStmt.ifElse_inv hOk
      exact ih hStmt (clear_of_keeping (hClear.enter _) (cond_keeping hExpr hCond) hLeft)
  | breakStmt | continueStmt => exact ⟨hClear.breakFlag, hClear.contFlag, hClear.retVal⟩
  | returnStmt hAtom =>
      have hKeeps := (atom_keeping (IsStmt.return_inv hOk) hAtom).lexic
      obtain ⟨k, j, hRun⟩ := hAtom
      refine ⟨hKeeps.breakFlag.trans hClear.breakFlag, hKeeps.contFlag.trans hClear.contFlag, _, rfl, ?_⟩
      apply retCell_isAtom
      rintro c rfl
      exact cell2atom_isAtom hRun
  | whileStmt _ ih => exact ih (IsStmt.while_inv hOk) (hClear.enter _)
  | repeatStmt _ ih => exact ih (IsStmt.repeat_inv hOk) (hClear.enter _)
  | whileLeft hCond hLeft | forCondLeft hCond hLeft =>
      exact settled_of_left hClear (cond_keeping hOk.1 hCond) hLeft
  | whileEnd hCond hLeft | forEnd hCond hLeft =>
      exact settled_normal (clear_of_keeping hClear (cond_keeping hOk.1 hCond) hLeft)
  | whileBreak hCond hLeft hBlock ih =>
      have hBroken := ih hOk.2 (clear_of_keeping hClear (cond_keeping hOk.1 hCond) hLeft)
      exact hBroken.of_clear (by decide) (by decide)
  | whileReturn hCond hLeft hBlock ih =>
      exact ih hOk.2 (clear_of_keeping hClear (cond_keeping hOk.1 hCond) hLeft)
  | whileNext hCond hLeft hBlock hOn hLoop ih ih' =>
      have hRound := ih hOk.2 (clear_of_keeping hClear (cond_keeping hOk.1 hCond) hLeft)
      exact ih' hOk (hRound.clear (stays_of_goesOn hOn))
  | forLeft hStart hLeft =>
      exact settled_of_left (hClear.enter _) (eval_keeping (IsStmt.for_inv hOk).1 hStart) hLeft
  | forStmt hStart hLeft hLoop ih =>
      obtain ⟨hExpr, hRest⟩ := IsStmt.for_inv hOk
      exact ih hRest (clear_of_keeping (hClear.enter _) (eval_keeping hExpr hStart) hLeft)
  | forBreak hCond hLeft hBlock ih =>
      have hBroken := ih hOk.2.2 (clear_of_keeping hClear (cond_keeping hOk.1 hCond) hLeft)
      exact hBroken.of_clear (by decide) (by decide)
  | forReturn hCond hLeft hBlock ih =>
      exact ih hOk.2.2 (clear_of_keeping hClear (cond_keeping hOk.1 hCond) hLeft)
  | forEndLeft hCond hLeft hBlock hOn hEnd hEndLeft ih =>
      have hRound := ih hOk.2.2 (clear_of_keeping hClear (cond_keeping hOk.1 hCond) hLeft)
      exact settled_of_left (hRound.clear (stays_of_goesOn hOn)) (eval_keeping hOk.2.1 hEnd) hEndLeft
  | forNext hCond hLeft hBlock hOn hEnd hEndLeft hLoop ih ih' =>
      have hRound := ih hOk.2.2 (clear_of_keeping hClear (cond_keeping hOk.1 hCond) hLeft)
      have hNext := hRound.clear (stays_of_goesOn hOn)
      exact ih' hOk (clear_of_keeping hNext (eval_keeping hOk.2.1 hEnd) hEndLeft)
  | repeatBreak hBlock ih => exact (ih hOk.1 hClear).of_clear (by decide) (by decide)
  | repeatReturn hBlock ih => exact ih hOk.1 hClear
  | repeatLeft hBlock hOn hCond hLeft ih =>
      have hRound := (ih hOk.1 hClear).clear (stays_of_goesOn hOn)
      exact settled_of_left hRound (cond_keeping hOk.2 hCond) hLeft
  | repeatEnd hBlock hOn hCond hLeft ih =>
      have hRound := (ih hOk.1 hClear).clear (stays_of_goesOn hOn)
      exact settled_normal (clear_of_keeping hRound (cond_keeping hOk.2 hCond) hLeft)
  | repeatNext hBlock hOn hCond hLeft hLoop ih ih' =>
      have hRound := (ih hOk.1 hClear).clear (stays_of_goesOn hOn)
      exact ih' hOk (clear_of_keeping hRound (cond_keeping hOk.2 hCond) hLeft)
  | foreachNone | foreachEnd => exact ⟨hClear.breakFlag, hClear.contFlag, hClear.retVal⟩
  | foreachLeft hIndex hArray hLeft =>
      have hKeeping := eval_keeping (IsStmt.foreach_inv hOk).1 hArray
      exact (settled_of_left ((hClear.enter _).indexed _) hKeeping hLeft).affectFirst _ _
  | foreachStmt hIndex hArray hLeft hLoop ih =>
      obtain ⟨hExpr, hStmt⟩ := IsStmt.foreach_inv hOk
      exact ih hStmt (clear_of_keeping ((hClear.enter _).indexed _) (eval_keeping hExpr hArray) hLeft)
  | foreachBreak hNext hBlock ih => exact (ih hOk (hClear.affect _ _)).of_clear (by decide) (by decide)
  | foreachReturn hNext hBlock ih => exact ih hOk (hClear.affect _ _)
  | foreachNext hNext hBlock hOn hLoop ih ih' =>
      exact ih' hOk ((ih hOk (hClear.affect _ _)).clear (stays_of_goesOn hOn))

end Interpreter
