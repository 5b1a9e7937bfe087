import OpenVAS.Interpreter.Basic

/-! A relation between computations that holds for each part of a node, executed in two ways, and for each
step on the state holds for the node. What a node keeps and that it needs no more than some fuel are such
relations. -/
namespace Interpreter

open StateComp

variable {B : Base}

/-- The nodes without a flag of their own: what can stand where an expression is wanted, declarations
and repeated calls. -/
def Tree.isSimple : Tree B → Bool
  | .nodeIfElse .. | .nodeInstrL .. | .nodeFor .. | .nodeWhile .. | .nodeForeach .. |
    .nodeRepeatUntil .. | .nodeReturn .. | .nodeBreak | .nodeContinue => false
  | _ => true

/-- The parts of a node that are executed in the context of the node. -/
def Tree.parts : Tree B → List (Tree B)
  | .cell _ | .nodeFunDef .. | .nodeBreak | .nodeContinue | .nodeVar _ | .nodeLocal _ | .nodeGlobal _ => []
  | .nodeIfElse cond ifBlock elseBlock => [cond, ifBlock, elseBlock]
  | .nodeInstrL first tail => [first, tail]
  | .nodeFor startExpr cond endExpr block => [startExpr, cond, endExpr, block]
  | .nodeWhile cond block => [cond, block]
  | .nodeForeach _ array block => [array, block]
  | .nodeRepeatUntil block cond => [block, cond]
  | .nodeRepeated funcCall repeatNb => [funcCall, repeatNb]
  | .nodeFunCall _ args => args.map Prod.snd
  | .nodeReturn retVal => [retVal]
  | .nodeArrayEl _ index => [index]
  | .nodeAff lvalue rvalue => [lvalue, rvalue]
  | .nodeOpEq _ lvalue rvalue => [lvalue, rvalue]
  | .exprAnd left right => [left, right]
  | .exprOr left right => [left, right]
  | .exprNot operand => [operand]
  | .exprIncr _ _ lvalue => [lvalue]
  | .exprBinary _ left right => [left, right]
  | .exprUnary _ operand => [operand]
  | .compRe _ _ operand => [operand]

/-- A relation between computations that is kept by sequences and has any change of the world in it. -/
structure Framed (Rel : ∀ α : Type, M B α → M B α → Prop) : Prop where
  pure : ∀ {α : Type} (a : α), Rel α (pure a) (pure a)
  bind : ∀ {α β : Type} {m m' : M B α} {f f' : α → M B β}, Rel α m m' → (∀ a, Rel β (f a) (f' a)) →
    Rel β (m >>= f) (m' >>= f')
  get : Rel (State B) get get
  stuck : ∀ {α : Type} (m : M B α), Rel α stuck m
  world : ∀ f : State B → B.World,
    Rel Unit (modify fun σ => { σ with world := f σ }) (modify fun σ => { σ with world := f σ })

/-- What sets a flag is in the relation as well. -/
structure Flagged (Rel : ∀ α : Type, M B α → M B α → Prop) : Prop where
  breakFlag : ∀ flag, Rel Unit (modify (State.setBreak flag)) (modify (State.setBreak flag))
  contFlag : ∀ flag, Rel Unit (modify (State.setCont flag)) (modify (State.setCont flag))

/-- What computations ensure. -/
theorem ensures_framed {R Q : State B → State B → Prop} (hRel : Chained R Q)
    (hWorld : ∀ σ world, R σ { σ with world := world }) : Framed fun _ m _ => Ensures R Q m where
  pure a := hRel.pure a
  bind hm hf := hRel.bind hm hf
  get := hRel.get
  stuck _ := hRel.stuck
  world f := Ensures.modify fun σ => hWorld σ (f σ)

theorem le_framed : Framed (B := B) fun _ m m' => Le m m' where
  pure _ := Le.refl _
  bind hm hf := Le.bind hm hf
  get := Le.refl _
  stuck m := Le.stuck m
  world _ := Le.refl _

theorem le_flagged : Flagged (B := B) fun _ m m' => Le m m' where
  breakFlag _ := Le.refl _
  contFlag _ := Le.refl _

section Related

variable {Rel : ∀ α : Type, M B α → M B α → Prop} {exec exec' : Tree B → M B (Option B.Cell)}
variable (hR : Framed Rel)

include hR

theorem Framed.onWorld {α : Type} (f : B.World → α × B.World) : Rel α (onWorld f) (onWorld f) :=
  hR.bind hR.get fun _ => hR.bind (hR.world fun σ => (f σ.world).2) fun _ => hR.pure _

theorem Framed.askWorld {α : Type} (f : B.World → α) : Rel α (askWorld f) (askWorld f) :=
  hR.bind hR.get fun _ => hR.pure _

theorem Framed.orStuck {α : Type} (o : Option α) : Rel α (orStuck o) (orStuck o) := by
  cases o with
  | none => exact hR.stuck _
  | some a => exact hR.pure a

/-! Conversions. -/

variable (hCells : ∀ c, Rel _ (exec (.cell c)) (exec' (.cell c)))

include hCells

/-- `cell2atom` is related to itself if executing is, with more fuel as well. -/
theorem cell2atom_related {t : Tree B} (ht : Rel _ (exec t) (exec' t)) {fuel fuel' : Nat}
    (hFuel : fuel ≤ fuel') : Rel _ (cell2atom exec fuel t) (cell2atom exec' fuel' t) := by
  fun_induction cell2atom exec fuel t generalizing fuel' with
  | case1 | case2 | case3 =>
      unfold cell2atom
      exact hR.pure _
  | case4 => exact hR.stuck _
  | case5 fuel t hNone hFake hLeaf ih =>
      obtain ⟨fuel', rfl⟩ := Nat.exists_eq_succ_of_ne_zero (Nat.ne_zero_of_lt hFuel)
      rw [cell2atom]
      · exact hR.bind ht fun c => ih c (hCells c) (Nat.le_of_succ_le_succ hFuel)
      · exact hNone
      · exact hFake
      · exact hLeaf

/-- So is `cell2bool`. -/
theorem cell2bool_related {t : Tree B} (ht : Rel _ (exec t) (exec' t)) {fuel fuel' : Nat}
    (hFuel : fuel ≤ fuel') : Rel _ (cell2bool exec fuel t) (cell2bool exec' fuel' t) := by
  fun_induction cell2bool exec fuel t generalizing fuel' with
  | case1 | case2 | case3 =>
      unfold cell2bool
      exact hR.pure _
  | case4 => exact hR.stuck _
  | case5 fuel t hNone hFake hLeaf ih =>
      obtain ⟨fuel', rfl⟩ := Nat.exists_eq_succ_of_ne_zero (Nat.ne_zero_of_lt hFuel)
      rw [cell2bool]
      · exact hR.bind ht fun c => ih c (hCells c) (Nat.le_of_succ_le_succ hFuel)
      · exact hNone
      · exact hFake
      · exact hLeaf

theorem cell2int_related {t : Tree B} (ht : Rel _ (exec t) (exec' t)) {fuel fuel' : Nat}
    (hFuel : fuel ≤ fuel') : Rel _ (cell2int exec fuel t) (cell2int exec' fuel' t) := by
  fun_induction cell2int exec fuel t generalizing fuel' with
  | case1 | case2 =>
      unfold cell2int
      exact hR.pure _
  | case3 =>
      unfold cell2int
      exact hR.orStuck _
  | case4 => exact hR.stuck _
  | case5 fuel t hNone hFake hLeaf ih =>
      obtain ⟨fuel', rfl⟩ := Nat.exists_eq_succ_of_ne_zero (Nat.ne_zero_of_lt hFuel)
      rw [cell2int]
      · exact hR.bind ht fun c => ih c (hCells c) (Nat.le_of_succ_le_succ hFuel)
      · exact hNone
      · exact hFake
      · exact hLeaf

variable {fuel fuel' : Nat} (hFuel : fuel ≤ fuel')

include hFuel

/-- So is the reading of arguments. -/
theorem addArgs_related {args : List (Option String × Tree B)}
    (hArgs : ∀ t ∈ args.map Prod.snd, Rel _ (exec t) (exec' t)) (frame : B.Frame) (named : List String) :
    Rel _ (addArgs exec fuel args frame named) (addArgs exec' fuel' args frame named) := by
  induction args generalizing frame named with
  | nil => exact hR.pure _
  | cons arg next ih =>
      obtain ⟨name, val⟩ := arg
      rw [List.map_cons, List.forall_mem_cons] at hArgs
      apply hR.bind (cell2atom_related hR hCells hArgs.1 hFuel)
      intro pc2
      cases name with
      | none => exact hR.bind (hR.askWorld _) fun frame => ih hArgs.2 frame named
      | some name =>
          change Rel _ (if name ∈ named then _ else _) (if name ∈ named then _ else _)
          split
          · exact hR.pure _
          · exact hR.bind (hR.askWorld _) fun frame => ih hArgs.2 frame (name :: named)

theorem binary_related (op : BinOp) {left right : Tree B}
    (hLeft : Rel _ (exec left) (exec' left)) (hRight : Rel _ (exec right) (exec' right)) :
    Rel _ (binary exec fuel op left right) (binary exec' fuel' op left right) := by
  unfold binary
  split
  · apply hR.bind (cell2int_related hR hCells hLeft hFuel)
    intro x
    exact hR.bind (cell2int_related hR hCells hRight hFuel) fun y => hR.pure _
  · apply hR.bind (cell2atom_related hR hCells hLeft hFuel)
    intro tc1
    apply hR.bind (cell2atom_related hR hCells hRight hFuel)
    intro tc2
    exact hR.bind (hR.askWorld _) fun result => hR.orStuck result

omit hCells hFuel in
theorem repeatedLoop_related {funcCall : Tree B} (hCall : Rel _ (exec funcCall) (exec' funcCall)) (n : Nat) :
    Rel _ (repeatedLoop exec funcCall n) (repeatedLoop exec' funcCall n) := by
  induction n with
  | zero => exact hR.pure _
  | succ n ih => exact hR.bind hCall fun _ => ih

/-- A node without a flag of its own, where calls and declarations keep the relation as well. -/
theorem execSimple_related
    (hOps : ∀ op c c', Rel _ (exec (.exprBinary op (.cell c) (.cell c'))) (exec' (.exprBinary op (.cell c) (.cell c'))))
    (hDecls : ∀ name block, Rel (Option B.Cell) (declNaslFunc name block) (declNaslFunc name block))
    {t : Tree B} (hSimple : t.isSimple = true) (hParts : ∀ c ∈ t.parts, Rel _ (exec c) (exec' c))
    (hCalls : ∀ name args, t = .nodeFunCall name args → Rel _ (execNode exec fuel t) (execNode exec' fuel' t)) :
    Rel _ (execNode exec fuel t) (execNode exec' fuel' t) := by
  cases t with
  | nodeIfElse | nodeInstrL | nodeFor | nodeWhile | nodeForeach | nodeRepeatUntil | nodeReturn |
    nodeBreak | nodeContinue => cases hSimple
  | cell c =>
      match c with
      | none | some .fake | some (.leaf v) => exact hR.pure _
      | some (.refVar v) => exact hR.bind (hR.askWorld _) fun value => hR.pure _
  | nodeRepeated funcCall repeatNb =>
      apply hR.bind (cell2int_related hR hCells (hParts repeatNb (by simp [Tree.parts])) hFuel)
      intro n
      split
      · exact hR.pure _
      · exact repeatedLoop_related hR (hParts funcCall (by simp [Tree.parts])) _
  | nodeFunDef name block => exact hDecls name block
  | nodeFunCall name args => exact hCalls name args rfl
  | nodeArrayEl name index =>
      exact hR.bind (cell2atom_related hR hCells (hParts index (by simp [Tree.parts])) hFuel) fun idx =>
        hR.onWorld _
  | nodeAff lvalue rvalue =>
      apply hR.bind (hParts lvalue (by simp [Tree.parts]))
      intro tc1
      exact hR.bind (hParts rvalue (by simp [Tree.parts])) fun tc2 => hR.onWorld _
  | nodeOpEq op lvalue rvalue =>
      apply hR.bind (hParts lvalue (by simp [Tree.parts]))
      intro tc1
      apply hR.bind (hParts rvalue (by simp [Tree.parts]))
      intro tc2
      exact hR.bind (hOps op tc1 tc2) fun ret2 => hR.onWorld _
  | nodeVar | nodeLocal | nodeGlobal =>
      rw [execNode]
      exact hR.onWorld _
  | exprAnd left right =>
      apply hR.bind (cell2bool_related hR hCells (hParts left (by simp [Tree.parts])) hFuel)
      intro x
      cases x with
      | false => exact hR.pure _
      | true =>
          exact hR.bind (cell2bool_related hR hCells (hParts right (by simp [Tree.parts])) hFuel)
            fun y => hR.pure _
  | exprOr left right =>
      apply hR.bind (cell2bool_related hR hCells (hParts left (by simp [Tree.parts])) hFuel)
      intro x
      cases x with
      | false =>
          exact hR.bind (cell2bool_related hR hCells (hParts right (by simp [Tree.parts])) hFuel)
            fun y => hR.pure _
      | true => exact hR.pure _
  | exprNot operand =>
      exact hR.bind (cell2bool_related hR hCells (hParts operand (by simp [Tree.parts])) hFuel) fun x =>
        hR.pure _
  | exprIncr pre val lvalue =>
      apply hR.bind (hParts lvalue (by simp [Tree.parts]))
      intro tc2
      cases tc2 with
      | none => exact hR.pure _
      | some tc2 => exact hR.onWorld _
  | exprBinary op left right =>
      exact binary_related hR hCells hFuel op (hParts left (by simp [Tree.parts]))
        (hParts right (by simp [Tree.parts]))
  | exprUnary op operand =>
      exact hR.bind (cell2int_related hR hCells (hParts operand (by simp [Tree.parts])) hFuel) fun x =>
        hR.pure _
  | compRe negated regex operand =>
      have hAtom := cell2atom_related hR hCells (hParts operand (by simp [Tree.parts])) hFuel
      simp only [execNode]
      split
      · exact hR.pure _
      · exact hR.pure _
      · exact hR.pure _
      · exact hR.bind hAtom fun s1 => hR.bind (hR.askWorld _) fun flag => hR.pure _

/-! Loops and the nodes with flags. -/

variable (hFlags : Flagged Rel)

omit hCells hFuel in
include hFlags in
/-- What a loop does after its block. -/
theorem round_related {next next' : M B (Option B.Cell)} (hNext : Rel _ next next') :
    Rel (Option B.Cell) (do
      let σ ← get
      if σ.lexic.breakFlag then do
        modify (·.setBreak false)
        return some .fake
      else do
        modify (·.setCont false)
        next) (do
      let σ ← get
      if σ.lexic.breakFlag then do
        modify (·.setBreak false)
        return some .fake
      else do
        modify (·.setCont false)
        next') := by
  apply hR.bind hR.get
  intro σ
  split
  · exact hR.bind (hFlags.breakFlag false) fun _ => hR.pure _
  · exact hR.bind (hFlags.contFlag false) fun _ => hNext

section Loops

variable {cond endExpr block : Tree B} (hCond : Rel _ (exec cond) (exec' cond))
  (hBlock : Rel _ (exec block) (exec' block))

include hFlags hBlock

omit hCells in
/-- A foreach loop is related to itself if its block is. -/
theorem foreachLoop_related (v : B.Cell) (ai : B.Iterator) :
    Rel _ (foreachLoop exec v block fuel ai) (foreachLoop exec' v block fuel' ai) := by
  induction fuel generalizing fuel' ai with
  | zero => exact hR.stuck _
  | succ fuel ih =>
      obtain ⟨fuel', rfl⟩ := Nat.exists_eq_succ_of_ne_zero (Nat.ne_zero_of_lt hFuel)
      apply hR.bind (hR.askWorld _)
      intro val
      match val with
      | none => exact hR.pure _
      | some (val, ai) =>
          apply hR.bind (hR.onWorld _)
          intro _
          apply hR.bind hBlock
          intro _
          apply hR.bind hR.get
          intro σ
          split
          · exact hR.pure _
          · split
            · exact hR.bind (hFlags.breakFlag false) fun _ => hR.pure _
            · exact hR.bind (hFlags.contFlag false) fun _ => ih (Nat.le_of_succ_le_succ hFuel) ai

include hCond

/-- A for loop is if its parts are. -/
theorem forLoop_related (hEnd : Rel _ (exec endExpr) (exec' endExpr)) :
    Rel _ (forLoop exec cond endExpr block fuel) (forLoop exec' cond endExpr block fuel') := by
  induction fuel generalizing fuel' with
  | zero => exact hR.stuck _
  | succ fuel ih =>
      obtain ⟨fuel', rfl⟩ := Nat.exists_eq_succ_of_ne_zero (Nat.ne_zero_of_lt hFuel)
      have hRest := Nat.le_of_succ_le_succ hFuel
      apply hR.bind hR.get
      intro σ
      split
      · exact hR.pure _
      · apply hR.bind hCond
        intro ret
        split
        · exact hR.pure _
        · apply hR.bind (cell2bool_related hR hCells (hCells ret) hRest)
          intro flag
          split
          · exact hR.pure _
          · exact hR.bind hBlock fun _ => round_related hR hFlags (hR.bind hEnd fun _ => ih hRest)

/-- A while loop is if its parts are. -/
theorem whileLoop_related :
    Rel _ (whileLoop exec cond block fuel) (whileLoop exec' cond block fuel') := by
  induction fuel generalizing fuel' with
  | zero => exact hR.stuck _
  | succ fuel ih =>
      obtain ⟨fuel', rfl⟩ := Nat.exists_eq_succ_of_ne_zero (Nat.ne_zero_of_lt hFuel)
      have hRest := Nat.le_of_succ_le_succ hFuel
      apply hR.bind hR.get
      intro σ
      split
      · exact hR.pure _
      · apply hR.bind hCond
        intro ret
        split
        · exact hR.pure _
        · apply hR.bind (cell2bool_related hR hCells (hCells ret) hRest)
          intro flag
          split
          · exact hR.pure _
          · exact hR.bind hBlock fun _ => round_related hR hFlags (ih hRest)

/-- A repeat loop is if its parts are. -/
theorem repeatLoop_related :
    Rel _ (repeatLoop exec block cond fuel) (repeatLoop exec' block cond fuel') := by
  induction fuel generalizing fuel' with
  | zero => exact hR.stuck _
  | succ fuel ih =>
      obtain ⟨fuel', rfl⟩ := Nat.exists_eq_succ_of_ne_zero (Nat.ne_zero_of_lt hFuel)
      have hRest := Nat.le_of_succ_le_succ hFuel
      apply hR.bind hR.get
      intro σ
      split
      · exact hR.pure _
      · apply hR.bind hBlock
        intro _
        apply round_related hR hFlags
        apply hR.bind hCond
        intro ret
        apply hR.bind (cell2bool_related hR hCells (hCells ret) hRest)
        intro flag
        split
        · exact hR.pure _
        · exact ih hRest

end Loops

/-- A return is if leaving the function and its value are. -/
theorem naslReturn_related
    (hLeave : ∀ retv, Rel Unit (modify (State.leave retv)) (modify (State.leave retv))) {retv : Tree B}
    (hRetv : Rel _ (exec retv) (exec' retv)) :
    Rel _ (naslReturn exec fuel retv) (naslReturn exec' fuel' retv) := by
  apply hR.bind (cell2atom_related hR hCells hRetv hFuel)
  intro retv
  apply hR.bind (hR.askWorld _)
  intro retv
  exact hR.bind (hLeave retv) fun _ => hR.pure _

include hFlags

/-- A node with flags, where `return` keeps the relation as well. -/
theorem execControl_related {t : Tree B} (hControl : t.isSimple = false)
    (hParts : ∀ c ∈ t.parts, Rel _ (exec c) (exec' c))
    (hReturn : ∀ retv, Rel _ (exec retv) (exec' retv) →
      Rel _ (naslReturn exec fuel retv) (naslReturn exec' fuel' retv)) :
    Rel _ (execNode exec fuel t) (execNode exec' fuel' t) := by
  cases t with
  | nodeIfElse cond ifBlock elseBlock =>
      apply hR.bind (hParts cond (by simp [Tree.parts]))
      intro ret
      apply hR.bind (cell2bool_related hR hCells (hCells ret) hFuel)
      intro flag
      have hElse := hParts elseBlock (by simp [Tree.parts])
      split
      · exact hParts ifBlock (by simp [Tree.parts])
      · split
        · exact hR.pure _
        · exact hElse
  | nodeInstrL first tail =>
      apply hR.bind (hParts first (by simp [Tree.parts]))
      intro ret
      apply hR.bind hR.get
      intro σ
      have hTail := hParts tail (by simp [Tree.parts])
      split
      · exact hR.pure _
      · split
        · exact hR.pure _
        · exact hTail
  | nodeFor startExpr cond endExpr block =>
      apply hR.bind (hParts startExpr (by simp [Tree.parts]))
      intro _
      exact forLoop_related hR hCells hFuel hFlags (hParts cond (by simp [Tree.parts]))
        (hParts block (by simp [Tree.parts])) (hParts endExpr (by simp [Tree.parts]))
  | nodeWhile cond block =>
      exact whileLoop_related hR hCells hFuel hFlags (hParts cond (by simp [Tree.parts]))
        (hParts block (by simp [Tree.parts]))
  | nodeRepeatUntil block cond =>
      exact repeatLoop_related hR hCells hFuel hFlags (hParts cond (by simp [Tree.parts]))
        (hParts block (by simp [Tree.parts]))
  | nodeForeach index array block =>
      apply hR.bind (hR.onWorld _)
      intro v
      cases v with
      | none => exact hR.pure _
      | some v =>
          apply hR.bind (hParts array (by simp [Tree.parts]))
          intro a
          exact hR.bind (hR.askWorld _) fun ai =>
            foreachLoop_related hR hFuel hFlags (hParts block (by simp [Tree.parts])) v ai
  | nodeReturn retVal => exact hReturn retVal (hParts retVal (by simp [Tree.parts]))
  | nodeBreak => exact hR.bind (hFlags.breakFlag true) fun _ => hR.pure _
  | nodeContinue => exact hR.bind (hFlags.contFlag true) fun _ => hR.pure _
  | cell | nodeRepeated | nodeFunDef | nodeFunCall | nodeArrayEl | nodeAff | nodeOpEq | nodeVar |
    nodeLocal | nodeGlobal | exprAnd | exprOr | exprNot | exprIncr | exprBinary | exprUnary | compRe =>
      cases hControl

end Related

/-! What is ensured by the parts is ensured by the node. -/

section Ensures

variable {R Q : State B → State B → Prop} {exec : Tree B → M B (Option B.Cell)}
variable (hR : Framed fun _ m _ => Ensures R Q m) (hCells : ∀ c, Ensures R Q (exec (.cell c)))

include hR hCells

theorem cell2atom_ensures (fuel : Nat) {t : Tree B} (ht : Ensures R Q (exec t)) :
    Ensures R Q (cell2atom exec fuel t) :=
  @cell2atom_related B _ exec exec hR hCells t ht fuel fuel (Nat.le_refl fuel)

theorem cell2bool_ensures (fuel : Nat) {t : Tree B} (ht : Ensures R Q (exec t)) :
    Ensures R Q (cell2bool exec fuel t) :=
  @cell2bool_related B _ exec exec hR hCells t ht fuel fuel (Nat.le_refl fuel)

theorem addArgs_ensures (fuel : Nat) {args : List (Option String × Tree B)}
    (hArgs : ∀ t ∈ args.map Prod.snd, Ensures R Q (exec t)) (frame : B.Frame) (named : List String) :
    Ensures R Q (addArgs exec fuel args frame named) :=
  @addArgs_related B _ exec exec hR hCells fuel fuel (Nat.le_refl fuel) args hArgs frame named

/-- What holds of the parts of a simple node holds of the node. -/
theorem execSimple_ensures
    (hOps : ∀ op c c', Ensures R Q (exec (.exprBinary op (.cell c) (.cell c'))))
    (hDecls : ∀ name block, Ensures R Q (declNaslFunc name block : M B (Option B.Cell))) (fuel : Nat)
    {t : Tree B} (hSimple : t.isSimple = true) (hParts : ∀ c ∈ t.parts, Ensures R Q (exec c))
    (hCalls : ∀ name args, t = .nodeFunCall name args → Ensures R Q (execNode exec fuel t)) :
    Ensures R Q (execNode exec fuel t) :=
  @execSimple_related B _ exec exec hR hCells fuel fuel (Nat.le_refl fuel) hOps hDecls t hSimple hParts
    hCalls

/-- What holds of the parts of a control node holds of the node, where it holds of flags and
returns. -/
theorem execControl_ensures (hFlags : Flagged fun _ m _ => Ensures R Q m) (fuel : Nat) {t : Tree B}
    (hControl : t.isSimple = false) (hParts : ∀ c ∈ t.parts, Ensures R Q (exec c))
    (hReturn : ∀ retv, Ensures R Q (exec retv) → Ensures R Q (naslReturn exec fuel retv)) :
    Ensures R Q (execNode exec fuel t) :=
  @execControl_related B _ exec exec hR hCells fuel fuel (Nat.le_refl fuel) hFlags t hControl hParts hReturn

theorem naslReturn_ensures (hLeave : ∀ retv, Ensures R Q (modify (State.leave retv) : M B Unit)) (fuel : Nat)
    {retv : Tree B} (hRetv : Ensures R Q (exec retv)) : Ensures R Q (naslReturn exec fuel retv) :=
  @naslReturn_related B _ exec exec hR hCells fuel fuel (Nat.le_refl fuel) hLeave retv hRetv

end Ensures

/-- A node is executed after it has been noted, in a context without a return value. -/
theorem naslExec_outcome {R Q : State B → State B → Prop} (hRel : Chained R Q) {fuel : Nat} {st : Tree B}
    {σ : State B}
    (h : σ.lexic.retVal = none → Outcome R Q σ (execNode (naslExec fuel) fuel st (σ.note (.node st)))) :
    Outcome R Q σ (naslExec (fuel + 1) st σ) := by
  unfold naslExec
  rw [bind_of_some (get_apply σ)]
  split
  · exact hRel.refl σ
  · rename_i hNone
    rw [Option.not_isSome_iff_eq_none] at hNone
    split
    · exact hRel.refl σ
    · split
      · exact hRel.refl σ
      · exact hRel.refl σ
      · rw [bind_of_some (modify_apply _ σ)]
        exact h hNone

end Interpreter
