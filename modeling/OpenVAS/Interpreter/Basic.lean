import OpenVAS.Lib.StateComp

/-! The tree-walking interpreter of NASL, after `exec.c` and `nasl_func.c`: every type of node, the
contexts with their flags, and calls. What is done with values, variables and built-in functions
other than `exit` is given from outside. -/
namespace Interpreter

open StateComp

/-- What `nasl_exec` returns, apart from NULL: FAKE_CELL, a leaf or a REF_VAR. -/
inductive Cell (Value Ref : Type) where
  | fake
  | leaf (v : Value)
  | refVar (refVal : Ref)

/-- The operators of EXPR_ and COMP_ nodes with two operands. -/
inductive BinOp where
  | plus
  | minus
  | mult
  | div
  | modulo
  | expo
  | bitAnd
  | bitOr
  | bitXor
  | lShift
  | rShift
  | rUshift
  | compMatch
  | compNomatch
  | compLt
  | compLe
  | compEq
  | compNe
  | compGt
  | compGe
deriving DecidableEq

/-- The operands are converted by `cell2intW`; otherwise they go through `cell2atom`. -/
def BinOp.onInts : BinOp → Bool
  | .mult | .div | .modulo | .expo | .bitAnd | .bitOr | .bitXor | .lShift | .rShift | .rUshift => true
  | _ => false

inductive UnOp where
  | bitNot
  | uMinus
deriving DecidableEq

/-- What the interpreter takes from elsewhere. A value is what a CONST_INT, CONST_STR, CONST_DATA,
REF_ARRAY or DYN_ARRAY cell holds, the world has the variables of all contexts and what is outside of
the script, and a frame has the variables of a context that is not chained yet. -/
structure Base where
  Value : Type
  Ref : Type
  World : Type
  Frame : Type
  Iterator : Type
  Regex : Type
  int2cell : Int32 → Value
  /-- `cell2bool` of a leaf. -/
  truth : Value → Bool
  /-- `cell2int3` of a leaf, which does not return for an array. -/
  number : Value → Option Int32
  copyRefArray : Value → World → Value
  naslReadVarRef : Ref → World → Option Value
  getVariableByName : String → World → Option (Cell Value Ref) × World
  getArrayElem : String → Option (Cell Value Ref) → World → Option (Cell Value Ref) × World
  naslAffect : Option (Cell Value Ref) → Option (Cell Value Ref) → World → World
  naslIncrVariable : Cell Value Ref → Bool → Int32 → World → Option (Cell Value Ref) × World
  declLocalVariables : List String → World → World
  declGlobalVariables : List String → World → World
  naslArrayIterator : Option (Cell Value Ref) → World → Iterator
  naslIterateArray : Iterator → World → Option (Cell Value Ref × Iterator)
  /-- An operator on two atoms; `none` is a conversion that does not return. -/
  onAtoms : BinOp → Option (Cell Value Ref) → Option (Cell Value Ref) → World →
    Option (Option (Cell Value Ref))
  onInts : BinOp → Int32 → Int32 → Int32
  onInt : UnOp → Int32 → Int32
  regexec : Regex → Option (Cell Value Ref) → World → Bool
  initEmptyLexCtxt : Frame
  /-- `add_numbered_var_to_ctxt` or, under a name that is new, `add_named_var_to_ctxt`. -/
  addVarToCtxt : Frame → Option String → Option (Cell Value Ref) → World → Frame
  /-- The variables of a context that is chained, and of one that is freed. -/
  chain : Frame → World → World
  freeLexCtxt : World → World
  /-- A built-in function; `none` is one that does not return. -/
  internal : String → World → Option (Option (Cell Value Ref) × World)
  /-- `get_int_var_by_num (lexic, 0, 0)`. -/
  exitCode : World → Int32
  registerHostDetail : World → World

variable {B : Base}

abbrev Base.Cell (B : Base) := Interpreter.Cell B.Value B.Ref

/-- `tree_cell`, by the type of the node; a link that is NULL is `cell none`. -/
inductive Tree (B : Base) where
  | cell (c : Option B.Cell)
  | nodeIfElse (cond ifBlock elseBlock : Tree B)
  | nodeInstrL (first tail : Tree B)
  | nodeFor (startExpr cond endExpr block : Tree B)
  | nodeWhile (cond block : Tree B)
  | nodeForeach (index : String) (array block : Tree B)
  | nodeRepeatUntil (block cond : Tree B)
  | nodeRepeated (funcCall repeatNb : Tree B)
  | nodeFunDef (name : String) (block : Tree B)
  | nodeFunCall (name : String) (args : List (Option String × Tree B))
  | nodeReturn (retVal : Tree B)
  | nodeBreak
  | nodeContinue
  | nodeArrayEl (name : String) (index : Tree B)
  | nodeAff (lvalue rvalue : Tree B)
  | nodeOpEq (op : BinOp) (lvalue rvalue : Tree B)
  | nodeVar (name : String)
  | nodeLocal (names : List String)
  | nodeGlobal (names : List String)
  | exprAnd (left right : Tree B)
  | exprOr (left right : Tree B)
  | exprNot (operand : Tree B)
  | exprIncr (pre : Bool) (val : Int32) (lvalue : Tree B)
  | exprBinary (op : BinOp) (left right : Tree B)
  | exprUnary (op : UnOp) (operand : Tree B)
  | compRe (negated : Bool) (regex : Option B.Regex) (operand : Tree B)

/-- The block of a function: `nasl_do_exit`, another C function or a tree. -/
inductive Block (B : Base) where
  | doExit
  | internal (pf2 : String)
  | tree (block : Tree B)

structure NaslFunc (B : Base) where
  funcName : String
  /-- FUNC_FLAG_COMPAT. -/
  compat : Bool
  block : Block B

/-- `lex_ctxt`, without its variables. -/
structure Ctxt (B : Base) where
  retVal : Option B.Cell
  fctCtxt : Bool
  breakFlag : Bool
  contFlag : Bool
  functions : List (NaslFunc B)

/-- A node, a function body or a built-in function is started, or `exit` is called while the arguments
of some calls are evaluated. -/
inductive Event (B : Base) where
  | node (st : Tree B)
  | body (funcName : String)
  | builtin (funcName : String)
  | exit (calls : List (List (Option String)))

/-- The current context, those above it, the names in the argument lists that are being evaluated,
innermost first, and what has been started so far, latest first. -/
structure State (B : Base) where
  world : B.World
  lexic : Ctxt B
  up : List (Ctxt B)
  calls : List (List (Option String))
  trace : List (Event B)

abbrev M (B : Base) (α : Type) := Comp (State B) α

/-! Steps on the state. -/

def State.note (σ : State B) (e : Event B) : State B := { σ with trace := e :: σ.trace }

def State.setBreak (flag : Bool) (σ : State B) : State B :=
  { σ with lexic := { σ.lexic with breakFlag := flag } }

def State.setCont (flag : Bool) (σ : State B) : State B :=
  { σ with lexic := { σ.lexic with contFlag := flag } }

/-- The world changes, and something is read of it. -/
def onWorld {α : Type} (f : B.World → α × B.World) : M B α := do
  let σ ← get
  modify fun σ => { σ with world := (f σ.world).2 }
  return (f σ.world).1

/-- Something is read of the world. -/
def askWorld {α : Type} (f : B.World → α) : M B α := do
  let σ ← get
  return f σ.world

/-- Something may not return. -/
def orStuck {α : Type} : Option α → M B α
  | some a => pure a
  | none => stuck

def setRetVal (retv : B.Cell) (c : Ctxt B) : Ctxt B := { c with retVal := some retv }

/-- The contexts up to that of the function get a return value. -/
def setRetValUp (retv : B.Cell) : List (Ctxt B) → List (Ctxt B)
  | [] => []
  | c :: up => setRetVal retv c :: if c.fctCtxt then up else setRetValUp retv up

/-- The context and those above it, as far as the function goes, get a return value. -/
def State.leave (retv : B.Cell) (σ : State B) : State B := { σ with
  lexic := setRetVal retv σ.lexic
  up := if σ.lexic.fctCtxt then σ.up else setRetValUp retv σ.up }

/-! Conversions, with `exec` for `nasl_exec`. -/

section Exec

variable (exec : Tree B → M B (Option B.Cell))

/-- What a cell is once it is executed as often as it takes. -/
def cell2atom : Nat → Tree B → M B (Option B.Cell)
  | _, .cell none => pure none
  | _, .cell (some .fake) => pure (some .fake)
  | _, .cell (some (.leaf v)) => pure (some (.leaf v))
  | 0, _ => stuck
  | fuel + 1, c1 => do
      let c2 ← exec c1
      cell2atom fuel (.cell c2)

/-- Whether a cell is true. NULL and `FAKE_CELL` are not. -/
def cell2bool : Nat → Tree B → M B Bool
  | _, .cell none => pure false
  | _, .cell (some .fake) => pure false
  | _, .cell (some (.leaf v)) => pure (B.truth v)
  | 0, _ => stuck
  | fuel + 1, c => do
      let c2 ← exec c
      cell2bool fuel (.cell c2)

def cell2int : Nat → Tree B → M B Int32
  | _, .cell none => pure 0
  | _, .cell (some .fake) => pure 0
  | _, .cell (some (.leaf v)) => orStuck (B.number v)
  | 0, _ => stuck
  | fuel + 1, c => do
      let c2 ← exec c
      cell2int fuel (.cell c2)

def bool2cell (x : Bool) : Option B.Cell := some (.leaf (B.int2cell (if x then 1 else 0)))

/-! Calls. -/

/-- The arguments, each evaluated and added to the new context; NULL after a name that was there. -/
def addArgs (fuel : Nat) : List (Option String × Tree B) → B.Frame → List String →
    M B (Option B.Frame)
  | [], frame, _ => pure (some frame)
  | (name, val) :: next, frame, named => do
      let pc2 ← cell2atom exec fuel val
      match name with
      | none => do
          let frame ← askWorld (B.addVarToCtxt frame none pc2)
          addArgs fuel next frame named
      | some name =>
          if name ∈ named then pure none
          else do
            let frame ← askWorld (B.addVarToCtxt frame (some name) pc2)
            addArgs fuel next frame (name :: named)

/-- All contexts get the exit code as their return value. -/
def naslDoExit : M B (Option B.Cell) := do
  let retcode ← askWorld B.exitCode
  onWorld fun world => ((), if retcode = 99 then B.registerHostDetail world else world)
  let retc : B.Cell := .leaf (B.int2cell retcode)
  modify fun σ => { σ.note (.exit σ.calls) with
    lexic := setRetVal retc σ.lexic, up := σ.up.map (setRetVal retc) }
  return some retc

/-- The body of a function, in its own context. -/
def callBlock (f : NaslFunc B) : M B (Option B.Cell) :=
  match f.block with
  | .doExit => do
      modify (·.note (.builtin f.funcName))
      naslDoExit
  | .internal pf2 => do
      modify (·.note (.builtin f.funcName))
      let result ← askWorld (B.internal pf2)
      let (retc, world) ← orStuck result
      onWorld fun _ => (retc, world)
  | .tree block => do
      modify (·.note (.body f.funcName))
      let _ ← exec block
      return some .fake

/-- The context of a call is chained to the current one, and freed again at the end. -/
def pushCtxt (frame : B.Frame) : M B Unit :=
  modify fun σ => { σ with
    world := B.chain frame σ.world
    lexic := ⟨none, true, false, false, []⟩
    up := σ.lexic :: σ.up }

/-- The context of the caller is the current one again. -/
def popCtxt : M B Unit := do
  let σ ← get
  match σ.up with
  | [] => stuck
  | c :: up => modify fun σ => { σ with world := B.freeLexCtxt σ.world, lexic := c, up := up }

/-- A return value that the context has, where the result is NULL or FAKE_CELL. -/
def fixRetVal (retc retVal : Option B.Cell) : Option B.Cell :=
  match retc, retVal with
  | none, some (.leaf v) | some .fake, some (.leaf v) => some (.leaf v)
  | none, some (.refVar v) | some .fake, some (.refVar v) => some (.refVar v)
  | _, _ => retc

/-- The call of a function: its arguments in a new context, its block there, and its value. -/
def naslFuncCall (fuel : Nat) (f : NaslFunc B) (argList : List (Option String × Tree B)) :
    M B (Option B.Cell) :=
  if f.compat then pure none
  else do
    modify fun σ => { σ with calls := argList.map Prod.fst :: σ.calls }
    let frame ← addArgs exec fuel argList B.initEmptyLexCtxt []
    modify fun σ => { σ with calls := σ.calls.tail }
    match frame with
    | none => pure none
    | some frame => do
        pushCtxt frame
        let retc ← callBlock exec f
        let σ ← get
        popCtxt
        return fixRetVal retc σ.lexic.retVal

/-- `get_func_ref_by_name`. -/
def getFunc (name : String) (σ : State B) : Option (NaslFunc B) :=
  (σ.lexic :: σ.up).findSome? fun c => c.functions.find? fun f => f.funcName = name

/-- A function is declared in the current context, unless its name is known there or above. -/
def declNaslFunc (name : String) (block : Tree B) : M B (Option B.Cell) := do
  let σ ← get
  match getFunc name σ with
  | some _ => return none
  | none => do
      modify fun σ => { σ with lexic := { σ.lexic with
        functions := ⟨name, false, .tree block⟩ :: σ.lexic.functions } }
      return some .fake

/-- `return`: the value, as an atom, is stored in all contexts up to the function's. -/
def naslReturn (fuel : Nat) (retv : Tree B) : M B (Option B.Cell) := do
  let retv ← cell2atom exec fuel retv
  let retv ← askWorld fun world =>
    match retv with
    | none => Cell.fake
    | some (.leaf v) => .leaf (B.copyRefArray v world)
    | some c => c
  modify (·.leave retv)
  return some .fake

/-! Loops. Each round starts with a look at the return value. -/

/-- The rounds of a for loop. -/
def forLoop (cond endExpr block : Tree B) : Nat → M B (Option B.Cell)
  | 0 => stuck
  | fuel + 1 => do
      let σ ← get
      if σ.lexic.retVal.isSome then return σ.lexic.retVal
      else do
        let ret ← exec cond
        if ret.isNone then return none
        else do
          let flag ← cell2bool exec fuel (.cell ret)
          if !flag then return some .fake
          else do
            let _ ← exec block
            let σ ← get
            if σ.lexic.breakFlag then do
              modify (·.setBreak false)
              return some .fake
            else do
              modify (·.setCont false)
              let _ ← exec endExpr
              forLoop cond endExpr block fuel

/-- The rounds of a while loop. -/
def whileLoop (cond block : Tree B) : Nat → M B (Option B.Cell)
  | 0 => stuck
  | fuel + 1 => do
      let σ ← get
      if σ.lexic.retVal.isSome then return σ.lexic.retVal
      else do
        let ret ← exec cond
        if ret.isNone then return none
        else do
          let flag ← cell2bool exec fuel (.cell ret)
          if !flag then return some .fake
          else do
            let _ ← exec block
            let σ ← get
            if σ.lexic.breakFlag then do
              modify (·.setBreak false)
              return some .fake
            else do
              modify (·.setCont false)
              whileLoop cond block fuel

/-- The rounds of a repeat loop. -/
def repeatLoop (block cond : Tree B) : Nat → M B (Option B.Cell)
  | 0 => stuck
  | fuel + 1 => do
      let σ ← get
      if σ.lexic.retVal.isSome then return σ.lexic.retVal
      else do
        let _ ← exec block
        let σ ← get
        if σ.lexic.breakFlag then do
          modify (·.setBreak false)
          return some .fake
        else do
          modify (·.setCont false)
          let ret ← exec cond
          let flag ← cell2bool exec fuel (.cell ret)
          if flag then return some .fake
          else repeatLoop block cond fuel

/-- The rounds of a foreach loop, over what is left of the array. -/
def foreachLoop (v : B.Cell) (block : Tree B) : Nat → B.Iterator → M B (Option B.Cell)
  | 0, _ => stuck
  | fuel + 1, ai => do
      let val ← askWorld (B.naslIterateArray ai)
      match val with
      | none => return some .fake
      | some (val, ai) => do
          onWorld fun world => ((), B.naslAffect (some v) (some val) world)
          let _ ← exec block
          let σ ← get
          if σ.lexic.retVal.isSome then return some .fake
          else if σ.lexic.breakFlag then do
            modify (·.setBreak false)
            return some .fake
          else do
            modify (·.setCont false)
            foreachLoop v block fuel ai

def repeatedLoop (funcCall : Tree B) : Nat → M B (Option B.Cell)
  | 0 => pure (some .fake)
  | n + 1 => do
      let _ ← exec funcCall
      repeatedLoop funcCall n

/-! Nodes. -/

/-- An operator on two operands, in the conversions that the operator wants. -/
def binary (fuel : Nat) (op : BinOp) (left right : Tree B) : M B (Option B.Cell) :=
  if op.onInts then do
    let x ← cell2int exec fuel left
    let y ← cell2int exec fuel right
    return some (.leaf (B.int2cell (B.onInts op x y)))
  else do
    let tc1 ← cell2atom exec fuel left
    let tc2 ← cell2atom exec fuel right
    let result ← askWorld (B.onAtoms op tc1 tc2)
    orStuck result

/-- The switch on the type of a node. -/
def execNode (fuel : Nat) : Tree B → M B (Option B.Cell)
  | .cell none => pure none
  | .cell (some .fake) => pure (some .fake)
  | .cell (some (.leaf v)) => pure (some (.leaf v))
  | .cell (some (.refVar v)) => do
      let value ← askWorld (B.naslReadVarRef v)
      return value.map .leaf
  | .nodeIfElse cond ifBlock elseBlock => do
      let ret ← exec cond
      let flag ← cell2bool exec fuel (.cell ret)
      if flag then exec ifBlock
      else
        match elseBlock with
        | .cell none => return some .fake
        | _ => exec elseBlock
  | .nodeInstrL first tail => do
      let ret ← exec first
      let σ ← get
      match tail with
      | .cell none => return ret
      | _ => if σ.lexic.breakFlag || σ.lexic.contFlag then return ret else exec tail
  | .nodeFor startExpr cond endExpr block => do
      let _ ← exec startExpr
      forLoop exec cond endExpr block fuel
  | .nodeWhile cond block => whileLoop exec cond block fuel
  | .nodeRepeatUntil block cond => repeatLoop exec block cond fuel
  | .nodeForeach index array block => do
      let v ← onWorld (B.getVariableByName index)
      match v with
      | none => return none
      | some v => do
          let a ← exec array
          let ai ← askWorld (B.naslArrayIterator a)
          foreachLoop exec v block fuel ai
  | .nodeFunDef name block => declNaslFunc name block
  | .nodeFunCall name args => do
      let σ ← get
      match getFunc name σ with
      | none => return none
      | some pf => naslFuncCall exec fuel pf args
  | .nodeRepeated funcCall repeatNb => do
      let n ← cell2int exec fuel repeatNb
      if n ≤ 0 then return none else repeatedLoop exec funcCall n.toInt.toNat
  | .nodeReturn retVal => naslReturn exec fuel retVal
  | .nodeBreak => do
      modify (·.setBreak true)
      return some .fake
  | .nodeContinue => do
      modify (·.setCont true)
      return some .fake
  | .nodeArrayEl name index => do
      let idx ← cell2atom exec fuel index
      onWorld (B.getArrayElem name idx)
  | .nodeAff lvalue rvalue => do
      let tc1 ← exec lvalue
      let tc2 ← exec rvalue
      onWorld fun world => (tc2, B.naslAffect tc1 tc2 world)
  | .nodeOpEq op lvalue rvalue => do
      let tc1 ← exec lvalue
      let tc2 ← exec rvalue
      let ret2 ← exec (.exprBinary op (.cell tc1) (.cell tc2))
      onWorld fun world => (ret2, B.naslAffect tc1 ret2 world)
  | .nodeVar name => onWorld (B.getVariableByName name)
  | .nodeLocal names => onWorld fun world => (some .fake, B.declLocalVariables names world)
  | .nodeGlobal names => onWorld fun world => (some .fake, B.declGlobalVariables names world)
  | .exprAnd left right => do
      let x ← cell2bool exec fuel left
      if !x then return bool2cell false
      else do
        let y ← cell2bool exec fuel right
        return bool2cell y
  | .exprOr left right => do
      let x ← cell2bool exec fuel left
      if x then return bool2cell x
      else do
        let y ← cell2bool exec fuel right
        return bool2cell y
  | .exprNot operand => do
      let x ← cell2bool exec fuel operand
      return bool2cell (!x)
  | .exprIncr pre val lvalue => do
      let tc2 ← exec lvalue
      match tc2 with
      | none => return none
      | some tc2 => onWorld (B.naslIncrVariable tc2 pre val)
  | .exprBinary op left right => binary exec fuel op left right
  | .exprUnary op operand => do
      let x ← cell2int exec fuel operand
      return some (.leaf (B.int2cell (B.onInt op x)))
  | .compRe negated regex operand =>
      match regex, operand with
      | none, _ => pure none
      | _, .cell none | _, .cell (some .fake) => pure none
      | some regex, _ => do
          let s1 ← cell2atom exec fuel operand
          let flag ← askWorld (B.regexec regex s1)
          return bool2cell (flag != negated)

end Exec

/-- `nasl_exec`: a return value or a flag that is pending ends it at once. The line number that
it reads from `st` in front of its test for `FAKE_CELL` is left out, as no caller passes
`FAKE_CELL` for a node of the tree. -/
def naslExec : Nat → Tree B → M B (Option B.Cell)
  | 0, _ => stuck
  | fuel + 1, st => do
      let σ ← get
      if σ.lexic.retVal.isSome then return σ.lexic.retVal
      else if σ.lexic.breakFlag || σ.lexic.contFlag then return some .fake
      else
        match st with
        | .cell none => return none
        | .cell (some .fake) => return some .fake
        | _ => do
            modify (·.note (.node st))
            execNode (naslExec fuel) fuel st

/-- Numbers only, and no variables. -/
def plainBase : Base where
  Value := Int32
  Ref := Unit
  World := Unit
  Frame := Unit
  Iterator := List Int32
  Regex := Unit
  int2cell x := x
  truth v := v ≠ 0
  number v := some v
  copyRefArray v _ := v
  naslReadVarRef _ _ := none
  getVariableByName _ world := (none, world)
  getArrayElem _ _ world := (none, world)
  naslAffect _ _ world := world
  naslIncrVariable _ _ _ world := (none, world)
  declLocalVariables _ world := world
  declGlobalVariables _ world := world
  naslArrayIterator _ _ := []
  naslIterateArray ai _ :=
    match ai with
    | [] => none
    | val :: ai => some (.leaf val, ai)
  onAtoms _ tc1 _ _ := some tc1
  onInts _ x _ := x
  onInt _ x := x
  regexec _ _ _ := false
  initEmptyLexCtxt := ()
  addVarToCtxt _ _ _ _ := ()
  chain _ world := world
  freeLexCtxt world := world
  internal _ world := some (some .fake, world)
  exitCode _ := 0
  registerHostDetail world := world

end Interpreter
