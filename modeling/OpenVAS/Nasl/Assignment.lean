import OpenVAS.Nasl.Stores

/-! The assignment of `nasl_var.c`. The variable is cleared before the value is copied into it, so
that an array which contains the variable is copied while the copy grows inside of it. -/
namespace Nasl

open CString

/-- What `nasl_exec` returns for the two sides of an assignment, apart from NULL. -/
inductive Cell where
  | fake
  | constInt (iVal : Int32)
  | constStr (strVal : Option (List UInt8))
  | constData (strVal : Option (List UInt8))
  | refVar (refVal : Option Address)
  | refArray (refVal : Address)
  | dynArray (refVal : NaslArray Var)
  | other

/-- The memory while `v1` is assigned. What was inside of it before hangs in `v0`. -/
structure Memory where
  store : Var
  v1 : Address
  v0 : Var

def Memory.read (m : Memory) (address : Address) : Option Var :=
  if m.v1 <+: address ∧ m.v1 ≠ address then m.v0.get (address.drop m.v1.length)
  else m.store.get address

/-- The array at an address, as it is at this moment. -/
def Memory.readArray (m : Memory) (address : Address) : NaslArray Var :=
  match m.read address with
  | some (.array a) => a
  | _ => emptyArray

/-- The array in `v1` written over. -/
def Memory.modifyArray (m : Memory) (f : NaslArray Var → NaslArray Var) : Memory :=
  match m.store.get m.v1 with
  | some (.array a1) => { m with store := m.store.set m.v1 (.array (f a1)) }
  | _ => m

def putNum (a1 : NaslArray Var) (i : Nat) (v : Var) : NaslArray Var :=
  { a1 with numElt := a1.numElt.set i (some (copyAnonVar v)) }

def putNamed (a1 : NaslArray Var) (h : Nat) (v2 : CString × Var) : NaslArray Var :=
  { a1 with hashElt := a1.hashElt.modify h ((v2.1, copyAnonVar v2.2) :: ·) }

def copyNumStep (a : Address) (m : Memory) (i : Nat) : Memory :=
  match (m.readArray a).numElt[i]?.getD none with
  | some v => m.modifyArray (putNum · i v)
  | none => m

def copyNamedStep (a : Address) (i : Nat) (m : Memory) (k : Nat) : Memory :=
  match ((m.readArray a).hashElt[i]?.getD [])[k]? with
  | some v2 => m.modifyArray (putNamed · i v2)
  | none => m

/-- `copy_array (&v1->v.v_arr, a, 1)`, element after element. -/
def copyArrayInto (a : Address) (m : Memory) : Memory :=
  let a2 := m.readArray a
  let m := m.modifyArray fun a1 => { a1 with numElt := List.replicate a2.numElt.length none }
  let m := (List.range a2.numElt.length).foldl (copyNumStep a) m
  let m := m.modifyArray fun a1 => { a1 with hashElt := List.replicate a2.hashElt.length [] }
  (List.range a2.hashElt.length).foldl
    (fun m i => (List.range (a2.hashElt[i]?.getD []).length).foldl (copyNamedStep a i) m) m

/-- A variable of the same type that is filled with zero bytes. -/
def zeroed : Var → Var
  | .undef => .undef
  | .int _ => .int 0
  | .string _ => .string none
  | .data _ => .data none
  | .array _ => .array emptyArray

def affectToAnonVar (store : Var) (v1 : Address) (rval : Option Cell) : Var :=
  match store.get v1 with
  | none => store
  | some v0 =>
      match rval with
      | none | some .fake => store.set v1 .undef
      | some (.constInt iVal) => store.set v1 (.int iVal)
      | some (.constStr strVal) => store.set v1 (.string strVal)
      | some (.constData strVal) => store.set v1 (.data strVal)
      | some (.refVar none) => store.set v1 .undef
      | some (.refVar (some v2)) =>
          if v2 = v1 then store
          else
            match store.get v2 with
            | none => store
            | some v =>
                let m : Memory := ⟨store.set v1 (zeroed v), v1, v0⟩
                match v with
                | .array _ => (copyArrayInto v2 m).store
                | _ => m.store.set v1 ((m.read v2).getD .undef)
      | some (.refArray a) =>
          if a = v1 then store
          else (copyArrayInto a ⟨store.set v1 (.array emptyArray), v1, v0⟩).store
      | some (.dynArray a) => store.set v1 (.array (copyArray a true))
      | some .other => store

def naslAffect (store : Var) (lval rval : Option Cell) : Var :=
  match lval with
  | some (.refVar (some v1)) => affectToAnonVar store v1 rval
  | _ => store

/-! What an assignment should do. -/

/-- A reference leads to a variable, and a reference to an array to one. -/
def Cell.Points (store : Var) : Cell → Prop
  | .refVar (some v2) => ∃ v, store.get v2 = some v
  | .refArray a => ∃ arr, store.get a = some (.array arr)
  | .other => False
  | _ => True

/-- The value of the right side. -/
def rvalValue (store : Var) : Option Cell → Option Value
  | none | some .fake | some (.refVar none) => some .undef
  | some (.constInt iVal) => some (.int iVal)
  | some (.constStr strVal) => some (.string strVal)
  | some (.constData strVal) => some (.data strVal)
  | some (.refVar (some v2)) => (store.get v2).map (Var.value false)
  | some (.refArray a) => (store.get a).map (Var.value false)
  | some (.dynArray a) => some (.array (valueAt false a))
  | some .other => none

/-- The variable gets the value of the right side, and others that neither contain it nor lie inside
of it stay as they are. -/
def AssignsValue (store : Var) (v1 : Address) (rval : Option Cell) : Prop :=
  let after := naslAffect store (some (.refVar (some v1))) rval
  (after.get v1).map (Var.value false) = rvalValue store rval ∧
    ∀ address, ¬ address <+: v1 → ¬ v1 <+: address → after.get address = store.get address

/-- What stands in an array before an element, in the order in which it is copied. -/
def before (a : NaslArray Var) : Step → NaslArray Var
  | .num i => ⟨a.numElt.mapIdx fun j elt => if j < i then elt else none, []⟩
  | .named h k => ⟨a.numElt, a.hashElt.mapIdx fun g chain =>
      if g < h then chain else if g = h then chain.take k else []⟩

/-- The array at `a` with what the assigned variable is replaced by, if it lies inside: a copy of the
elements before it. -/
def seen (arr : NaslArray Var) (v1 a : Address) : NaslArray Var :=
  if a <+: v1 then
    match v1.drop a.length with
    | s :: rest => arr.modifyElt s (·.set rest (.array (copyArray (before arr s) true)))
    | [] => arr
  else arr

/-- The oldest elements of the array so seen show the values of its newest ones. -/
def ArrayOk (store : Var) (v1 a : Address) : Prop :=
  ∀ arr, store.get a = some (.array arr) → valueAt true (seen arr v1 a) = valueAt false arr

def AssignOk (store : Var) (v1 : Address) : Option Cell → Prop
  | some (.refVar (some v2)) => v2 = v1 ∨ ArrayOk store v1 v2
  | some (.refArray a) => a = v1 ∨ ArrayOk store v1 a
  | some (.dynArray a) => valueAt true a = valueAt false a
  | _ => True

/-! The copy as a loop on the array that grows, in which `view` gives the copied array as it looks
while that one has grown so far. -/

section Loop

variable (view : NaslArray Var → NaslArray Var)

def numLoopStep (x : NaslArray Var) (i : Nat) : NaslArray Var :=
  match (view x).numElt[i]?.getD none with
  | some v => putNum x i v
  | none => x

def namedLoopStep (i : Nat) (x : NaslArray Var) (k : Nat) : NaslArray Var :=
  match ((view x).hashElt[i]?.getD [])[k]? with
  | some v2 => putNamed x i v2
  | none => x

def copyLoop (x : NaslArray Var) : NaslArray Var :=
  let a2 := view x
  let x := { x with numElt := List.replicate a2.numElt.length none }
  let x := (List.range a2.numElt.length).foldl (numLoopStep view) x
  let x := { x with hashElt := List.replicate a2.hashElt.length [] }
  (List.range a2.hashElt.length).foldl
    (fun x i => (List.range (a2.hashElt[i]?.getD []).length).foldl (namedLoopStep view i) x) x

end Loop

/-- The memory in which the array of `v1` has grown to `x`. -/
def grown (store : Var) (v1 : Address) (v0 : Var) (x : NaslArray Var) : Memory :=
  ⟨store.set v1 (.array x), v1, v0⟩

theorem modifyArray_grown {store v0 : Var} {v1 : Address} (h : store.get v1 = some v0)
    (x : NaslArray Var) (f : NaslArray Var → NaslArray Var) :
    (grown store v1 v0 x).modifyArray f = grown store v1 v0 (f x) := by
  rw [Memory.modifyArray, grown]
  simp only [get_set_self _ h, set_set, grown]

/-- The copy in memory is the loop on the array that grows. -/
theorem copyArrayInto_grown {store v0 : Var} {v1 : Address} (h : store.get v1 = some v0) (a : Address)
    (x : NaslArray Var) : copyArrayInto a (grown store v1 v0 x) =
      grown store v1 v0 (copyLoop (fun x => (grown store v1 v0 x).readArray a) x) := by
  have hNum : ∀ x i, copyNumStep a (grown store v1 v0 x) i =
      grown store v1 v0 (numLoopStep (fun x => (grown store v1 v0 x).readArray a) x i) := by
    intro x i
    rw [copyNumStep, numLoopStep]
    split
    · rw [modifyArray_grown h]
    · rfl
  have hNamed : ∀ i x k, copyNamedStep a i (grown store v1 v0 x) k =
      grown store v1 v0 (namedLoopStep (fun x => (grown store v1 v0 x).readArray a) i x k) := by
    intro i x k
    rw [copyNamedStep, namedLoopStep]
    split
    · rw [modifyArray_grown h]
    · rfl
  have hChain : ∀ (x : NaslArray Var) (i n : Nat),
      (List.range n).foldl (copyNamedStep a i) (grown store v1 v0 x) =
        grown store v1 v0 ((List.range n).foldl
          (namedLoopStep (fun x => (grown store v1 v0 x).readArray a) i) x) :=
    fun x i n => List.foldl_hom (grown store v1 v0) (hNamed i)
  rw [copyArrayInto, copyLoop]
  rw [modifyArray_grown h, List.foldl_hom (grown store v1 v0) hNum, modifyArray_grown h]
  exact List.foldl_hom (grown store v1 v0) fun x i => hChain x i _

/-! What the loop builds. -/

/-- Whatever has been copied, the view has the shape of `a`, and when the elements before an element
have been copied it shows that element of `a`. -/
structure Shows (view : NaslArray Var → NaslArray Var) (a : NaslArray Var) : Prop where
  numLength : ∀ x, (view x).numElt.length = a.numElt.length
  hashLength : ∀ x, (view x).hashElt.length = a.hashElt.length
  names : ∀ (x : NaslArray Var) (h : Nat), ((view x).hashElt[h]?.getD []).map Prod.fst = (a.hashElt[h]?.getD []).map Prod.fst
  elt : ∀ s, (view (copyArray (before a s) true)).elt s = a.elt s

theorem numLoop_eq {view : NaslArray Var → NaslArray Var} {a : NaslArray Var} (hShows : Shows view a)
    (i : Nat) (hi : i ≤ a.numElt.length) :
    (List.range i).foldl (numLoopStep view) ⟨List.replicate a.numElt.length none, []⟩ =
      copyArray (before a (.num i)) true := by
  induction i with
  | zero =>
      rw [List.range_zero, List.foldl_nil, copyArray, before, copyNumElt_eq, copyHashElt_eq]
      congr 1
      apply List.ext_getElem?
      intro j
      rw [List.getElem?_replicate, List.getElem?_map, List.getElem?_mapIdx]
      by_cases hj : j < a.numElt.length
      · simp [hj]
      · simp [hj]
  | succ i ih =>
      rw [List.range_succ, List.foldl_concat, ih (by omega), numLoopStep]
      have hElt := hShows.elt (.num i)
      rw [NaslArray.elt, NaslArray.elt] at hElt
      rw [hElt]
      have hOld : a.numElt[i]? = some (a.numElt[i]?.getD none) := by
        rw [List.getElem?_eq_getElem (by omega), Option.getD_some]
      generalize a.numElt[i]?.getD none = elt at hOld
      cases elt with
      | none =>
          simp only [copyArray, before, copyNumElt_eq, if_true]
          congr 1
          apply List.ext_getElem?
          intro j
          rw [List.getElem?_map, List.getElem?_map, List.getElem?_mapIdx, List.getElem?_mapIdx]
          rcases Nat.lt_trichotomy j i with hj | rfl | hj
          · simp [hj, Nat.lt_succ_of_lt hj]
          · simp [hOld]
          · simp [Nat.not_lt_of_gt hj, Nat.not_lt_of_le hj]
      | some v =>
          simp only [copyArray, before, copyNumElt_eq, if_true, putNum]
          congr 1
          apply List.ext_getElem?
          intro j
          rw [List.getElem?_set, List.getElem?_map, List.getElem?_map, List.getElem?_mapIdx,
            List.getElem?_mapIdx]
          rcases Nat.lt_trichotomy j i with hj | rfl | hj
          · simp [hj, Nat.lt_succ_of_lt hj, Nat.ne_of_gt hj]
          · simp [hOld]
            omega
          · simp [Nat.not_lt_of_gt hj, Nat.not_lt_of_le hj, Nat.ne_of_lt hj]

/-- The view shows the next element of a chain with its name. -/
theorem Shows.entry {view : NaslArray Var → NaslArray Var} {a : NaslArray Var} (hShows : Shows view a)
    (h k : Nat) :
    ((view (copyArray (before a (.named h k)) true)).hashElt[h]?.getD [])[k]? =
      (a.hashElt[h]?.getD [])[k]? := by
  have hName := congrArg (·[k]?) (hShows.names (copyArray (before a (.named h k)) true) h)
  have hElt := hShows.elt (.named h k)
  simp only [List.getElem?_map] at hName
  rw [NaslArray.elt, NaslArray.elt] at hElt
  generalize ((view (copyArray (before a (.named h k)) true)).hashElt[h]?.getD [])[k]? = new at hName hElt
  generalize (a.hashElt[h]?.getD [])[k]? = old at hName hElt
  cases new with
  | none => cases old with
    | none => rfl
    | some w => cases hName
  | some v =>
      cases old with
      | none => cases hName
      | some w =>
          rw [Option.map_some, Option.map_some, Option.some_inj] at hName hElt
          rw [Prod.ext hName hElt]

theorem namedLoop_eq {view : NaslArray Var → NaslArray Var} {a : NaslArray Var} (hShows : Shows view a)
    {h : Nat} (k : Nat) (hk : k ≤ (a.hashElt[h]?.getD []).length) :
    (List.range k).foldl (namedLoopStep view h) (copyArray (before a (.named h 0)) true) =
      copyArray (before a (.named h k)) true := by
  induction k with
  | zero => rfl
  | succ k ih =>
      rw [List.range_succ, List.foldl_concat, ih (by omega), namedLoopStep, hShows.entry]
      have hEntry := List.getElem?_eq_getElem (l := a.hashElt[h]?.getD []) (i := k) (by omega)
      generalize (a.hashElt[h]?.getD [])[k] = v2 at hEntry
      rw [hEntry]
      simp only [copyArray, before, copyHashElt_eq, if_true, putNamed]
      congr 1
      apply List.ext_getElem?
      intro g
      rw [List.getElem?_modify, List.getElem?_map, List.getElem?_map, List.getElem?_mapIdx,
        List.getElem?_mapIdx]
      cases hChain : a.hashElt[g]? with
      | none => rfl
      | some chain =>
          rcases Nat.lt_trichotomy g h with hg | rfl | hg
          · simp [hg, Nat.ne_of_gt hg]
          · rw [hChain, Option.getD_some] at hEntry
            simp [List.take_add_one, hEntry]
          · simp [Nat.not_lt_of_gt hg, Nat.ne_of_lt hg, Nat.ne_of_gt hg]

/-- A chain that is copied to its end is as good as one before the next chain. -/
theorem before_next (a : NaslArray Var) (h : Nat) :
    before a (.named h (a.hashElt[h]?.getD []).length) = before a (.named (h + 1) 0) := by
  rw [before, before]
  congr 1
  apply List.ext_getElem?
  intro g
  rw [List.getElem?_mapIdx, List.getElem?_mapIdx]
  cases hChain : a.hashElt[g]? with
  | none => rfl
  | some chain =>
      rcases Nat.lt_trichotomy g h with hg | rfl | hg
      · simp [hg, Nat.lt_succ_of_lt hg]
      · simp [hChain]
      · simp [Nat.not_lt_of_gt hg, Nat.ne_of_gt hg, Nat.not_lt_of_le (Nat.succ_le_of_lt hg)]

/-- The loop builds a copy of the array that its view shows. -/
theorem copyLoop_eq {view : NaslArray Var → NaslArray Var} {a : NaslArray Var} (hShows : Shows view a)
    {x : NaslArray Var} (hEmpty : x.hashElt = []) : copyLoop view x = copyArray a true := by
  have hLengths : ∀ h : Nat, ((view x).hashElt[h]?.getD []).length = (a.hashElt[h]?.getD []).length := by
    intro h
    have hNames := congrArg List.length (hShows.names x h)
    rwa [List.length_map, List.length_map] at hNames
  have hNums := numLoop_eq hShows a.numElt.length (Nat.le_refl _)
  have hStart : { copyArray (before a (.num a.numElt.length)) true with
      hashElt := List.replicate a.hashElt.length [] } = copyArray (before a (.named 0 0)) true := by
    simp only [copyArray, before, copyNumElt_eq, copyHashElt_eq, if_true]
    congr 1
    · congr 1
      apply List.ext_getElem?
      intro j
      rw [List.getElem?_mapIdx]
      cases hElt : a.numElt[j]? with
      | none => rfl
      | some elt =>
          have hLess : j < a.numElt.length := (List.getElem?_eq_some_iff.mp hElt).1
          simp [hLess]
    · apply List.ext_getElem?
      intro g
      rw [List.getElem?_replicate, List.getElem?_map, List.getElem?_mapIdx]
      by_cases hg : g < a.hashElt.length
      · simp [hg]
      · simp [hg]
  have hChains : ∀ n, n ≤ a.hashElt.length → (List.range n).foldl
      (fun x i => (List.range ((a.hashElt[i]?.getD []).length)).foldl (namedLoopStep view i) x)
      (copyArray (before a (.named 0 0)) true) = copyArray (before a (.named n 0)) true := by
    intro n hn
    induction n with
    | zero => rfl
    | succ n ih =>
        rw [List.range_succ, List.foldl_concat, ih (by omega), namedLoop_eq hShows _ (Nat.le_refl _),
          before_next]
  have hAll : before a (.named a.hashElt.length 0) = a := by
    rw [before]
    congr 1
    apply List.ext_getElem?
    intro g
    rw [List.getElem?_mapIdx]
    cases hChain : a.hashElt[g]? with
    | none => rfl
    | some chain =>
        have hLess : g < a.hashElt.length := (List.getElem?_eq_some_iff.mp hChain).1
        simp [hLess]
  rw [copyLoop]
  simp only [hShows.numLength, hShows.hashLength, hLengths, hEmpty]
  rw [hNums, hStart, hChains _ (Nat.le_refl _), hAll]

/-! The three ways in which the array and the assigned variable can lie. -/

theorem before_modifyElt (a : NaslArray Var) (s : Step) (f : Var → Var) :
    before (a.modifyElt s f) s = before a s := by
  cases s with
  | num i =>
      rw [NaslArray.modifyElt, before, before]
      congr 1
      apply List.ext_getElem?
      intro j
      rw [List.getElem?_mapIdx, List.getElem?_mapIdx, List.getElem?_modify]
      by_cases hj : i = j
      · subst hj
        cases a.numElt[i]? <;> simp
      · simp [hj]
  | named h k =>
      rw [NaslArray.modifyElt, before, before]
      congr 1
      apply List.ext_getElem?
      intro g
      rw [List.getElem?_mapIdx, List.getElem?_mapIdx, List.getElem?_modify]
      by_cases hg : h = g
      · subst hg
        have hTake : ∀ chain : List (CString × Var),
            (chain.modify k (Prod.map id f)).take k = chain.take k := by
          intro chain
          apply List.ext_getElem?
          intro l
          rw [List.getElem?_take, List.getElem?_take]
          split
          · rw [List.getElem?_modify_ne _ _ (by omega)]
          · rfl
        cases a.hashElt[h]? <;> simp [hTake]
      · simp [hg]

/-- An array in which one element is written over. -/
theorem shows_modifyElt (arr : NaslArray Var) (s : Step) (f : NaslArray Var → Var → Var) :
    Shows (fun x => arr.modifyElt s (f x)) (arr.modifyElt s (f (copyArray (before arr s) true))) := by
  have hNames : ∀ (g : Var → Var) (h : Nat), ((arr.modifyElt s g).hashElt[h]?.getD []).map Prod.fst =
      (arr.hashElt[h]?.getD []).map Prod.fst := by
    intro g h
    cases s with
    | num i => rfl
    | named l k =>
        rw [NaslArray.modifyElt, List.getElem?_modify]
        cases arr.hashElt[h]? with
        | none => rfl
        | some chain =>
            by_cases hChain : l = h
            · simp only [hChain, if_true, Option.map_eq_map, Option.map_some, Option.getD_some]
              apply List.ext_getElem?
              intro j
              rw [List.getElem?_map, List.getElem?_map, List.getElem?_modify]
              cases chain[j]? with
              | none => rfl
              | some v =>
                  by_cases hj : k = j <;> simp [hj]
            · simp [hChain]
  constructor
  · intro x
    cases s <;> simp [NaslArray.modifyElt]
  · intro x
    cases s <;> simp [NaslArray.modifyElt]
  · intro x h
    rw [hNames, hNames]
  · intro t
    by_cases hStep : s = t
    · subst hStep
      rw [before_modifyElt]
    · rw [elt_modifyElt_ne _ _ hStep, elt_modifyElt_ne _ _ hStep]

theorem shows_self (arr : NaslArray Var) : Shows (fun _ => arr) arr :=
  ⟨fun _ => rfl, fun _ => rfl, fun _ _ => rfl, fun _ => rfl⟩

/-- What the copy sees of the array. -/
theorem shows_seen {store v0 : Var} {v1 a : Address} {arr : NaslArray Var}
    (hLval : store.get v1 = some v0) (hArray : store.get a = some (.array arr)) (hNe : a ≠ v1) :
    Shows (fun x => (grown store v1 v0 x).readArray a) (seen arr v1 a) := by
  by_cases hAbove : a <+: v1
  · obtain ⟨rest, rfl⟩ := hAbove
    cases rest with
    | nil => exact absurd (List.append_nil a).symm hNe
    | cons s rest =>
        have hBelow : ¬ (a ++ s :: rest) <+: a := by
          intro hPrefix
          have hLength := hPrefix.length_le
          simp at hLength
        have hView : (fun x => (grown store (a ++ s :: rest) v0 x).readArray a) =
            fun x => arr.modifyElt s (·.set rest (.array x)) := by
          funext x
          rw [Memory.readArray, Memory.read, if_neg fun hBoth => hBelow hBoth.1, grown, get_set_above,
            hArray]
          rfl
        rw [hView, seen, if_pos (List.prefix_append _ _), List.drop_left]
        exact shows_modifyElt arr s fun x v => v.set rest (.array x)
  · have hView : (fun x => (grown store v1 v0 x).readArray a) = fun _ => arr := by
      funext x
      rw [Memory.readArray, Memory.read]
      by_cases hBelow : v1 <+: a
      · obtain ⟨rest, rfl⟩ := hBelow
        rw [get_append, hLval, Option.bind_some] at hArray
        rw [if_pos ⟨List.prefix_append _ _, fun h => hNe h.symm⟩, grown, List.drop_left, hArray]
      · rw [if_neg fun hBoth => hBelow hBoth.1, grown, get_set_apart _ hAbove hBelow, hArray]
    rw [hView, seen, if_neg hAbove]
    exact shows_self arr

/-- An array is copied as it is seen. -/
theorem copyArrayInto_store {store v0 : Var} {v1 a : Address} {arr : NaslArray Var}
    (hLval : store.get v1 = some v0) (hArray : store.get a = some (.array arr)) (hNe : a ≠ v1) :
    (copyArrayInto a ⟨store.set v1 (.array emptyArray), v1, v0⟩).store =
      store.set v1 (.array (copyArray (seen arr v1 a) true)) := by
  have hGrown := copyArrayInto_grown hLval a emptyArray
  rw [copyLoop_eq (shows_seen hLval hArray hNe) rfl] at hGrown
  exact congrArg Memory.store hGrown

/-- A variable that is no array is read as it was before. -/
theorem read_atom {store v0 v x : Var} {v1 v2 : Address} (hLval : store.get v1 = some v0)
    (hRval : store.get v2 = some v) (hNe : v2 ≠ v1) (hAtom : ∀ arr, v ≠ .array arr) :
    Memory.read ⟨store.set v1 x, v1, v0⟩ v2 = some v := by
  rw [Memory.read]
  by_cases hBelow : v1 <+: v2
  · obtain ⟨rest, rfl⟩ := hBelow
    rw [get_append, hLval, Option.bind_some] at hRval
    rw [if_pos ⟨List.prefix_append _ _, fun h => hNe h.symm⟩, List.drop_left, hRval]
  · have hAbove : ¬ v2 <+: v1 := by
      rintro ⟨rest, rfl⟩
      cases rest with
      | nil => exact hNe (List.append_nil v2).symm
      | cons s rest =>
          rw [get_append, hRval, Option.bind_some] at hLval
          cases v with
          | array arr => exact hAtom arr rfl
          | _ => cases hLval
    rw [if_neg fun hBoth => hBelow hBoth.1, get_set_apart x hAbove hBelow, hRval]

/-- An assignment that writes a variable meets its purpose if the variable has the value. -/
theorem assignsValue_set {store v x : Var} {v1 : Address} {rval : Option Cell} {value : Value}
    (hLval : store.get v1 = some v) (hValue : rvalValue store rval = some value)
    (hAfter : naslAffect store (some (.refVar (some v1))) rval = store.set v1 x) :
    AssignsValue store v1 rval ↔ x.value false = value := by
  rw [AssignsValue, hAfter, hValue, get_set_self x hLval, Option.map_some, Option.some_inj]
  exact and_iff_left fun address hAbove hBelow => get_set_apart x hAbove hBelow

/-- A value without elements arrives. -/
theorem assignsValue_atom {store v : Var} {v1 : Address} {rval : Option Cell} (x : Var)
    (hLval : store.get v1 = some v) (hValue : rvalValue store rval = some (x.value false))
    (hAfter : naslAffect store (some (.refVar (some v1))) rval = store.set v1 x) :
    AssignsValue store v1 rval :=
  (assignsValue_set hLval hValue hAfter).mpr rfl

/-- A variable that is assigned to itself stays as it is. -/
theorem assignsValue_self {store : Var} {v1 : Address} {rval : Option Cell}
    (hValue : rvalValue store rval = (store.get v1).map (Var.value false))
    (hAfter : naslAffect store (some (.refVar (some v1))) rval = store) :
    AssignsValue store v1 rval := by
  rw [AssignsValue, hAfter, hValue]
  exact ⟨rfl, fun _ _ _ => rfl⟩

/-- An array that is assigned from an address. -/
theorem assignsValue_array {store v : Var} {v1 a : Address} {arr : NaslArray Var} {rval : Option Cell}
    (hLval : store.get v1 = some v) (hArray : store.get a = some (.array arr)) (hNe : a ≠ v1)
    (hValue : rvalValue store rval = (store.get a).map (Var.value false))
    (hAfter : naslAffect store (some (.refVar (some v1))) rval =
      (copyArrayInto a ⟨store.set v1 (.array emptyArray), v1, v⟩).store) :
    AssignsValue store v1 rval ↔ a = v1 ∨ ArrayOk store v1 a := by
  have hOk : ArrayOk store v1 a ↔ valueAt true (seen arr v1 a) = valueAt false arr := by
    constructor
    · intro h
      exact h arr hArray
    · intro h other hOther
      rw [hArray, Option.some_inj, Var.array.injEq] at hOther
      rw [← hOther, h]
  rw [copyArrayInto_store hLval hArray hNe] at hAfter
  rw [hArray, Option.map_some] at hValue
  rw [assignsValue_set hLval hValue hAfter, value_array, value_array, Value.array.injEq,
    valueAt_copyArray, hOk]
  exact (or_iff_right hNe).symm

/-- An assignment gives the variable the value of the right side, and leaves others alone, exactly if
an array on the right shows that value with its oldest elements, where a copy of the elements before
the variable stands for the variable if it lies inside of the array. -/
theorem affect_value_iff {store v : Var} {v1 : Address} {rval : Option Cell}
    (hLval : store.get v1 = some v) (hRval : ∀ cell ∈ rval, cell.Points store) :
    AssignsValue store v1 rval ↔ AssignOk store v1 rval := by
  have hAffect : naslAffect store (some (.refVar (some v1))) rval = affectToAnonVar store v1 rval := rfl
  rw [affectToAnonVar, hLval] at hAffect
  cases rval with
  | none => exact iff_of_true (assignsValue_atom .undef hLval rfl hAffect) trivial
  | some cell =>
      have hPoints := hRval cell rfl
      cases cell with
      | fake => exact iff_of_true (assignsValue_atom .undef hLval rfl hAffect) trivial
      | constInt iVal => exact iff_of_true (assignsValue_atom (.int iVal) hLval rfl hAffect) trivial
      | constStr strVal => exact iff_of_true (assignsValue_atom (.string strVal) hLval rfl hAffect) trivial
      | constData strVal => exact iff_of_true (assignsValue_atom (.data strVal) hLval rfl hAffect) trivial
      | other => exact hPoints.elim
      | refArray a =>
          obtain ⟨arr, hArray⟩ := hPoints
          by_cases hSame : a = v1
          · subst hSame
            exact iff_of_true (assignsValue_self rfl (hAffect.trans (if_pos rfl))) (.inl rfl)
          · exact assignsValue_array hLval hArray hSame rfl (hAffect.trans (if_neg hSame))
      | dynArray a =>
          rw [assignsValue_set hLval rfl hAffect, value_array, Value.array.injEq, valueAt_copyArray]
          exact Iff.rfl
      | refVar v2 =>
          cases v2 with
          | none => exact iff_of_true (assignsValue_atom .undef hLval rfl hAffect) trivial
          | some v2 =>
              obtain ⟨w, hRef⟩ := hPoints
              by_cases hSame : v2 = v1
              · subst hSame
                exact iff_of_true (assignsValue_self rfl (hAffect.trans (if_pos rfl))) (.inl rfl)
              · have hValue : rvalValue store (some (.refVar (some v2))) = some (w.value false) := by
                  rw [rvalValue, hRef, Option.map_some]
                simp only [if_neg hSame, hRef] at hAffect
                cases w with
                | array arr => exact assignsValue_array hLval hRef hSame rfl hAffect
                | _ =>
                    rw [read_atom hLval hRef hSame (fun arr h => nomatch h), set_set] at hAffect
                    refine iff_of_true (assignsValue_atom _ hLval hValue hAffect) (.inr ?_)
                    intro arr hArray
                    rw [hRef] at hArray
                    cases hArray

/-- A context with the variables `a`, an array with the elements 1 and [2], and `b`. -/
def twoVariables : Var :=
  .array ⟨[some (.array ⟨[], List.replicate 12 [] ++
    [[(lit "a", .array ⟨[some (.int 1), some (.array ⟨[some (.int 2)], []⟩)], []⟩)], [(lit "b", .undef)]] ++
    List.replicate 3 []⟩)], []⟩

/-- The assignment `b = a`. -/
theorem affect_value_iff_variable :
    AssignsValue twoVariables [.num 0, .named 13 0] (some (.refVar (some [.num 0, .named 12 0]))) ↔
      AssignOk twoVariables [.num 0, .named 13 0] (some (.refVar (some [.num 0, .named 12 0]))) := by
  refine affect_value_iff rfl ?_
  rintro _ ⟨⟩
  exact ⟨_, rfl⟩

/-- The value of an array at an index. -/
def Value.at : Value → Index → Value
  | .array elem, index => elem index
  | _, _ => (.undef)

/-- After `a[1] = a` the element `a[1][1]` holds what had been copied of `a`, and not `[2]`. -/
theorem element_half_built : ¬ AssignsValue twoVariables [.num 0, .named 12 0, .num 1]
    (some (.refVar (some [.num 0, .named 12 0]))) := by
  rintro ⟨hValue, -⟩
  have hInner := congrArg (fun value => ((value.getD .undef).at (.num 1)).at (.num 0)) hValue
  change Value.int 1 = Value.int 2 at hInner
  cases hInner

end Nasl
