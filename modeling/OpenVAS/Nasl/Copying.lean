import OpenVAS.Nasl.Variables

/-! What a script finds in an array: a deep value with one element for each index. Copies turn the
chains of named elements around, so that a name that stands twice is found with its other value. -/
namespace Nasl

open CString

/-- What a script can look up in an array. -/
inductive Index where
  | num (num : Int32)
  | name (s : CString)
deriving DecidableEq

/-- A value seen from outside: an array gives one for each index, `undef` where there is none. -/
inductive Value where
  | undef
  | int (vInt : Int32)
  | string (sVal : Option (List UInt8))
  | data (sVal : Option (List UInt8))
  | array (elem : Index → Value)

mutual

/-- The value of a variable, which finds the newest element of a name or the oldest one. -/
def Var.value (oldest : Bool) : Var → Value
  | .undef => .undef
  | .int vInt => .int vInt
  | .string sVal => .string sVal
  | .data sVal => .data sVal
  | .array ⟨numElt, hashElt⟩ => .array fun
      | .num num => if num < 0 then .undef else numValue oldest numElt num.toInt.toNat
      | .name s => tableValue oldest hashElt (hashStr s) s

def numValue (oldest : Bool) : List (Option Var) → Nat → Value
  | [], _ => .undef
  | none :: _, 0 => .undef
  | some v :: _, 0 => v.value oldest
  | _ :: rest, i + 1 => numValue oldest rest i

def tableValue (oldest : Bool) : List (List (CString × Var)) → Nat → CString → Value
  | [], _, _ => .undef
  | chain :: _, 0, s => (chainValue oldest chain s).getD .undef
  | _ :: rest, h + 1, s => tableValue oldest rest h s

/-- The chain starts with its newest element. -/
def chainValue (oldest : Bool) : List (CString × Var) → CString → Option Value
  | [], _ => none
  | (varName, v) :: next, s =>
      let found := if varName = s then some (v.value oldest) else none
      if oldest then (chainValue oldest next s).or found else found.or (chainValue oldest next s)

end

/-- The value that a script finds in an array: a missing numbered element counts as undefined, and a
missing named one is made undefined. -/
def lookup (a : NaslArray Var) : Index → Value
  | .num num => ((naslGetVarByNum a num false).1.map (Var.value false)).getD .undef
  | .name s => (getVarByName a s).1.value false

/-- The value that an array has at an index. -/
def valueAt (oldest : Bool) (a : NaslArray Var) : Index → Value
  | .num num => if num < 0 then .undef else numValue oldest a.numElt num.toInt.toNat
  | .name s => tableValue oldest a.hashElt (hashStr s) s

@[simp] theorem value_array (oldest : Bool) (a : NaslArray Var) :
    (Var.array a).value oldest = .array (valueAt oldest a) := by
  rw [Var.value]
  congr 1

theorem numValue_eq (oldest : Bool) (numElt : List (Option Var)) (i : Nat) :
    numValue oldest numElt i = ((numElt[i]?.getD none).map (Var.value oldest)).getD .undef := by
  induction numElt generalizing i with
  | nil => rfl
  | cons elt rest ih =>
      cases i with
      | zero => cases elt <;> rfl
      | succ i =>
          rw [numValue, ih, List.getElem?_cons_succ]

theorem tableValue_eq (oldest : Bool) (hashElt : List (List (CString × Var))) (h : Nat) (s : CString) :
    tableValue oldest hashElt h s = (chainValue oldest (hashElt[h]?.getD []) s).getD .undef := by
  induction hashElt generalizing h with
  | nil => rfl
  | cons chain rest ih =>
      cases h with
      | zero => rfl
      | succ h => rw [tableValue, ih, List.getElem?_cons_succ]

/-- The newest element of a name is the first in its chain. -/
theorem chainValue_newest (chain : List (CString × Var)) (s : CString) :
    chainValue false chain s = (chain.find? fun v => v.1 = s).map fun v => v.2.value false := by
  induction chain with
  | nil => rfl
  | cons v next ih =>
      obtain ⟨varName, v⟩ := v
      rw [chainValue, ih, List.find?_cons]
      by_cases hName : varName = s <;> simp [hName]

/-- What the lookups of the code find is the value of the array. -/
theorem lookup_eq (a : NaslArray Var) : lookup a = valueAt false a := by
  funext index
  cases index with
  | num num =>
      rw [lookup, valueAt, naslGetVarByNum]
      split
      · rfl
      · rw [numValue_eq]
        rcases hElt : a.numElt[num.toInt.toNat]? with _ | (_ | v) <;> rfl
  | name s =>
      have hTable : (withHashElt a)[hashStr s]?.getD [] = a.hashElt[hashStr s]?.getD [] := by
        rw [withHashElt]
        split
        · rename_i hNull
          rw [List.isEmpty_iff.mp hNull, List.getElem?_replicate]
          split <;> rfl
        · rfl
      rw [lookup, valueAt, tableValue_eq, chainValue_newest, getVarByName]
      simp only [hTable]
      generalize (a.hashElt[hashStr s]?.getD []).find? (fun v => decide (v.1 = s)) = found
      cases found <;> rfl

/-! Copies. -/

mutual

/-- A copy shows the newest element where the original shows the oldest one, and the other way. -/
theorem value_copy (oldest : Bool) : ∀ v : Var, (copyAnonVar v).value oldest = v.value (!oldest)
  | .undef => rfl
  | .int _ => rfl
  | .string _ => rfl
  | .data _ => rfl
  | .array ⟨numElt, hashElt⟩ => by
      rw [copyAnonVar, value_array, value_array]
      congr 1
      funext index
      cases index with
      | num num => simp only [valueAt, numValue_copy oldest numElt]
      | name s => simp only [valueAt, tableValue_copy oldest hashElt]

theorem numValue_copy (oldest : Bool) : ∀ (numElt : List (Option Var)) (i : Nat),
    numValue oldest (copyNumElt numElt) i = numValue (!oldest) numElt i
  | [], _ => rfl
  | none :: _, 0 => rfl
  | some v :: _, 0 => value_copy oldest v
  | none :: rest, i + 1 => numValue_copy oldest rest i
  | some _ :: rest, i + 1 => numValue_copy oldest rest i

theorem tableValue_copy (oldest : Bool) : ∀ (hashElt : List (List (CString × Var))) (h : Nat)
    (s : CString), tableValue oldest (copyHashElt hashElt) h s = tableValue (!oldest) hashElt h s
  | [], _, _ => rfl
  | chain :: _, 0, s => by
      rw [copyHashElt, tableValue, tableValue, chainValue_copy oldest chain [] s]
      cases oldest
      · exact congrArg (Option.getD · Value.undef) Option.or_none
      · rfl
  | _ :: rest, h + 1, s => tableValue_copy oldest rest h s

theorem chainValue_copy (oldest : Bool) : ∀ (chain v1 : List (CString × Var)) (s : CString),
    chainValue oldest (copyChain chain v1) s =
      if oldest then (chainValue oldest v1 s).or (chainValue false chain s)
      else (chainValue true chain s).or (chainValue oldest v1 s)
  | [], v1, s => by
      cases oldest
      · rfl
      · exact (Option.or_none).symm
  | (varName, v) :: next, v1, s => by
      rw [copyChain, chainValue_copy oldest next _ s]
      have hValue := value_copy oldest v
      cases oldest
      · simp only [chainValue, hValue]
        exact (Option.or_assoc).symm
      · simp only [chainValue, hValue]
        exact Option.or_assoc

end

theorem valueAt_copyArray (oldest : Bool) (a : NaslArray Var) :
    valueAt oldest (copyArray a true) = valueAt (!oldest) a := by
  funext index
  cases index with
  | num num => simp only [valueAt, copyArray, numValue_copy]
  | name s => simp only [valueAt, copyArray, if_true, tableValue_copy]

/-- A copy has the same value at every index exactly if the oldest elements show the same values as
the newest ones, in the array and in those inside of it. -/
theorem copy_keeps_lookups_iff (a : NaslArray Var) :
    (∀ index, lookup (copyArray a true) index = lookup a index) ↔
      ∀ index, valueAt true a index = valueAt false a index := by
  rw [lookup_eq, lookup_eq, valueAt_copyArray]
  exact Iff.rfl

/-- The copy of `make_array ("a", 1, "a", 2)` has 1 at "a", where the array itself has 2. -/
theorem copy_finds_other_value : ¬ ∀ (args : List Var) (index : Index),
    lookup (copyArray (naslMakeArray args emptyArray) true) index =
      lookup (naslMakeArray args emptyArray) index := by
  intro hKeeps
  have hBoth := hKeeps [.string (some (lit "a")), .int 1, .string (some (lit "a")), .int 2] (.name (lit "a"))
  have hOriginal : lookup (naslMakeArray [.string (some (lit "a")), .int 1, .string (some (lit "a")),
      .int 2] emptyArray) (.name (lit "a")) = .int 2 := rfl
  have hCopy : lookup (copyArray (naslMakeArray [.string (some (lit "a")), .int 1,
      .string (some (lit "a")), .int 2] emptyArray) true) (.name (lit "a")) = .int 1 := rfl
  rw [hOriginal, hCopy] at hBoth
  cases hBoth

/-! Arrays in which no name stands twice. -/

mutual

/-- No name stands twice in a chain, at any depth. -/
def Var.Distinct : Var → Prop
  | .array ⟨numElt, hashElt⟩ => NumDistinct numElt ∧ TableDistinct hashElt
  | _ => True

def NumDistinct : List (Option Var) → Prop
  | [] => True
  | none :: rest => NumDistinct rest
  | some v :: rest => v.Distinct ∧ NumDistinct rest

def TableDistinct : List (List (CString × Var)) → Prop
  | [] => True
  | chain :: rest => ChainDistinct chain ∧ TableDistinct rest

def ChainDistinct : List (CString × Var) → Prop
  | [] => True
  | (varName, v) :: next => (∀ w ∈ next, w.1 ≠ varName) ∧ v.Distinct ∧ ChainDistinct next

end

theorem chainValue_of_not_mem (oldest : Bool) {chain : List (CString × Var)} {s : CString}
    (h : ∀ w ∈ chain, w.1 ≠ s) : chainValue oldest chain s = none := by
  induction chain with
  | nil => rfl
  | cons v next ih =>
      obtain ⟨varName, v⟩ := v
      have hNext := ih fun w hw => h w (List.mem_cons_of_mem _ hw)
      have hName : ¬ varName = s := h (varName, v) (by simp)
      rw [chainValue, hNext]
      simp [hName]

mutual

/-- Without a name that stands twice the oldest elements are the newest ones. -/
theorem value_of_distinct : ∀ v : Var, v.Distinct → v.value true = v.value false
  | .undef, _ => rfl
  | .int _, _ => rfl
  | .string _, _ => rfl
  | .data _, _ => rfl
  | .array ⟨numElt, hashElt⟩, hDistinct => by
      rw [Var.Distinct] at hDistinct
      rw [value_array, value_array]
      congr 1
      funext index
      cases index with
      | num num => simp only [valueAt, numValue_of_distinct numElt hDistinct.1]
      | name s => simp only [valueAt, tableValue_of_distinct hashElt hDistinct.2]

theorem numValue_of_distinct : ∀ (numElt : List (Option Var)), NumDistinct numElt →
    ∀ i, numValue true numElt i = numValue false numElt i
  | [], _, _ => rfl
  | none :: _, _, 0 => rfl
  | some v :: _, hDistinct, 0 => value_of_distinct v hDistinct.1
  | none :: rest, hDistinct, i + 1 => numValue_of_distinct rest hDistinct i
  | some _ :: rest, hDistinct, i + 1 => numValue_of_distinct rest hDistinct.2 i

theorem tableValue_of_distinct : ∀ (hashElt : List (List (CString × Var))), TableDistinct hashElt →
    ∀ h s, tableValue true hashElt h s = tableValue false hashElt h s
  | [], _, _, _ => rfl
  | chain :: _, hDistinct, 0, s => by
      rw [tableValue, tableValue, chainValue_of_distinct chain hDistinct.1 s]
  | _ :: rest, hDistinct, h + 1, s => tableValue_of_distinct rest hDistinct.2 h s

theorem chainValue_of_distinct : ∀ (chain : List (CString × Var)), ChainDistinct chain →
    ∀ s, chainValue true chain s = chainValue false chain s
  | [], _, _ => rfl
  | (varName, v) :: next, hDistinct, s => by
      obtain ⟨hOther, hValue, hNext⟩ := hDistinct
      have hSame := value_of_distinct v hValue
      have hRest := chainValue_of_distinct next hNext s
      rw [chainValue, chainValue, hSame, hRest]
      by_cases hName : varName = s
      · subst hName
        simp [chainValue_of_not_mem false hOther]
      · simp [hName]

end

/-! Copies and lookups bring no name in twice. -/

theorem chainDistinct_iff (chain : List (CString × Var)) : ChainDistinct chain ↔
    chain.Pairwise (fun v w => w.1 ≠ v.1) ∧ ∀ v ∈ chain, v.2.Distinct := by
  induction chain with
  | nil => simp [ChainDistinct]
  | cons v next ih =>
      obtain ⟨varName, v⟩ := v
      rw [ChainDistinct, ih, List.pairwise_cons, List.forall_mem_cons]
      tauto

mutual

theorem distinct_copy : ∀ v : Var, v.Distinct → (copyAnonVar v).Distinct
  | .undef, _ => trivial
  | .int _, _ => trivial
  | .string _, _ => trivial
  | .data _, _ => trivial
  | .array ⟨numElt, hashElt⟩, hDistinct => by
      rw [Var.Distinct] at hDistinct
      rw [copyAnonVar, Var.Distinct]
      exact ⟨numDistinct_copy numElt hDistinct.1, tableDistinct_copy hashElt hDistinct.2⟩

theorem numDistinct_copy : ∀ numElt : List (Option Var),
    NumDistinct numElt → NumDistinct (copyNumElt numElt)
  | [], _ => trivial
  | none :: rest, hDistinct => numDistinct_copy rest hDistinct
  | some v :: rest, hDistinct => ⟨distinct_copy v hDistinct.1, numDistinct_copy rest hDistinct.2⟩

theorem tableDistinct_copy : ∀ hashElt : List (List (CString × Var)),
    TableDistinct hashElt → TableDistinct (copyHashElt hashElt)
  | [], _ => trivial
  | chain :: rest, hDistinct => by
      refine ⟨?_, tableDistinct_copy rest hDistinct.2⟩
      have hPairs := ((chainDistinct_iff chain).mp hDistinct.1).1
      rw [copyChain_eq, List.append_nil, chainDistinct_iff]
      constructor
      · rw [List.pairwise_reverse, List.pairwise_map]
        exact hPairs.imp fun hNe => hNe.symm
      · intro v hMem
        rw [List.mem_reverse, List.mem_map] at hMem
        obtain ⟨w, hOld, rfl⟩ := hMem
        exact chainDistinct_copy chain hDistinct.1 w hOld

theorem chainDistinct_copy : ∀ chain : List (CString × Var),
    ChainDistinct chain → ∀ w ∈ chain, (copyAnonVar w.2).Distinct
  | (_, v) :: next, hDistinct, w, hMem => by
      rcases List.mem_cons.mp hMem with rfl | hNext
      · exact distinct_copy v hDistinct.2.1
      · exact chainDistinct_copy next hDistinct.2.2 w hNext

end

/-- All copies of an array in which no name stands twice show what the array shows. -/
theorem lookup_copies {a : NaslArray Var} (h : (Var.array a).Distinct) (n : Nat) :
    lookup ((copyArray · true)^[n] a) = lookup a := by
  induction n generalizing a with
  | zero => rfl
  | succ n ih =>
      have hCopy : (Var.array (copyArray a true)).Distinct := distinct_copy (.array a) h
      have hValue := value_of_distinct (.array a) h
      rw [value_array, value_array] at hValue
      rw [Function.iterate_succ_apply, ih hCopy, lookup_eq, lookup_eq, valueAt_copyArray]
      exact Value.array.inj hValue

end Nasl
