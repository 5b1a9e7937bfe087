import OpenVAS.Lib.CString

/-! The variables of a script, after `nasl_var.c`: values, arrays with numbered and named elements,
and how both are made and copied. -/
namespace Nasl

open CString

/-- `VAR_NAME_HASH`. -/
def varNameHash : Nat := 17

def hashStr2 (s : CString) (n : Nat) : Nat :=
  (s.foldl (fun (h : UInt64) p => (h <<< 3) + p.toUInt64) 0).toNat % n

def hashStr (s : CString) : Nat := hashStr2 s varNameHash

/-- `nasl_array`: the numbered elements, of which some are NULL, and the chains of named ones. No
chain at all stands for a NULL table. -/
structure NaslArray (V : Type) where
  numElt : List (Option V)
  hashElt : List (List (CString × V))

/-- `anon_nasl_var`; the bytes of a text may be NULL. -/
inductive Var where
  | undef
  | int (vInt : Int32)
  | string (sVal : Option (List UInt8))
  | data (sVal : Option (List UInt8))
  | array (vArr : NaslArray Var)

/-- An array that is filled with zero bytes. -/
def emptyArray : NaslArray Var := ⟨[], []⟩

/-- A table of chains, which is made if there is none. -/
def withHashElt (a : NaslArray Var) : List (List (CString × Var)) :=
  if a.hashElt.isEmpty then List.replicate varNameHash [] else a.hashElt

/-- The numbered elements with room for `num`. -/
def growNumElt (numElt : List (Option Var)) (num : Nat) : List (Option Var) :=
  numElt ++ List.replicate (num + 1 - numElt.length) none

/-- The variable with a number, and the array, which changes only if the variable is created. -/
def naslGetVarByNum (a : NaslArray Var) (num : Int32) (create : Bool) : Option Var × NaslArray Var :=
  if num < 0 then (none, a)
  else
    match a.numElt[num.toInt.toNat]? with
    | some (some v) => (some v, a)
    | _ =>
        if create then
          (some .undef,
            { a with numElt := (growNumElt a.numElt num.toInt.toNat).set num.toInt.toNat (some .undef) })
        else (none, a)

/-- The variable with a name, which is created if there is none. -/
def getVarByName (a : NaslArray Var) (s : CString) : Var × NaslArray Var :=
  let hashElt := withHashElt a
  let h := hashStr s
  match (hashElt[h]?.getD []).find? (fun v => v.1 = s) with
  | some v => (v.2, { a with hashElt })
  | none => (.undef, { a with hashElt := hashElt.modify h ((s, .undef) :: ·) })

mutual

/-- `copy_anon_var`, and `dup_anon_var` of a variable that is not NULL. -/
def copyAnonVar : Var → Var
  | .undef => .undef
  | .int vInt => .int vInt
  | .string sVal => .string sVal
  | .data sVal => .data sVal
  | .array ⟨numElt, hashElt⟩ => .array ⟨copyNumElt numElt, copyHashElt hashElt⟩

def copyNumElt : List (Option Var) → List (Option Var)
  | [] => []
  | none :: rest => none :: copyNumElt rest
  | some v :: rest => some (copyAnonVar v) :: copyNumElt rest

def copyHashElt : List (List (CString × Var)) → List (List (CString × Var))
  | [] => []
  | chain :: rest => copyChain chain [] :: copyHashElt rest

/-- Each copy goes in front of the one before it. -/
def copyChain : List (CString × Var) → List (CString × Var) → List (CString × Var)
  | [], v1 => v1
  | (varName, v2) :: next, v1 => copyChain next ((varName, copyAnonVar v2) :: v1)

end

def copyArray (a2 : NaslArray Var) (copyNamed : Bool) : NaslArray Var where
  numElt := copyNumElt a2.numElt
  hashElt := if copyNamed then copyHashElt a2.hashElt else []

/-- `add_var_to_list`, which fails for a negative index. -/
def addVarToList (a : NaslArray Var) (i : Int32) (v : Option Var) : NaslArray Var :=
  if i < 0 then a
  else
    { a with numElt := (growNumElt a.numElt i.toInt.toNat).set i.toInt.toNat (v.map copyAnonVar) }

/-- A new element goes to the front of its chain, whatever names are in it. -/
def addVarToArray (a : NaslArray Var) (name : CString) (v : Var) : NaslArray Var :=
  { a with hashElt := (withHashElt a).modify (hashStr name) ((name, copyAnonVar v) :: ·) }

/-- The text of a string or of data, up to its first zero byte. -/
def textName (sVal : Option (List UInt8)) : CString := (sVal.getD []).takeWhile (· ≠ 0)

/-- One index of `make_array` and its value; other types are skipped. -/
def makeArrayPair (a : NaslArray Var) (v v2 : Var) : NaslArray Var :=
  match v2 with
  | .int _ | .string _ | .data _ =>
      match v with
      | .int vInt => addVarToList a vInt (some v2)
      | .string sVal | .data sVal => addVarToArray a (textName sVal) v2
      | _ => a
  | _ => a

/-- `nasl_make_array` on its arguments; an odd one at the end is dropped. -/
def naslMakeArray : List Var → NaslArray Var → NaslArray Var
  | v :: v2 :: rest, a => naslMakeArray rest (makeArrayPair a v v2)
  | _, a => a

/-- A constant in an array literal, under a name or under the next number. -/
structure Element where
  name : Option CString
  value : Var

/-- The loop of `make_array_from_elems`. -/
def addElems : List Element → Int32 → NaslArray Var → NaslArray Var
  | [], _, a => a
  | ⟨none, value⟩ :: rest, n, a => addElems rest (n + 1) (addVarToList a n (some value))
  | ⟨some name, value⟩ :: rest, n, a => addElems rest n (addVarToArray a name value)

/-! Copies of lists. -/

theorem copyNumElt_eq (numElt : List (Option Var)) :
    copyNumElt numElt = numElt.map (Option.map copyAnonVar) := by
  induction numElt with
  | nil => rw [copyNumElt, List.map_nil]
  | cons elt rest ih =>
      cases elt with
      | none => rw [copyNumElt, ih, List.map_cons, Option.map_none]
      | some v => rw [copyNumElt, ih, List.map_cons, Option.map_some]

/-- The copy of a chain is in reverse order. -/
theorem copyChain_eq (chain v1 : List (CString × Var)) :
    copyChain chain v1 = (chain.map fun v => (v.1, copyAnonVar v.2)).reverse ++ v1 := by
  induction chain generalizing v1 with
  | nil => rw [copyChain, List.map_nil, List.reverse_nil, List.nil_append]
  | cons v next ih =>
      rw [copyChain, ih, List.map_cons, List.reverse_cons, List.append_assoc, List.singleton_append]

theorem copyHashElt_eq (hashElt : List (List (CString × Var))) :
    copyHashElt hashElt =
      hashElt.map fun chain => (chain.map fun v => (v.1, copyAnonVar v.2)).reverse := by
  induction hashElt with
  | nil => rw [copyHashElt, List.map_nil]
  | cons chain rest ih => rw [copyHashElt, ih, copyChain_eq, List.append_nil, List.map_cons]

end Nasl
