import Mathlib.Data.List.Nodup
import OpenVAS.Nasl.Assignment

/-! The iterator of `nasl_var.c`, and `keys`. An element that the iterator yields is a reference to a
variable of the array, given by its place. -/
namespace Nasl

open CString

def Var.defined : Var → Bool
  | .undef => false
  | _ => true

/-- The element is not NULL and not undefined. -/
def NaslArray.defined (a : NaslArray Var) (s : Step) : Bool := (a.elt s).any Var.defined

def NaslArray.chain (a : NaslArray Var) (h : Nat) : List (CString × Var) := a.hashElt[h]?.getD []

/-- `nasl_iterator`; the pointer `v` is the place of a named element. -/
structure NaslIterator where
  a : Option (NaslArray Var)
  v : Option (Nat × Nat)
  i1 : Int
  iH : Nat

def naslArrayIterator (store : Var) (c : Option Cell) : NaslIterator where
  a :=
    match c with
    | some (.refVar (some refVal)) | some (.refArray refVal) =>
        match store.get refVal with
        | some (.array a) => some a
        | _ => none
    | some (.dynArray a) => some a
    | _ => none
  v := none
  i1 := 0
  iH := 0

/-- The next number with an element that is defined. -/
def numLoop (a : NaslArray Var) (i1 : Nat) : Option Nat :=
  if i1 < a.numElt.length then
    if a.defined (.num i1) then some i1 else numLoop a (i1 + 1)
  else none
termination_by a.numElt.length - i1

/-- The next element of a chain that is defined. -/
def skipUndef (a : NaslArray Var) (h k : Nat) : Option (Nat × Nat) :=
  if k < (a.chain h).length then
    if a.defined (.named h k) then some (h, k) else skipUndef a h (k + 1)
  else none
termination_by (a.chain h).length - k

/-- Chain after chain is searched, from the start if the last one is at its end. -/
def chainLoop (a : NaslArray Var) (v : Option (Nat × Nat)) (iH : Nat) : Option (Nat × Nat) × Nat :=
  match v.bind fun v => skipUndef a v.1 v.2 with
  | some v => (some v, iH)
  | none => if varNameHash ≤ iH then (none, iH) else chainLoop a (some (iH, 0)) (iH + 1)
termination_by varNameHash - iH

/-- The named elements. -/
def iterateNamed (a : NaslArray Var) (it : NaslIterator) : Option Step × NaslIterator :=
  if a.hashElt.isEmpty then (none, it)
  else
    let (v, iH) := chainLoop a (it.v.map fun v => (v.1, v.2 + 1)) it.iH
    (v.map fun v => .named v.1 v.2, { it with v, iH })

def naslIterateArray (it : NaslIterator) : Option Step × NaslIterator :=
  match it.a with
  | none => (none, it)
  | some a =>
      if 0 ≤ it.i1 then
        match numLoop a it.i1.toNat with
        | some i => (some (.num i), { it with i1 := i + 1 })
        | none => iterateNamed a { it with i1 := -1 }
      else iterateNamed a it

/-- What the calls yield, one after the other. -/
def yields (it : NaslIterator) : Nat → Option Step
  | 0 => (naslIterateArray it).1
  | n + 1 => yields (naslIterateArray it).2 n

/-- The keys of one array. -/
def arrayKeys (a : NaslArray Var) : List Var :=
  ((List.range a.numElt.length).filter fun j => a.defined (.num j)).map (fun j => .int (Int32.ofNat j)) ++
    if a.hashElt.isEmpty then []
    else (List.range varNameHash).flatMap fun j =>
      ((a.chain j).filter (·.2.defined)).map fun vn => .string (some vn.1)

/-- The elements of the new array, from the arguments up to the first one that is NULL. -/
def keysLoop : List (Option Var) → List Var
  | some (.array a) :: rest => arrayKeys a ++ keysLoop rest
  | some _ :: rest => keysLoop rest
  | _ => []

def naslKeys (ctxVars : NaslArray Var) : List Var := keysLoop ctxVars.numElt

/-! What is to come out. -/

/-- The numbered elements in ascending order come before the named ones. -/
def Before : Step → Step → Prop
  | .num i, .num j => i < j
  | .named _ _, .num _ => False
  | _, .named _ _ => True

/-- Every element that is defined, once. -/
structure Enumerates (a : NaslArray Var) (order : List Step) : Prop where
  nodup : order.Nodup
  complete : ∀ s, s ∈ order ↔ a.defined s
  ascending : order.Pairwise Before

def NaslArray.key (a : NaslArray Var) : Step → Option Var
  | .num i => some (.int (Int32.ofNat i))
  | .named h k => ((a.chain h)[k]?).map fun vn => .string (some vn.1)

/-! The order of the elements. -/

def numPlaces (a : NaslArray Var) (i1 : Nat) : List Step :=
  ((List.range' i1 (a.numElt.length - i1)).filter fun i => a.defined (.num i)).map .num

def chainPlaces (a : NaslArray Var) (h k : Nat) : List Step :=
  ((List.range' k ((a.chain h).length - k)).filter fun k => a.defined (.named h k)).map (.named h)

def namedPlaces (a : NaslArray Var) (iH : Nat) : List Step :=
  (List.range' iH (varNameHash - iH)).flatMap fun h => chainPlaces a h 0

theorem filter_range'_unfold (p : Nat → Bool) {i n : Nat} (h : i < n) :
    (List.range' i (n - i)).filter p =
      if p i then i :: (List.range' (i + 1) (n - (i + 1))).filter p
      else (List.range' (i + 1) (n - (i + 1))).filter p := by
  rw [show n - i = n - (i + 1) + 1 by omega, List.range'_succ, List.filter_cons]

theorem numPlaces_eq (a : NaslArray Var) (i1 : Nat) :
    numPlaces a i1 = (numLoop a i1).elim [] fun i => .num i :: numPlaces a (i + 1) := by
  induction i1 using numLoop.induct a with
  | case1 i1 hLess hDefined =>
      rw [numLoop, if_pos hLess, if_pos hDefined, numPlaces, filter_range'_unfold _ hLess, if_pos hDefined]
      rfl
  | case2 i1 hLess hNot ih =>
      rw [numLoop, if_pos hLess, if_neg hNot, ← ih, numPlaces, filter_range'_unfold _ hLess, if_neg hNot]
      rfl
  | case3 i1 hEnd =>
      rw [numLoop, if_neg hEnd, numPlaces, Nat.sub_eq_zero_of_le (by omega)]
      rfl

theorem chainPlaces_eq (a : NaslArray Var) (h k : Nat) :
    chainPlaces a h k =
      (skipUndef a h k).elim [] fun v => .named v.1 v.2 :: chainPlaces a v.1 (v.2 + 1) := by
  induction k using skipUndef.induct a h with
  | case1 k hLess hDefined =>
      rw [skipUndef, if_pos hLess, if_pos hDefined, chainPlaces, filter_range'_unfold _ hLess,
        if_pos hDefined]
      rfl
  | case2 k hLess hNot ih =>
      rw [skipUndef, if_pos hLess, if_neg hNot, ← ih, chainPlaces, filter_range'_unfold _ hLess, if_neg hNot]
      rfl
  | case3 k hEnd =>
      rw [skipUndef, if_neg hEnd, chainPlaces, Nat.sub_eq_zero_of_le (by omega)]
      rfl

theorem namedPlaces_unfold (a : NaslArray Var) {iH : Nat} (h : iH < varNameHash) :
    namedPlaces a iH = chainPlaces a iH 0 ++ namedPlaces a (iH + 1) := by
  rw [namedPlaces, show varNameHash - iH = varNameHash - (iH + 1) + 1 by omega, List.range'_succ,
    List.flatMap_cons]
  rfl

theorem namedPlaces_end (a : NaslArray Var) {iH : Nat} (h : varNameHash ≤ iH) : namedPlaces a iH = [] := by
  rw [namedPlaces, Nat.sub_eq_zero_of_le h]
  rfl

/-- The elements from a pointer into a chain on, and those of the chains behind it. -/
def fromChain (a : NaslArray Var) (v : Option (Nat × Nat)) (iH : Nat) : List Step :=
  (v.elim [] fun v => chainPlaces a v.1 v.2) ++ namedPlaces a iH

theorem fromChain_none {a : NaslArray Var} {v : Option (Nat × Nat)}
    (h : (v.bind fun v => skipUndef a v.1 v.2) = none) (iH : Nat) : fromChain a v iH = namedPlaces a iH := by
  cases v with
  | none => rfl
  | some p => rw [fromChain, Option.elim_some, chainPlaces_eq, show skipUndef a p.1 p.2 = none from h]; rfl

theorem fromChain_eq (a : NaslArray Var) (v : Option (Nat × Nat)) (iH : Nat) :
    fromChain a v iH = (chainLoop a v iH).1.elim [] fun w =>
      .named w.1 w.2 :: fromChain a (some (w.1, w.2 + 1)) (chainLoop a v iH).2 := by
  induction v, iH using chainLoop.induct a with
  | case1 v iH w hFound =>
      obtain ⟨p, rfl, hSkip⟩ := Option.bind_eq_some_iff.mp hFound
      rw [chainLoop, hFound, fromChain, Option.elim_some, chainPlaces_eq, hSkip]
      rfl
  | case2 v iH hNone hEnd =>
      rw [chainLoop, hNone, fromChain_none hNone, namedPlaces_end a hEnd]
      simp only [if_pos hEnd]
      rfl
  | case3 v iH hNone hGoOn ih =>
      rw [chainLoop, hNone, fromChain_none hNone, namedPlaces_unfold a (by omega)]
      simp only [if_neg hGoOn]
      exact ih

theorem chainLoop_end {a : NaslArray Var} {v : Option (Nat × Nat)} {iH : Nat}
    (h : (chainLoop a v iH).1 = none) : varNameHash ≤ (chainLoop a v iH).2 := by
  induction v, iH using chainLoop.induct a with
  | case1 v iH w hFound =>
      rw [chainLoop, hFound] at h
      cases h
  | case2 v iH hNone hEnd =>
      rw [chainLoop, hNone]
      simp only [if_pos hEnd]
      exact hEnd
  | case3 v iH hNone hGoOn ih =>
      rw [chainLoop, hNone] at h ⊢
      simp only [if_neg hGoOn] at h ⊢
      exact ih h

/-! The iterator. -/

/-- What is still to come. -/
def upcoming (a : NaslArray Var) (it : NaslIterator) : List Step :=
  (if 0 ≤ it.i1 then numPlaces a it.i1.toNat else []) ++
    fromChain a (it.v.map fun v => (v.1, v.2 + 1)) it.iH

theorem fromChain_empty {a : NaslArray Var} (h : a.hashElt.isEmpty = true) (v : Option (Nat × Nat)) (iH : Nat) :
    fromChain a v iH = [] := by
  have hChain : ∀ i, a.chain i = [] := by
    intro i
    rw [NaslArray.chain, List.isEmpty_iff.mp h]
    rfl
  have hPlaces : ∀ i k, chainPlaces a i k = [] := by
    intro i k
    rw [chainPlaces, hChain, List.length_nil, Nat.zero_sub]
    rfl
  rw [fromChain, namedPlaces]
  cases v <;> simp [hPlaces]

/-- A call yields the first of them and leaves the others. -/
structure Advances (a : NaslArray Var) (it : NaslIterator) (next : Option Step × NaslIterator) : Prop where
  yield : next.1 = (upcoming a it).head?
  rest : upcoming a next.2 = (upcoming a it).tail
  array : next.2.a = it.a

theorem iterateNamed_advances (a : NaslArray Var) {it : NaslIterator} (hNum : it.i1 < 0) :
    Advances a it (iterateNamed a it) := by
  have hUpcoming : ∀ it' : NaslIterator, it'.i1 = it.i1 →
      upcoming a it' = fromChain a (it'.v.map fun v => (v.1, v.2 + 1)) it'.iH := by
    intro it' hSame
    rw [upcoming, if_neg (by omega), List.nil_append]
  rw [iterateNamed]
  split
  · rename_i hEmpty
    refine ⟨?_, ?_, rfl⟩
    · rw [hUpcoming it rfl, fromChain_empty hEmpty]
      rfl
    · rw [hUpcoming it rfl, fromChain_empty hEmpty]
      rfl
  · have hFirst := fromChain_eq a (it.v.map fun v => (v.1, v.2 + 1)) it.iH
    have hEnd := @chainLoop_end a (it.v.map fun v => (v.1, v.2 + 1)) it.iH
    generalize chainLoop a (it.v.map fun v => (v.1, v.2 + 1)) it.iH = found at hFirst hEnd ⊢
    obtain ⟨w, iH⟩ := found
    cases w with
    | none =>
        refine ⟨?_, (hUpcoming { it with v := none, iH := iH } rfl).trans ?_, rfl⟩
        · rw [hUpcoming it rfl, hFirst]
          rfl
        · rw [hUpcoming it rfl, hFirst]
          exact namedPlaces_end a (hEnd rfl)
    | some w =>
        refine ⟨?_, (hUpcoming { it with v := some w, iH := iH } rfl).trans ?_, rfl⟩
        · rw [hUpcoming it rfl, hFirst]
          rfl
        · rw [hUpcoming it rfl, hFirst]
          rfl

theorem naslIterateArray_advances {a : NaslArray Var} {it : NaslIterator} (h : it.a = some a) :
    Advances a it (naslIterateArray it) := by
  obtain ⟨array, v, i1, iH⟩ := it
  obtain rfl : array = some a := h
  rw [naslIterateArray]
  simp only
  split
  · rename_i hNum
    have hFirst := numPlaces_eq a i1.toNat
    have hUpcoming : upcoming a ⟨some a, v, i1, iH⟩ = numPlaces a i1.toNat ++
        fromChain a (v.map fun v => (v.1, v.2 + 1)) iH := by rw [upcoming, if_pos hNum]
    cases hLoop : numLoop a i1.toNat with
    | none =>
        rw [hLoop] at hFirst
        have hSame : upcoming a ⟨some a, v, i1, iH⟩ = upcoming a ⟨some a, v, -1, iH⟩ := by
          rw [hUpcoming, hFirst]
          rfl
        have hNamed := @iterateNamed_advances a ⟨some a, v, -1, iH⟩ (by simp)
        exact ⟨by rw [hSame]; exact hNamed.yield, by rw [hSame]; exact hNamed.rest, hNamed.array⟩
    | some i =>
        rw [hLoop] at hFirst
        refine ⟨?_, ?_, rfl⟩
        · rw [hUpcoming, hFirst]
          rfl
        · have hNext : (0 : Int) ≤ i + 1 := by omega
          rw [hUpcoming, hFirst, upcoming, if_pos hNext]
          rfl
  · rename_i hNamed
    exact iterateNamed_advances a (Int.not_le.mp hNamed)

theorem yields_eq {a : NaslArray Var} {it : NaslIterator} (h : it.a = some a) (n : Nat) :
    yields it n = (upcoming a it)[n]? := by
  induction n generalizing it with
  | zero => rw [yields, (naslIterateArray_advances h).yield, List.head?_eq_getElem?]
  | succ n ih =>
      have hStep := naslIterateArray_advances h
      rw [yields, ih (hStep.array.trans h), hStep.rest, List.getElem?_tail]

/-! The order is complete. -/

def places (a : NaslArray Var) : List Step := numPlaces a 0 ++ namedPlaces a 0

theorem numElt_of_defined {a : NaslArray Var} {i : Nat} (h : a.defined (.num i) = true) :
    i < a.numElt.length := by
  by_contra hEnd
  rw [NaslArray.defined, NaslArray.elt, List.getElem?_eq_none (by omega)] at h
  cases h

theorem chain_of_defined {a : NaslArray Var} {h k : Nat} (hDefined : a.defined (.named h k) = true) :
    h < a.hashElt.length ∧ k < (a.chain h).length := by
  have hChain : k < (a.chain h).length := by
    by_contra hEnd
    have hNone : a.elt (.named h k) = none := by
      change ((a.chain h)[k]?).map Prod.snd = none
      rw [List.getElem?_eq_none (by omega)]
      rfl
    rw [NaslArray.defined, hNone] at hDefined
    cases hDefined
  refine ⟨?_, hChain⟩
  by_contra hEnd
  rw [NaslArray.chain, List.getElem?_eq_none (by omega)] at hChain
  exact Nat.not_lt_zero _ hChain

theorem mem_numPlaces {a : NaslArray Var} {s : Step} :
    s ∈ numPlaces a 0 ↔ ∃ i, s = .num i ∧ a.defined (.num i) = true := by
  simp only [numPlaces, List.mem_map, List.mem_filter, List.mem_range'_1]
  constructor
  · rintro ⟨i, ⟨_, hDefined⟩, rfl⟩
    exact ⟨i, rfl, hDefined⟩
  · rintro ⟨i, rfl, hDefined⟩
    have hLess := numElt_of_defined hDefined
    exact ⟨i, ⟨⟨Nat.zero_le _, by omega⟩, hDefined⟩, rfl⟩

theorem mem_chainPlaces {a : NaslArray Var} {h : Nat} {s : Step} :
    s ∈ chainPlaces a h 0 ↔ ∃ k, s = .named h k ∧ a.defined (.named h k) = true := by
  simp only [chainPlaces, List.mem_map, List.mem_filter, List.mem_range'_1]
  constructor
  · rintro ⟨k, ⟨_, hDefined⟩, rfl⟩
    exact ⟨k, rfl, hDefined⟩
  · rintro ⟨k, rfl, hDefined⟩
    have hLess := (chain_of_defined hDefined).2
    exact ⟨k, ⟨⟨Nat.zero_le _, by omega⟩, hDefined⟩, rfl⟩

theorem mem_namedPlaces {a : NaslArray Var} (hTable : a.hashElt.length ≤ varNameHash) {s : Step} :
    s ∈ namedPlaces a 0 ↔ ∃ h k, s = .named h k ∧ a.defined (.named h k) = true := by
  simp only [namedPlaces, List.mem_flatMap, List.mem_range'_1, mem_chainPlaces]
  constructor
  · rintro ⟨h, _, k, rfl, hDefined⟩
    exact ⟨h, k, rfl, hDefined⟩
  · rintro ⟨h, k, rfl, hDefined⟩
    have hLess := (chain_of_defined hDefined).1
    exact ⟨h, ⟨Nat.zero_le _, by omega⟩, k, rfl, hDefined⟩

theorem nodup_namedPlaces (a : NaslArray Var) : (namedPlaces a 0).Nodup := by
  refine List.nodup_flatMap.mpr ⟨fun h _ => ?_, ?_⟩
  · refine ((List.nodup_range' 1).filter _).map fun i j hSame => ?_
    cases hSame
    rfl
  · refine List.Pairwise.imp ?_ (@List.pairwise_lt_range' 0 varNameHash 1 Nat.one_pos)
    intro h h' hLess s hMem hMem'
    obtain ⟨k, rfl, _⟩ := mem_chainPlaces.mp hMem
    obtain ⟨k', hSame, _⟩ := mem_chainPlaces.mp hMem'
    cases hSame
    exact Nat.lt_irrefl _ hLess

theorem places_enumerates {a : NaslArray Var} (hTable : a.hashElt.length ≤ varNameHash) :
    Enumerates a (places a) := by
  have hAscending : (numPlaces a 0).Pairwise Before := by
    refine List.pairwise_map.mpr (List.Pairwise.filter _ ?_)
    exact @List.pairwise_lt_range' 0 _ 1 Nat.one_pos
  refine ⟨?_, fun s => ?_, ?_⟩
  · refine List.nodup_append.mpr ⟨?_, nodup_namedPlaces a, ?_⟩
    · refine ((List.nodup_range' 1).filter _).map fun i j hSame => ?_
      cases hSame
      rfl
    · intro s hNum s' hNamed hSame
      obtain ⟨i, rfl, _⟩ := mem_numPlaces.mp hNum
      obtain ⟨h, k, rfl, _⟩ := (mem_namedPlaces hTable).mp hNamed
      cases hSame
  · rw [places, List.mem_append, mem_numPlaces, mem_namedPlaces hTable]
    constructor
    · rintro (⟨i, rfl, hDefined⟩ | ⟨h, k, rfl, hDefined⟩)
      · exact hDefined
      · exact hDefined
    · intro hDefined
      cases s with
      | num i => exact Or.inl ⟨i, rfl, hDefined⟩
      | named h k => exact Or.inr ⟨h, k, rfl, hDefined⟩
  · refine List.pairwise_append.mpr ⟨hAscending, ?_, ?_⟩
    · refine List.pairwise_of_forall_mem_list fun s hMem s' hMem' => ?_
      obtain ⟨h, k, rfl, _⟩ := (mem_namedPlaces hTable).mp hMem
      obtain ⟨h', k', rfl, _⟩ := (mem_namedPlaces hTable).mp hMem'
      trivial
    · intro s hNum s' hNamed
      obtain ⟨i, rfl, _⟩ := mem_numPlaces.mp hNum
      obtain ⟨h, k, rfl, _⟩ := (mem_namedPlaces hTable).mp hNamed
      trivial

/-! The keys. -/

theorem chainKeys_eq (a : NaslArray Var) (h k : Nat) :
    ((((a.chain h).drop k).filter (·.2.defined)).map fun vn => some (Var.string (some vn.1))) =
      (chainPlaces a h k).map a.key := by
  by_cases hLess : k < (a.chain h).length
  · have hRest := chainKeys_eq a h (k + 1)
    have hDefined : a.defined (.named h k) = (a.chain h)[k].2.defined := by
      change (((a.chain h)[k]?).map Prod.snd).any Var.defined = _
      rw [List.getElem?_eq_getElem hLess]
      rfl
    have hKey : a.key (.named h k) = some (.string (some (a.chain h)[k].1)) := by
      rw [NaslArray.key, List.getElem?_eq_getElem hLess]
      rfl
    rw [List.drop_eq_getElem_cons hLess, List.filter_cons, chainPlaces, filter_range'_unfold _ hLess,
      hDefined]
    split
    · rw [List.map_cons, List.map_cons, List.map_cons, hRest, hKey]
      rfl
    · exact hRest
  · rw [List.drop_of_length_le (by omega), chainPlaces, Nat.sub_eq_zero_of_le (by omega)]
    rfl
termination_by (a.chain h).length - k

theorem arrayKeys_eq (a : NaslArray Var) : (arrayKeys a).map some = (places a).map a.key := by
  have hNum : (((List.range a.numElt.length).filter fun j => a.defined (.num j)).map
      fun j => some (Var.int (Int32.ofNat j))) = (numPlaces a 0).map a.key := by
    rw [numPlaces, List.map_map, List.range_eq_range', Nat.sub_zero]
    rfl
  rw [arrayKeys, places, List.map_append, List.map_append, List.map_map]
  congr 1
  split
  · rename_i hEmpty
    have hNone := fromChain_empty hEmpty none 0
    rw [fromChain, Option.elim_none, List.nil_append] at hNone
    rw [hNone]
    rfl
  · rw [namedPlaces, List.map_flatMap, List.map_flatMap, List.range_eq_range', Nat.sub_zero]
    refine List.flatMap_congr fun h _ => ?_
    have hChain := chainKeys_eq a h 0
    rw [List.drop_zero] at hChain
    rw [List.map_map, ← hChain]
    rfl

/-! The keys of a copy. -/

/-- The variable that `add_numbered_var_to_ctxt` makes of an argument. It is in no other array, so
that nothing changes while the argument is copied. -/
def createAnonVar (store : Var) : Option Cell → Var
  | none | some .fake | some .other | some (.refVar none) => .undef
  | some (.constInt iVal) => .int iVal
  | some (.constStr strVal) => .string strVal
  | some (.constData strVal) => .data strVal
  | some (.refVar (some v2)) => ((store.get v2).map copyAnonVar).getD .undef
  | some (.refArray a) =>
      match store.get a with
      | some (.array a) => .array (copyArray a true)
      | _ => .undef
  | some (.dynArray a) => .array (copyArray a true)

/-- A call of `keys` with one argument, in a context of its own. -/
def callKeys (store : Var) (c : Option Cell) : List Var :=
  naslKeys ⟨[some (createAnonVar store c)], List.replicate varNameHash []⟩

/-- The names of the elements of a chain that are defined, in its order. -/
def definedNames (chain : List (CString × Var)) : List CString :=
  (chain.filter (·.2.defined)).map (·.1)

theorem defined_copyAnonVar (v : Var) : (copyAnonVar v).defined = v.defined := by
  cases v with
  | array a => rfl
  | _ => rfl

theorem defined_copyArray (a : NaslArray Var) (i : Nat) :
    (copyArray a true).defined (.num i) = a.defined (.num i) := by
  change ((copyNumElt a.numElt)[i]?.getD none).any Var.defined = (a.numElt[i]?.getD none).any Var.defined
  rw [copyNumElt_eq, List.getElem?_map]
  rcases a.numElt[i]? with _ | (_ | v)
  · rfl
  · rfl
  · exact defined_copyAnonVar v

/-- A copy has its names in the reverse order. -/
theorem definedNames_copy (a : NaslArray Var) (h : Nat) :
    definedNames ((copyArray a true).chain h) = (definedNames (a.chain h)).reverse := by
  have hChain : (copyArray a true).chain h =
      ((a.chain h).map fun v => (v.1, copyAnonVar v.2)).reverse := by
    rw [NaslArray.chain, NaslArray.chain, copyArray, if_pos rfl, copyHashElt_eq, List.getElem?_map]
    cases a.hashElt[h]? with
    | none => rfl
    | some chain => rfl
  have hDefined : (fun v : CString × Var => v.2.defined) ∘
      (fun v : CString × Var => (v.1, copyAnonVar v.2)) = fun v => v.2.defined :=
    funext fun v => defined_copyAnonVar v.2
  rw [hChain, definedNames, definedNames, List.filter_reverse, List.map_reverse, List.filter_map,
    hDefined, List.map_map]
  rfl

theorem arrayKeys_eq_names (a : NaslArray Var) :
    arrayKeys a =
      ((List.range a.numElt.length).filter fun j => a.defined (.num j)).map (fun j => .int (Int32.ofNat j)) ++
        if a.hashElt.isEmpty then []
        else (List.range varNameHash).flatMap fun j =>
          (definedNames (a.chain j)).map fun name => .string (some name) := by
  simp only [arrayKeys, definedNames, List.map_map]
  rfl

theorem flatMap_eq_iff {α β : Type} {f g : α → List β} {xs : List α}
    (hLength : ∀ x ∈ xs, (f x).length = (g x).length) :
    xs.flatMap f = xs.flatMap g ↔ ∀ x ∈ xs, f x = g x := by
  constructor
  · intro hSame
    have hLengths : (xs.map f).map List.length = (xs.map g).map List.length := by
      rw [List.map_map, List.map_map]
      exact List.map_congr_left hLength
    have hAll : xs.map f = xs.map g := by
      refine List.eq_iff_flatten_eq.mpr ⟨?_, hLengths⟩
      rw [← List.flatMap_def, ← List.flatMap_def, hSame]
    exact List.map_inj_left.mp hAll
  · exact List.flatMap_congr

/-- The keys of a copy come in the order of the array exactly if each chain reads the same in both
directions. -/
theorem arrayKeys_copy_iff {a : NaslArray Var}
    (hTable : a.hashElt = [] ∨ a.hashElt.length = varNameHash) :
    arrayKeys (copyArray a true) = arrayKeys a ↔
      ∀ chain ∈ a.hashElt, (definedNames chain).reverse = definedNames chain := by
  have hNums : (List.range (copyArray a true).numElt.length).filter
        (fun j => (copyArray a true).defined (.num j)) =
      (List.range a.numElt.length).filter fun j => a.defined (.num j) := by
    have hLength : (copyArray a true).numElt.length = a.numElt.length := by
      rw [copyArray, copyNumElt_eq, List.length_map]
    rw [hLength]
    exact List.filter_congr fun j _ => defined_copyArray a j
  have hEmpty : (copyArray a true).hashElt.isEmpty = a.hashElt.isEmpty := by
    rw [copyArray, if_pos rfl, copyHashElt_eq, List.isEmpty_map]
  rw [arrayKeys_eq_names, arrayKeys_eq_names, hNums, hEmpty, List.append_cancel_left_eq]
  rcases hTable with hNull | hAll
  · simp [hNull]
  · have hSome : a.hashElt.isEmpty = false := by
      apply List.isEmpty_eq_false_iff.mpr
      intro hNull
      rw [hNull] at hAll
      cases hAll
    simp only [hSome, Bool.false_eq_true, if_false, definedNames_copy]
    rw [flatMap_eq_iff fun h _ => by rw [List.length_map, List.length_map, List.length_reverse]]
    have hString : Function.Injective fun name : CString => Var.string (some name) := by
      intro name name' hSame
      cases hSame
      rfl
    constructor
    · intro hKeys chain hChain
      obtain ⟨h, hLess, rfl⟩ := List.getElem_of_mem hChain
      have hKey := hString.list_map (hKeys h (List.mem_range.mpr (hAll ▸ hLess)))
      rw [NaslArray.chain, List.getElem?_eq_getElem hLess] at hKey
      exact hKey
    · intro hChains h _
      refine congrArg _ ?_
      by_cases hLess : h < a.hashElt.length
      · rw [NaslArray.chain, List.getElem?_eq_getElem hLess]
        exact hChains _ (List.getElem_mem hLess)
      · rw [NaslArray.chain, List.getElem?_eq_none (Nat.le_of_not_lt hLess)]
        rfl

/-- Without a name that stands twice a chain reads the same in both directions if it has one defined
element at most. -/
theorem reverse_definedNames_iff {chain : List (CString × Var)}
    (hDistinct : (definedNames chain).Nodup) :
    (definedNames chain).reverse = definedNames chain ↔ (definedNames chain).length ≤ 1 := by
  generalize definedNames chain = names at hDistinct ⊢
  match names with
  | [] => simp
  | [name] => simp
  | first :: second :: names =>
      refine iff_of_false (fun hSame => ?_) (by simp)
      have hLast := congrArg List.head? hSame
      rw [List.head?_reverse, List.getLast?_cons_cons, List.head?_cons] at hLast
      exact (List.nodup_cons.mp hDistinct).1 (List.mem_of_getLast? hLast)

theorem arrayKeys_copy_iff_of_nodup {a : NaslArray Var}
    (hTable : a.hashElt = [] ∨ a.hashElt.length = varNameHash)
    (hDistinct : ∀ chain ∈ a.hashElt, (definedNames chain).Nodup) :
    arrayKeys (copyArray a true) = arrayKeys a ↔
      ∀ chain ∈ a.hashElt, (definedNames chain).length ≤ 1 := by
  rw [arrayKeys_copy_iff hTable]
  exact forall₂_congr fun chain hChain => reverse_definedNames_iff (hDistinct chain hChain)

/-- A call gets the keys of a copy. -/
theorem callKeys_eq {store : Var} {c : Option Cell} {a : NaslArray Var}
    (hArray : (naslArrayIterator store c).a = some a) :
    callKeys store c = arrayKeys (copyArray a true) := by
  have hArgument : createAnonVar store c = .array (copyArray a true) := by
    unfold naslArrayIterator at hArray
    dsimp only at hArray
    split at hArray
    · rename_i refVal
      split at hArray
      · rename_i found hGet
        obtain rfl := Option.some.inj hArray
        rw [createAnonVar, hGet]
        rfl
      · cases hArray
    · rename_i refVal
      split at hArray
      · rename_i found hGet
        obtain rfl := Option.some.inj hArray
        rw [createAnonVar, hGet]
      · cases hArray
    · obtain rfl := Option.some.inj hArray
      rfl
    · cases hArray
  rw [callKeys, naslKeys, hArgument]
  exact List.append_nil _

/-- The iterator yields every element once and then NULL. The keys are those of the elements in the
same order exactly if each chain of defined elements reads the same in both directions, since
the call of `keys` copies its argument. -/
theorem keys_inOrder_iff {store : Var} {c : Option Cell} {a : NaslArray Var}
    (hArray : (naslArrayIterator store c).a = some a)
    (hTable : a.hashElt = [] ∨ a.hashElt.length = varNameHash) :
    ∃ order, Enumerates a order ∧ (∀ n, yields (naslArrayIterator store c) n = order[n]?) ∧
      ((callKeys store c).map some = order.map a.key ↔
        ∀ chain ∈ a.hashElt, (definedNames chain).reverse = definedNames chain) := by
  have hLength : a.hashElt.length ≤ varNameHash := by
    rcases hTable with hNull | hAll
    · rw [hNull]
      exact Nat.zero_le _
    · exact Nat.le_of_eq hAll
  refine ⟨places a, places_enumerates hLength, fun n => ?_, ?_⟩
  · rw [yields_eq hArray]
    rfl
  · rw [callKeys_eq hArray, ← arrayKeys_eq, ← arrayKeys_copy_iff hTable]
    exact (List.map_injective_iff.mpr (Option.some_injective Var)).eq_iff

/-- A hole, an undefined element, and a chain that starts with an undefined one. -/
def sparse : NaslArray Var where
  numElt := [some (.int 1), none, some .undef, some (.int 2)]
  hashElt := (List.replicate varNameHash []).set 3 [(lit "x", .undef), (lit "y", .int 5)]

theorem keys_inOrder_iff_sparse :
    ∃ order, Enumerates sparse order ∧
      (∀ n, yields (naslArrayIterator (.array sparse) (some (.refArray []))) n = order[n]?) ∧
      ((callKeys (.array sparse) (some (.refArray []))).map some = order.map sparse.key ↔
        ∀ chain ∈ sparse.hashElt, (definedNames chain).reverse = definedNames chain) :=
  keys_inOrder_iff rfl (Or.inr rfl)

example : places sparse = [.num 0, .num 3, .named 3 1] := by decide +kernel

/-- An array after `a["a"] = 1; a["r"] = 2;`: both names are in one chain, the newer one in front. -/
def twoNames : NaslArray Var where
  numElt := []
  hashElt := (List.replicate varNameHash []).set 12 [(lit "r", .int 2), (lit "a", .int 1)]

/-- `foreach` finds "r" and then "a", and `keys` gives "a" and then "r". -/
theorem keys_not_inOrder :
    (getVarByName (getVarByName emptyArray (lit "a")).2 (lit "r")).2.hashElt.map (·.map (·.1)) =
        twoNames.hashElt.map (·.map (·.1)) ∧
      ¬ ∃ order, Enumerates twoNames order ∧
        (∀ n, yields (naslArrayIterator (.array twoNames) (some (.refArray []))) n = order[n]?) ∧
        (callKeys (.array twoNames) (some (.refArray []))).map some = order.map twoNames.key := by
  refine ⟨by decide +kernel, ?_⟩
  rintro ⟨order, -, hYields, hKeys⟩
  have hFirst : order[0]? = some (.named 12 0) := by
    rw [← hYields 0, yields_eq rfl]
    decide +kernel
  have hCopy : callKeys (.array twoNames) (some (.refArray [])) =
      [.string (some (lit "a")), .string (some (lit "r"))] := rfl
  have hKey := congrArg (·[0]?) hKeys
  simp only [hCopy, List.getElem?_map, hFirst] at hKey
  have hName : lit "a" = lit "r" := Option.some.inj (Var.string.inj (Option.some.inj (Option.some.inj hKey)))
  exact absurd hName (by decide)

end Nasl
