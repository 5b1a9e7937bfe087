import OpenVAS.Lib.Sorting
import OpenVAS.Nasl.Variables
import Mathlib.Data.List.Lex

/-! The comparison of `exec.c`, and `sort`. -/
namespace Nasl

open CString Sorting

/-- What the two sides are converted to, apart from NULL. -/
inductive Atom where
  | constInt (iVal : Int32)
  | constStr (strVal : Option (List UInt8))
  | constData (strVal : Option (List UInt8))
  | array

/-- `nasl_read_var_ref`. -/
def readVarRef : Option Var → Option Atom
  | some (.int vInt) => some (.constInt vInt)
  | some (.string sVal) => some (.constStr sVal)
  | some (.data sVal) => some (.constData sVal)
  | some (.array _) => some .array
  | some .undef | none => none

/-- `cell_type`; `null` is 0. -/
inductive CellType where
  | null
  | constInt
  | constStr
  | constData
  | array
deriving DecidableEq

def cellType : Option Atom → CellType
  | none => .null
  | some (.constInt _) => .constInt
  | some (.constStr _) => .constStr
  | some (.constData _) => .constData
  | some .array => .array

def CellType.isText (typ : CellType) : Bool := typ = .constStr || typ = .constData

/-- The type to compare as, or the result if there is none. -/
def commonType (typ1 typ2 : CellType) : Except Int CellType :=
  if typ1 = .null ∧ typ2 = .null then .error 0
  else if typ1 = typ2 then .ok typ1
  else if typ1.isText ∧ typ2.isText then .ok .constData
  else if (typ1 = .constInt ∧ typ2.isText) ∨ (typ2 = .constInt ∧ typ1.isText) then .ok .constData
  else if typ1 = .null then
    if typ2 = .constInt ∨ typ2.isText then .ok typ2 else .error (-1)
  else if typ2 = .null then
    if typ1 = .constInt ∨ typ1.isText then .ok typ1 else .error 1
  else .error 0

def cell2int : Option Atom → Int32
  | some (.constInt iVal) => iVal
  | some (.constStr strVal) | some (.constData strVal) => Int32.ofInt (strtollAuto (textName strVal))
  | some .array | none => 0

/-- The text and its length. -/
def cell2str : Option Atom → List UInt8
  | some (.constInt iVal) => showInt iVal.toInt
  | some (.constStr strVal) | some (.constData strVal) => strVal.getD []
  | some .array | none => []

/-- The difference of the first bytes that are not the same. -/
def memcmp : List UInt8 → List UInt8 → Int
  | a :: s1, b :: s2 => if a = b then memcmp s1 s2 else (a.toNat : Int) - b.toNat
  | _, _ => 0

/-- Lengths are not negative, so that their difference has no overflow. -/
def textCmp (s1 s2 : List UInt8) : Int :=
  let lenMin := min s1.length s2.length
  let flag := memcmp (s1.take lenMin) (s2.take lenMin)
  if flag = 0 then (s1.length : Int) - s2.length else flag

def cellCmp (c1 c2 : Option Atom) : Int :=
  match commonType (cellType c1) (cellType c2) with
  | .error result => result
  | .ok .constInt => (cell2int c1 - cell2int c2).toInt
  | .ok .constStr | .ok .constData => textCmp (cell2str c1) (cell2str c2)
  | .ok .array | .ok .null => 0

def varCmp (pv1 pv2 : Option Var) : Int := cellCmp (readVarRef pv1) (readVarRef pv2)

/-! Lists. -/

/-- The array that `make_list` builds and the index of its next element. -/
structure MakeList where
  numElt : List (Option Var)
  i : Nat

/-- `add_var_to_list`, and the next index if a variable was added. -/
def MakeList.add (list : MakeList) (v : Option Var) : MakeList where
  numElt := (growNumElt list.numElt list.i).set list.i (v.map copyAnonVar)
  i := if v.isSome then list.i + 1 else list.i

/-- One argument. -/
def MakeList.addArgument (list : MakeList) : Var → MakeList
  | .undef => list
  | .array a2 =>
      a2.hashElt.flatten.foldl (fun list vn => match vn.2 with
        | .undef => list
        | v => list.add (some v)) (a2.numElt.foldl MakeList.add list)
  | v => list.add (some v)

/-- The arguments up to the first one that is NULL. -/
def makeListLoop : List (Option Var) → MakeList → MakeList
  | some v :: rest, list => makeListLoop rest (list.addArgument v)
  | _, list => list

def naslMakeList (ctxVars : NaslArray Var) : NaslArray Var :=
  ⟨(makeListLoop ctxVars.numElt ⟨[], 0⟩).numElt, []⟩

/-- `none` is NULL, if a sort is already going on. -/
def naslSortArray (qsort : (Option Var → Option Var → Int) → List (Option Var) → List (Option Var))
    (mylexic : Bool) (ctxVars : NaslArray Var) : Option (NaslArray Var) :=
  if mylexic then none
  else
    let a := naslMakeList ctxVars
    some { a with numElt := qsort varCmp a.numElt }

/-! What is to come out. -/

/-- The arguments are the elements of a list, or one array of them. -/
def Lists (ctxVars : NaslArray Var) (l : List (Option Var)) : Prop :=
  ctxVars.numElt = l ∨ ctxVars.numElt = [some (.array ⟨l, []⟩)]

/-- The integers as they are ordered. -/
def intKey : Option Var → Int
  | some (.int vInt) => vInt.toInt
  | _ => 0

/-- The bytes of a text, in lexicographic order. -/
def textKey : Option Var → List Nat
  | some (.string (some sVal)) | some (.data (some sVal)) => sVal.map UInt8.toNat
  | _ => []

def IsInt (v : Option Var) : Prop := ∃ vInt, v = some (.int vInt)

/-- A string or data. -/
def IsText (v : Option Var) : Prop := ∃ sVal, v = some (.string (some sVal)) ∨ v = some (.data (some sVal))

/-- The difference is a 32-bit integer. -/
def DifferenceFits (x y : Int) : Prop := -2 ^ 31 ≤ x - y ∧ x - y < 2 ^ 31

/-- Whatever sorting function the library has, the result is the list in ascending order. -/
def SortsAscending {κ : Type} [LinearOrder κ] (key : Option Var → κ) (ctxVars : NaslArray Var)
    (l : List (Option Var)) : Prop :=
  ∀ qsort, Sorts qsort →
    ∃ a, naslSortArray qsort false ctxVars = some a ∧ Ascending key l a.numElt

/-! Comparisons. -/

/-- The difference comes out as it is or off by the number of all integers. -/
theorem toInt_sub_cases (x y : Int32) :
    (DifferenceFits x.toInt y.toInt ∧ (x - y).toInt = x.toInt - y.toInt) ∨
      (2 ^ 31 ≤ x.toInt - y.toInt ∧ (x - y).toInt < 0) ∨
      (x.toInt - y.toInt < -2 ^ 31 ∧ 0 < (x - y).toInt) := by
  have hSub : (x - y).toInt = (x.toInt - y.toInt).bmod (2 ^ 32) := Int32.toInt_sub x y
  have hX := x.toInt_lt
  have hX' := x.le_toInt
  have hY := y.toInt_lt
  have hY' := y.le_toInt
  rw [hSub, Int.bmod]
  unfold DifferenceFits
  omega

/-- The sign agrees exactly if the difference has no overflow. -/
theorem agrees_int_iff (x y : Int32) :
    Agrees (cellCmp (some (.constInt x)) (some (.constInt y))) x.toInt y.toInt ↔
      DifferenceFits x.toInt y.toInt := by
  have hCmp : cellCmp (some (.constInt x)) (some (.constInt y)) = (x - y).toInt := rfl
  rw [hCmp]
  rcases toInt_sub_cases x y with ⟨hFits, hSame⟩ | ⟨hLarge, hNegative⟩ | ⟨hSmall, hPositive⟩
  · rw [hSame]
    exact ⟨fun _ => hFits, fun _ => ⟨by omega, by omega⟩⟩
  · constructor
    · intro h
      have hLess := h.less.mp hNegative
      omega
    · intro hFits
      exact absurd hFits.2 (by omega)
  · constructor
    · intro h
      have hLe := (not_congr h.less).mp (by omega)
      omega
    · intro hFits
      exact absurd hFits.1 (by omega)

theorem textCmp_cons (a : UInt8) (s1 s2 : List UInt8) : textCmp (a :: s1) (a :: s2) = textCmp s1 s2 := by
  have hMin : min (a :: s1).length (a :: s2).length = min s1.length s2.length + 1 := by
    simp only [List.length_cons]
    omega
  have hLengths : (((a :: s1).length : Nat) : Int) - (a :: s2).length = s1.length - s2.length := by
    simp only [List.length_cons]
    omega
  simp only [textCmp, hMin, List.take_succ_cons, memcmp, if_true, hLengths]

theorem textCmp_ne {a b : UInt8} (h : a ≠ b) (s1 s2 : List UInt8) :
    textCmp (a :: s1) (b :: s2) = (a.toNat : Int) - b.toNat := by
  have hMin : min (a :: s1).length (b :: s2).length = min s1.length s2.length + 1 := by
    simp only [List.length_cons]
    omega
  have hNat : a.toNat ≠ b.toNat := fun hSame => h (UInt8.toNat_inj.mp hSame)
  simp only [textCmp, hMin, List.take_succ_cons, memcmp, if_neg h]
  rw [if_neg (by omega)]

/-- The bytes are compared first, and a text that goes on is the greater one. -/
theorem agrees_textCmp (s1 s2 : List UInt8) :
    Agrees (textCmp s1 s2) (s1.map UInt8.toNat) (s2.map UInt8.toNat) := by
  induction s1 generalizing s2 with
  | nil =>
      cases s2 with
      | nil => exact ⟨by simp [textCmp, memcmp], by simp [textCmp, memcmp]⟩
      | cons b s2 =>
          have hCmp : textCmp [] (b :: s2) = -((s2.length : Int) + 1) := by
            simp [textCmp, memcmp]
          rw [hCmp]
          refine ⟨?_, ?_⟩
          · rw [List.map_nil, List.map_cons]
            exact ⟨fun _ => List.nil_lt_cons _ _, fun _ => by omega⟩
          · rw [List.map_nil, List.map_cons]
            exact ⟨fun hZero => by omega, fun hNil => nomatch hNil⟩
  | cons a s1 ih =>
      cases s2 with
      | nil =>
          have hCmp : textCmp (a :: s1) [] = (s1.length : Int) + 1 := by
            simp [textCmp, memcmp]
          rw [hCmp]
          refine ⟨?_, ?_⟩
          · rw [List.map_nil, List.map_cons]
            exact ⟨fun hNegative => by omega, fun hLess => absurd hLess (List.not_lt_nil _)⟩
          · rw [List.map_nil, List.map_cons]
            exact ⟨fun hZero => by omega, fun hNil => nomatch hNil⟩
      | cons b s2 =>
          rw [List.map_cons, List.map_cons]
          by_cases hSame : a = b
          · subst hSame
            have hTail := ih s2
            rw [textCmp_cons]
            refine ⟨?_, ?_⟩
            · rw [hTail.less, List.cons_lt_cons_iff]
              simp
            · rw [hTail.equal, List.cons.injEq]
              simp
          · have hNat : a.toNat ≠ b.toNat := fun hEq => hSame (UInt8.toNat_inj.mp hEq)
            rw [textCmp_ne hSame]
            refine ⟨?_, ?_⟩
            · rw [List.cons_lt_cons_iff]
              constructor
              · intro hNegative
                exact Or.inl (by omega)
              · rintro (hLess | hBoth)
                · omega
                · exact absurd hBoth.1 hNat
            · rw [List.cons.injEq]
              constructor
              · intro hZero
                omega
              · intro hBoth
                exact absurd hBoth.1 hNat

theorem agrees_text {v w : Option Var} (hv : IsText v) (hw : IsText w) :
    Agrees (cellCmp (readVarRef v) (readVarRef w)) (textKey v) (textKey w) := by
  obtain ⟨s, hv⟩ := hv
  obtain ⟨t, hw⟩ := hw
  have hTexts := agrees_textCmp s t
  rcases hv with rfl | rfl
  · rcases hw with rfl | rfl
    · exact hTexts
    · exact hTexts
  · rcases hw with rfl | rfl
    · exact hTexts
    · exact hTexts

/-! The list. -/

/-- A variable that is no array; the others are not copied as they are. -/
def IsScalar (v : Option Var) : Prop := IsInt v ∨ IsText v

/-- The elements so far, with the index behind them. -/
def listed (l : List (Option Var)) : MakeList := ⟨l, l.length⟩

theorem add_scalar {v : Option Var} (h : IsScalar v) (l : List (Option Var)) :
    (listed l).add v = listed (l ++ [v]) := by
  have hCopy : v.map copyAnonVar = v ∧ v.isSome = true := by
    rcases h with ⟨vInt, rfl⟩ | ⟨sVal, rfl | rfl⟩
    · exact ⟨by rw [Option.map_some, copyAnonVar], rfl⟩
    · exact ⟨by rw [Option.map_some, copyAnonVar], rfl⟩
    · exact ⟨by rw [Option.map_some, copyAnonVar], rfl⟩
  have hGrow : growNumElt l l.length = l ++ [none] := by
    rw [growNumElt, Nat.add_sub_cancel_left]
    rfl
  rw [MakeList.add, hCopy.1, if_pos hCopy.2]
  simp only [listed, hGrow, List.length_append, List.length_singleton, List.set_append, Nat.lt_irrefl,
    if_false, Nat.sub_self, List.set_cons_zero]

theorem foldl_add {values : List (Option Var)} (h : ∀ v ∈ values, IsScalar v) (l : List (Option Var)) :
    values.foldl MakeList.add (listed l) = listed (l ++ values) := by
  induction values generalizing l with
  | nil => rw [List.foldl_nil, List.append_nil]
  | cons v values ih =>
      rw [List.foldl_cons, add_scalar (h v List.mem_cons_self), ih fun w hw => h w (List.mem_cons_of_mem _ hw),
        List.append_assoc, List.singleton_append]

theorem addArgument_scalar {v : Var} (h : IsScalar (some v)) (list : MakeList) :
    list.addArgument v = list.add (some v) := by
  rcases h with ⟨vInt, hv⟩ | ⟨sVal, hv | hv⟩
  · obtain rfl : v = .int vInt := Option.some.inj hv
    rfl
  · obtain rfl : v = .string (some sVal) := Option.some.inj hv
    rfl
  · obtain rfl : v = .data (some sVal) := Option.some.inj hv
    rfl

theorem makeListLoop_scalars {values : List (Option Var)} (h : ∀ v ∈ values, IsScalar v)
    (list : MakeList) : makeListLoop values list = values.foldl MakeList.add list := by
  induction values generalizing list with
  | nil => rfl
  | cons v values ih =>
      have hScalar := h v List.mem_cons_self
      cases v with
      | none => rcases hScalar with ⟨_, hv⟩ | ⟨_, hv | hv⟩ <;> cases hv
      | some v =>
          rw [makeListLoop, addArgument_scalar hScalar, ih fun w hw => h w (List.mem_cons_of_mem _ hw)]
          rfl

theorem naslMakeList_lists {ctxVars : NaslArray Var} {l : List (Option Var)} (hLists : Lists ctxVars l)
    (h : ∀ v ∈ l, IsScalar v) : (naslMakeList ctxVars).numElt = l := by
  have hFold := foldl_add h []
  rw [List.nil_append] at hFold
  rw [naslMakeList]
  rcases hLists with hArgs | hArray
  · rw [hArgs, makeListLoop_scalars h]
    exact congrArg MakeList.numElt hFold
  · rw [hArray]
    exact congrArg MakeList.numElt hFold

theorem sortsAscending_iff {κ : Type} [LinearOrder κ] {key : Option Var → κ} {ctxVars : NaslArray Var}
    {l : List (Option Var)} (hLists : Lists ctxVars l) (h : ∀ v ∈ l, IsScalar v) :
    SortsAscending key ctxVars l ↔ ∀ qsort, Sorts qsort → Ascending key l (qsort varCmp l) := by
  have hList := naslMakeList_lists hLists h
  constructor
  · intro hAll qsort hSorts
    obtain ⟨a, hRun, hAscending⟩ := hAll qsort hSorts
    obtain rfl := Option.some.inj hRun
    rw [hList] at hAscending
    exact hAscending
  · intro hAll qsort hSorts
    refine ⟨_, rfl, ?_⟩
    rw [hList]
    exact hAll qsort hSorts

theorem sortsAscending_int_iff {ctxVars : NaslArray Var} {l : List (Option Var)} (hLists : Lists ctxVars l)
    (h : ∀ v ∈ l, IsInt v) :
    SortsAscending intKey ctxVars l ↔ ∀ v ∈ l, ∀ w ∈ l, DifferenceFits (intKey v) (intKey w) := by
  rw [sortsAscending_iff hLists fun v hv => Or.inl (h v hv)]
  constructor
  · intro hAll v hv w hw
    obtain ⟨x, rfl⟩ := h v hv
    obtain ⟨y, rfl⟩ := h w hw
    change DifferenceFits x.toInt y.toInt
    rcases toInt_sub_cases x y with ⟨hFits, _⟩ | ⟨hLarge, hNegative⟩ | ⟨hSmall, hPositive⟩
    · exact hFits
    · obtain ⟨qsort, hSorts, hNot⟩ := @exists_not_ascending _ _ _ varCmp l intKey _ _ hw hv
        (show y.toInt < x.toInt by omega) (Or.inr hNegative)
      exact absurd (hAll qsort hSorts) hNot
    · obtain ⟨qsort, hSorts, hNot⟩ := @exists_not_ascending _ _ _ varCmp l intKey _ _ hv hw
        (show x.toInt < y.toInt by omega) (Or.inl hPositive)
      exact absurd (hAll qsort hSorts) hNot
  · intro hFits qsort hSorts
    refine hSorts.ascending fun v hv w hw => ?_
    obtain ⟨x, rfl⟩ := h v hv
    obtain ⟨y, rfl⟩ := h w hw
    exact (agrees_int_iff x y).mpr (hFits _ hv _ hw)

/-- Integers are compared and sorted as they should be exactly if their differences have no overflow,
and texts always are. -/
theorem cellCmp_agrees_iff (x y : Int32) :
    (Agrees (cellCmp (some (.constInt x)) (some (.constInt y))) x.toInt y.toInt ↔
      DifferenceFits x.toInt y.toInt) ∧
    (∀ v w, IsText v → IsText w →
      Agrees (cellCmp (readVarRef v) (readVarRef w)) (textKey v) (textKey w)) ∧
    (∀ ctxVars l, Lists ctxVars l → (∀ v ∈ l, IsInt v) →
      (SortsAscending intKey ctxVars l ↔
        ∀ v ∈ l, ∀ w ∈ l, DifferenceFits (intKey v) (intKey w))) ∧
    (∀ ctxVars l, Lists ctxVars l → (∀ v ∈ l, IsText v) → SortsAscending textKey ctxVars l) := by
  refine ⟨agrees_int_iff x y, fun v w => agrees_text, fun ctxVars l => sortsAscending_int_iff, ?_⟩
  intro ctxVars l hLists h
  rw [sortsAscending_iff hLists fun v hv => Or.inr (h v hv)]
  intro qsort hSorts
  exact hSorts.ascending fun v hv w hw => agrees_text (h v hv) (h w hw)

/-- `sort (3, 1, 2)`. -/
theorem cellCmp_agrees_iff_three :
    SortsAscending intKey ⟨[some (.int 3), some (.int 1), some (.int 2)], []⟩
        [some (.int 3), some (.int 1), some (.int 2)] ↔
      ∀ v ∈ [some (Var.int 3), some (.int 1), some (.int 2)],
        ∀ w ∈ [some (Var.int 3), some (.int 1), some (.int 2)], DifferenceFits (intKey v) (intKey w) :=
  (cellCmp_agrees_iff 0 0).2.2.1 _ _ (Or.inl rfl) (by
    intro v hv
    simp only [List.mem_cons, List.not_mem_nil, or_false] at hv
    rcases hv with rfl | rfl | rfl
    · exact ⟨3, rfl⟩
    · exact ⟨1, rfl⟩
    · exact ⟨2, rfl⟩)

/-- The smallest integer is compared as greater than 1. -/
theorem cellCmp_overflow :
    0 < cellCmp (some (.constInt (-2147483648))) (some (.constInt 1)) ∧
      (-2147483648 : Int32).toInt < (1 : Int32).toInt := by
  decide

end Nasl
