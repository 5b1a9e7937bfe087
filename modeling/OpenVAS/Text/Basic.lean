import OpenVAS.Lib.Buffer
import OpenVAS.Packets.Basic

/-! What the functions of `nasl_text_utils.c` work with: the arguments of a call and buffers that are
written piece by piece. Sizes and places are numbers without an upper end, where the source has
`int`; for texts of fewer than 2^31 bytes that is the same. -/
namespace Text

open CString Packets CMemory

/-! Arguments. -/

/-- A VAR2_INT, a VAR2_STRING or a VAR2_DATA. -/
inductive Var where
  | int (vInt : Int32)
  | string (sVal : List UInt8)
  | data (sVal : List UInt8)
deriving DecidableEq

/-- Without the difference between strings and data. -/
def Var.argument : Var → Argument
  | .int vInt => .int vInt
  | .string sVal | .data sVal => .str sVal

/-- The numbered arguments and the named ones; `none` is VAR2_UNDEF. -/
structure Lexic where
  ctxVars : List (Option Var)
  named : String → Option Var

def Lexic.byNum (lexic : Lexic) (num : Nat) : Option Argument := (lexic.ctxVars[num]?.join).map Var.argument

def Lexic.byName (lexic : Lexic) (name : String) : Option Argument := (lexic.named name).map Var.argument

def getStrVarByNum (lexic : Lexic) (num : Nat) : Option CString := var2str (lexic.byNum num)

def getVarSizeByNum (lexic : Lexic) (num : Nat) : Nat := getVarSize (lexic.byNum num)

def getIntVarByNum (lexic : Lexic) (num : Nat) (defval : Int32) : Int32 := var2int (lexic.byNum num) defval

def getStrLocalVarByName (lexic : Lexic) (name : String) : Option CString := var2str (lexic.byName name)

def getLocalVarSizeByName (lexic : Lexic) (name : String) : Nat := getVarSize (lexic.byName name)

def getIntLocalVarByName (lexic : Lexic) (name : String) (defval : Int32) : Int32 :=
  var2int (lexic.byName name) defval

/-- A byte of a text; behind the text there is a zero byte. -/
def byteAt (s : CString) (i : Nat) : UInt8 := s.getD i 0

@[simp] theorem byteAt_nil (i : Nat) : byteAt [] i = 0 := rfl

@[simp] theorem byteAt_cons_zero (c : UInt8) (rest : CString) : byteAt (c :: rest) 0 = c := rfl

@[simp] theorem byteAt_cons_succ (c : UInt8) (rest : CString) (i : Nat) :
    byteAt (c :: rest) (i + 1) = byteAt rest i := rfl

/-- A size of zero stands for the length of the text. -/
def sizeOr (s : CString) (sz : Nat) : Nat := if sz = 0 then (cText s).length else sz

theorem sizeOr_length (s : CString) : sizeOr s s.length = s.length := by
  unfold sizeOr
  split
  · rename_i hZero
    rw [List.eq_nil_of_length_eq_zero hZero]
    rfl
  · rfl

/-- `memmem`: the offset of the first occurrence. -/
def memmem (haystack needle : List UInt8) : Option Nat := strstr haystack needle

/-- It is before any other occurrence. -/
theorem memmem_le {before needle after : List UInt8} {i : Nat}
    (h : memmem (before ++ needle ++ after) needle = some i) : i ≤ before.length := by
  induction before generalizing i with
  | nil =>
      have hHere : memmem (needle ++ after) needle = some 0 := by
        cases hText : needle ++ after with
        | nil => simp [memmem, strstr, (List.append_eq_nil_iff.mp hText).1]
        | cons c rest =>
            have hPrefix : needle.isPrefixOf (c :: rest) = true := by
              rw [← hText]
              exact List.isPrefixOf_iff_prefix.mpr (List.prefix_append needle after)
            simp [memmem, strstr, hPrefix]
      rw [List.nil_append, hHere] at h
      exact Nat.le_of_eq (Option.some.inj h).symm
  | cons b before ih =>
      rw [List.cons_append, List.cons_append, memmem, strstr] at h
      split at h
      · rw [← Option.some.inj h]
        exact Nat.zero_le _
      · obtain ⟨j, hj, rfl⟩ := Option.map_eq_some_iff.mp h
        have hLe := ih hj
        rw [List.length_cons]
        omega

/-! Buffers. -/

def emalloc (size : Nat) : Buffer := List.replicate (size + 1) (some 0)

def erealloc (ptr : Buffer) (size : Nat) : Buffer := realloc ptr size

theorem length_erealloc (ptr : Buffer) (size : Nat) : (erealloc ptr size).length = size :=
  length_realloc ptr size

/-- A block that holds some bytes still holds them when it grows. -/
theorem holds_erealloc {buf : Buffer} {out : List UInt8} (h : buf.Holds out) {size : Nat}
    (hSize : out.length ≤ size) : (erealloc buf size).Holds out := by
  refine ⟨by rw [length_erealloc]; exact hSize, ?_⟩
  rw [erealloc, take_realloc h.length hSize, h.content]

/-- So it does with a zero byte at its new end. -/
theorem holds_grown {buf : Buffer} {out : List UInt8} (h : buf.Holds out) {size : Nat}
    (hSize : out.length ≤ size) :
    ((erealloc buf (size + 1)).set size (some 0)).length = size + 1 ∧
      Buffer.Holds ((erealloc buf (size + 1)).set size (some 0)) out := by
  have hHolds := @holds_erealloc _ _ h (size + 1) (by omega)
  have hLength : ((erealloc buf (size + 1)).set size (some 0)).length = size + 1 := by
    rw [List.length_set, length_erealloc]
  refine ⟨hLength, by omega, ?_⟩
  rw [List.take_set_of_le hSize, hHolds.content]

end Text
