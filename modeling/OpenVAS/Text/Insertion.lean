import OpenVAS.Text.Basic

/-! `insstr`. The sizes are numbers without an upper end, where the source has `int`. -/
namespace Text

open CString Packets CMemory

/-- The size of the result, and what is copied to which offset of it, in turn. -/
structure Insertion where
  sz3 : Int
  copies : List (Nat × List UInt8)

/-- An end that is left out or behind the text is the last byte; the length itself is not. -/
def clampIndex (i2 : Int32) (sz1 : Nat) : Int :=
  if i2.toInt > sz1 ∨ i2.toInt = -1 then sz1 - 1 else i2.toInt

def insertion (s1 s2 : CString) (sz1 sz2 : Nat) (i1 i2 : Int) : Insertion where
  sz3 := if i1 > i2 then sz2 else sz1 + i1 - i2 - 1 + sz2
  copies := [(0, s1.take i1.toNat), (i1.toNat, s2.take sz2)] ++
    if i2 < sz1 - 1 then
      [(i1.toNat + sz2, (s1.drop (i2 + 1).toNat).take (sz1 - 1 - i2).toNat)]
    else []

/-- `none` is NULL; `emalloc` does not return for a size below zero. -/
def naslInsstr (lexic : Lexic) : Except Fault (Option Insertion) :=
  let sz1 := getVarSizeByNum lexic 0
  let sz2 := getVarSizeByNum lexic 1
  let i1 := (getIntVarByNum lexic 2 (-1)).toInt
  let i2 := clampIndex (getIntVarByNum lexic 3 (-1)) sz1
  match getStrVarByNum lexic 0, getStrVarByNum lexic 1 with
  | some s1, some s2 =>
      if i1 < 0 ∨ i2 < 0 then .ok none
      else if i1 ≥ sz1 then .ok none
      else
        let result := insertion s1 s2 sz1 sz2 i1 i2
        if result.sz3 < 0 then .error .exit else .ok (some result)
  | _, _ => .ok none

/-! What is to come out. -/

/-- The copies into the bytes of the reported size. -/
def Insertion.block (result : Insertion) : Option Buffer :=
  result.copies.foldlM (fun buf copy => memcpy buf copy.1 copy.2)
    (List.replicate result.sz3.toNat (some 0))

/-- The last index of the slice, which is the last one of the text if none is given. -/
def sliceEnd (i2 : Int32) (s1 : CString) : Int := if i2.toInt = -1 then s1.length - 1 else i2.toInt

/-- No byte is copied behind the reported size and, for a slice, its bytes are replaced. -/
structure Replaces (s1 s2 : CString) (i1 last : Int) (result : Insertion) : Prop where
  bounded : ∀ copy ∈ result.copies, copy.2 ≠ [] → ((copy.1 + copy.2.length : Nat) : Int) ≤ result.sz3
  content : i1 ≤ last →
    result.block = some ((s1.take i1.toNat ++ s2 ++ s1.drop (last + 1).toNat).map some)

/-- Bytes that are written right behind the ones before. -/
theorem memcpy_front {rest : Buffer} {front src : List UInt8} (h : src.length ≤ rest.length) :
    memcpy (front.map some ++ rest) front.length src =
      some ((front ++ src).map some ++ rest.drop src.length) := by
  have hLength : front.length = (front.map (some : UInt8 → Option UInt8)).length := by rw [List.length_map]
  rw [memcpy, memmove, List.length_map, if_pos (by rw [List.length_append, List.length_map]; omega), hLength,
    List.take_left, ← List.drop_drop, List.drop_left, List.map_append]

theorem memcpy_start {buf : Buffer} {src : List UInt8} (h : src.length ≤ buf.length) :
    memcpy buf 0 src = some (src.map some ++ buf.drop src.length) :=
  @memcpy_front buf [] src h

/-- The part of the text behind the slice. -/
theorem length_behind {s1 : CString} {last : Int} (hLow : 0 ≤ last) (hEnd : last < s1.length) :
    (((s1.drop (last + 1).toNat).length : Nat) : Int) = s1.length - 1 - last := by
  rw [List.length_drop]
  omega

/-- The three copies for a slice inside of the text. -/
theorem insertion_inside {s1 s2 : CString} {i1 i2 : Int} (hLow : 0 ≤ i1) (hSlice : i1 ≤ i2)
    (hEnd : i2 < s1.length) :
    insertion s1 s2 s1.length s2.length i1 i2 =
      ⟨i1 + s2.length + (s1.drop (i2 + 1).toNat).length,
        [(0, s1.take i1.toNat), (i1.toNat, s2)] ++
          if i2 < s1.length - 1 then [(i1.toNat + s2.length, s1.drop (i2 + 1).toNat)] else []⟩ := by
  have hLength := length_behind (Int.le_trans hLow hSlice) hEnd
  have hAll : (s1.drop (i2 + 1).toNat).take (s1.length - 1 - i2).toNat = s1.drop (i2 + 1).toNat :=
    List.take_of_length_le (by omega)
  rw [insertion, if_neg (by omega), hAll, List.take_length, hLength]
  congr 1
  omega

/-- Two pieces one after the other, in a buffer that has room for a third one. -/
theorem memcpy_pieces (front middle behind : List UInt8) (tail : List (Nat × List UInt8)) :
    ([(0, front), (front.length, middle)] ++ tail).foldlM (fun buf copy => memcpy buf copy.1 copy.2)
        (List.replicate (front.length + middle.length + behind.length) (some 0) : Buffer) =
      tail.foldlM (fun buf copy => memcpy buf copy.1 copy.2)
        ((front ++ middle).map some ++ List.replicate behind.length (some 0)) := by
  have hFirst := @memcpy_start
    (List.replicate (front.length + middle.length + behind.length) (some 0)) front
    (by rw [List.length_replicate]; omega)
  have hSecond := @memcpy_front (List.replicate (middle.length + behind.length) (some 0)) front middle
    (by rw [List.length_replicate]; omega)
  rw [List.drop_replicate, Nat.add_assoc, Nat.add_sub_cancel_left] at hFirst
  rw [List.drop_replicate, Nat.add_sub_cancel_left] at hSecond
  rw [List.cons_append, List.foldlM_cons, Nat.add_assoc, hFirst, Option.bind_eq_bind,
    Option.bind_some, List.cons_append, List.foldlM_cons, hSecond, Option.bind_eq_bind,
    Option.bind_some, List.nil_append]

theorem insertion_block {s1 s2 : CString} {i1 i2 : Int} (hLow : 0 ≤ i1) (hSlice : i1 ≤ i2)
    (hEnd : i2 < s1.length) :
    (insertion s1 s2 s1.length s2.length i1 i2).block =
      some ((s1.take i1.toNat ++ s2 ++ s1.drop (i2 + 1).toNat).map some) := by
  have hFront : (s1.take i1.toNat).length = i1.toNat := List.length_take_of_le (by omega)
  rw [insertion_inside hLow hSlice hEnd, Insertion.block]
  generalize hBehind : s1.drop (i2 + 1).toNat = behind
  have hSize : (i1 + (s2.length : Int) + (behind.length : Int)).toNat =
      i1.toNat + s2.length + behind.length := by omega
  have hPieces := memcpy_pieces (s1.take i1.toNat) s2 behind
  have hThird := @memcpy_front (List.replicate behind.length (some 0)) (s1.take i1.toNat ++ s2) behind
    (by rw [List.length_replicate])
  rw [List.length_append, List.drop_replicate, Nat.sub_self, List.replicate_zero,
    List.append_nil] at hThird
  rw [hFront] at hPieces hThird
  rw [hSize, hPieces]
  split
  · rw [List.foldlM_cons, hThird, Option.bind_eq_bind, Option.bind_some]
    rfl
  · have hNil : behind = [] := by
      rw [← hBehind]
      exact List.drop_of_length_le (by omega)
    rw [hNil, List.length_nil, List.replicate_zero, List.append_nil, List.append_nil]
    rfl

theorem insertion_replaces {s1 s2 : CString} {i1 i2 last : Int} (hLow : 0 ≤ i1) (hSlice : i1 ≤ i2)
    (hEnd : i2 < s1.length) (hLast : s1.drop (last + 1).toNat = s1.drop (i2 + 1).toNat) :
    0 ≤ (insertion s1 s2 s1.length s2.length i1 i2).sz3 ∧
      Replaces s1 s2 i1 last (insertion s1 s2 s1.length s2.length i1 i2) := by
  have hFront : (s1.take i1.toNat).length = i1.toNat := List.length_take_of_le (by omega)
  refine ⟨?_, ?_, fun _ => by rw [hLast]; exact insertion_block hLow hSlice hEnd⟩
  · rw [insertion_inside hLow hSlice hEnd]
    change 0 ≤ i1 + (s2.length : Int) + ((s1.drop (i2 + 1).toNat).length : Int)
    omega
  · intro copy hCopy _
    rw [insertion_inside hLow hSlice hEnd] at hCopy ⊢
    generalize s1.drop (i2 + 1).toNat = behind at hCopy ⊢
    change ((copy.1 + copy.2.length : Nat) : Int) ≤ i1 + (s2.length : Int) + (behind.length : Int)
    rcases List.mem_append.mp hCopy with hFirst | hThird
    · rcases List.mem_cons.mp hFirst with rfl | hSecond
      · rw [hFront]
        omega
      · rw [List.mem_singleton.mp hSecond]
        push_cast
        omega
    · split at hThird
      · rw [List.mem_singleton.mp hThird]
        push_cast
        omega
      · cases hThird

/-- The first two copies reach up to the end of the second one. -/
theorem insertion_reach {s1 s2 : CString} {i1 i2 last : Int} (hLow : 0 ≤ i1) (hEnd : i1 < s1.length)
    (h : Replaces s1 s2 i1 last (insertion s1 s2 s1.length s2.length i1 i2)) :
    i1 + s2.length ≤ max (insertion s1 s2 s1.length s2.length i1 i2).sz3 0 := by
  generalize hResult : insertion s1 s2 s1.length s2.length i1 i2 = result at h ⊢
  have hFront : (s1.take i1.toNat).length = i1.toNat := List.length_take_of_le (by omega)
  have hFirst := h.bounded (0, s1.take i1.toNat) (by simp [← hResult, insertion])
  have hSecond := h.bounded (i1.toNat, s2) (by simp [← hResult, insertion])
  rw [hFront] at hFirst
  cases s2 with
  | nil =>
      rw [List.length_nil]
      cases hTake : s1.take i1.toNat with
      | nil =>
          rw [hTake, List.length_nil] at hFront
          omega
      | cons c rest =>
          have hBound := hFirst (by rw [hTake]; exact List.cons_ne_nil _ _)
          omega
  | cons c rest =>
      have hBound := hSecond (List.cons_ne_nil _ _)
      push_cast at hBound ⊢
      omega

/-- Indices in the wrong order: the size leaves out what stands before the insertion. -/
theorem insertion_reversed {s1 s2 : CString} {i1 i2 last : Int} (hLow : 0 ≤ i2) (hSlice : i2 < i1)
    (hEnd : i1 < s1.length) :
    ¬ Replaces s1 s2 i1 last (insertion s1 s2 s1.length s2.length i1 i2) := by
  intro h
  have hReach := insertion_reach (by omega) hEnd h
  have hSize : (insertion s1 s2 s1.length s2.length i1 i2).sz3 = s2.length := if_pos hSlice
  omega

/-- With the length of the text for the second index the size is one too small. -/
theorem insertion_length {s1 s2 : CString} {i1 last : Int} (hLow : 0 ≤ i1) (hEnd : i1 < s1.length)
    (hSize : 0 ≤ (insertion s1 s2 s1.length s2.length i1 s1.length).sz3) :
    ¬ Replaces s1 s2 i1 last (insertion s1 s2 s1.length s2.length i1 s1.length) := by
  intro h
  have hReach := insertion_reach hLow hEnd h
  have hSz3 : (insertion s1 s2 s1.length s2.length i1 s1.length).sz3 =
      s1.length + i1 - s1.length - 1 + s2.length := if_neg (by omega)
  omega

/-- The index that the call works with, next to the one that is meant. -/
theorem clampIndex_eq (i2 : Int32) (s1 : CString) :
    (clampIndex i2 s1.length = min (sliceEnd i2 s1) (s1.length - 1) ∧ sliceEnd i2 s1 ≠ s1.length) ∨
      clampIndex i2 s1.length = s1.length ∧ sliceEnd i2 s1 = s1.length := by
  unfold clampIndex sliceEnd
  split <;> split <;> omega

/-- An accepted call replaces the slice exactly if the second index is not the length of the text and
not below the first one. -/
theorem naslInsstr_replaces_iff {lexic : Lexic} {s1 s2 : CString} (hFirst : lexic.byNum 0 = some (.str s1))
    (hSecond : lexic.byNum 1 = some (.str s2)) (hAccepted : naslInsstr lexic ≠ .ok none) :
    (∃ result, naslInsstr lexic = .ok (some result) ∧
      Replaces s1 s2 (getIntVarByNum lexic 2 (-1)).toInt
        (sliceEnd (getIntVarByNum lexic 3 (-1)) s1) result) ↔
      sliceEnd (getIntVarByNum lexic 3 (-1)) s1 ≠ s1.length ∧
        (getIntVarByNum lexic 2 (-1)).toInt ≤ sliceEnd (getIntVarByNum lexic 3 (-1)) s1 := by
  have hClamp := clampIndex_eq (getIntVarByNum lexic 3 (-1)) s1
  simp only [naslInsstr, getStrVarByNum, getVarSizeByNum, hFirst, hSecond, var2str, getVarSize]
    at hAccepted ⊢
  generalize (getIntVarByNum lexic 2 (-1)).toInt = i1 at hAccepted ⊢
  generalize sliceEnd (getIntVarByNum lexic 3 (-1)) s1 = last at hClamp ⊢
  generalize clampIndex (getIntVarByNum lexic 3 (-1)) s1.length = i2 at hAccepted hClamp ⊢
  by_cases hNegative : i1 < 0 ∨ i2 < 0
  · exact absurd (if_pos hNegative) hAccepted
  rw [if_neg hNegative] at hAccepted ⊢
  by_cases hBehind : i1 ≥ s1.length
  · exact absurd (if_pos hBehind) hAccepted
  rw [if_neg hBehind]
  constructor
  · rintro ⟨result, hRun, hReplaces⟩
    split at hRun
    · cases hRun
    rename_i hSize
    obtain rfl : insertion s1 s2 s1.length s2.length i1 i2 = result := by simpa using hRun
    have hOrder : i1 ≤ i2 := by
      by_contra hReversed
      exact insertion_reversed (by omega) (by omega) (by omega) hReplaces
    rcases hClamp with ⟨hMin, hNot⟩ | ⟨rfl, hLast⟩
    · exact ⟨hNot, by omega⟩
    · exact absurd hReplaces (insertion_length (by omega) (by omega) (by omega))
  · rintro ⟨hNot, hOrder⟩
    obtain ⟨hSize, hReplaces⟩ := @insertion_replaces s1 s2 i1 i2 last (by omega) (by omega) (by omega) (by
      by_cases hInside : last ≤ s1.length - 1
      · rw [show i2 = last by omega]
      · rw [List.drop_of_length_le (by omega), List.drop_of_length_le (by omega)])
    exact ⟨_, if_neg (by omega), hReplaces⟩

def insstr (s1 s2 : CString) (i1 i2 : Int32) : Lexic where
  ctxVars := [some (.string s1), some (.string s2), some (.int i1), some (.int i2)]
  named _ := none

theorem naslInsstr_replaces_iff_hello :
    (∃ result, naslInsstr (insstr (lit "Hello, world") (lit "C") 7 8) = .ok (some result) ∧
      Replaces (lit "Hello, world") (lit "C") 7 (sliceEnd 8 (lit "Hello, world")) result) ↔
      sliceEnd 8 (lit "Hello, world") ≠ (lit "Hello, world").length ∧
        7 ≤ sliceEnd 8 (lit "Hello, world") :=
  naslInsstr_replaces_iff rfl rfl (fun hNull => by
    have hResult : naslInsstr (insstr (lit "Hello, world") (lit "C") 7 8) =
        .ok (some (insertion (lit "Hello, world") (lit "C") 12 1 7 8)) := rfl
    rw [hResult] at hNull
    cases hNull)

/-- `insstr ("abc", "x", 0, 3)`: a byte is written into a result of size 0. -/
theorem naslInsstr_length_overrun :
    ∃ result, naslInsstr (insstr (lit "abc") (lit "x") 0 3) = .ok (some result) ∧
      ∃ copy ∈ result.copies, result.sz3 < ((copy.1 + copy.2.length : Nat) : Int) :=
  ⟨⟨0, [(0, []), (0, lit "x")]⟩, rfl, (0, lit "x"), by decide, by decide⟩

end Text
