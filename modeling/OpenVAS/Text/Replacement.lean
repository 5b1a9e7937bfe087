import OpenVAS.Text.Basic

/-! `str_replace`. The sizes are numbers without an upper end, where the source has `int`. -/
namespace Text

open CString Packets CMemory

/-- What the loop has at the head of a round. -/
structure Replacement where
  s : Buffer
  i1 : Nat
  i2 : Nat
  sz2 : Nat
  n : Nat

/-- Bytes are copied behind the others, if there are any; `none` is a write outside of the buffer. -/
def copyIf (s : Buffer) (i2 : Nat) (src : CString) (size : Nat) : Option (Buffer × Nat) :=
  if 0 < size then (memcpy s i2 (src.take size)).map fun s => (s, i2 + size) else some (s, i2)

/-- One occurrence, `l` bytes from where the search starts. -/
def replaceOnce (a r : CString) (szB szR l : Nat) (st : Replacement) : Option Replacement := do
  let sz2 := st.sz2 + (szR + l)
  let s := (erealloc st.s (sz2 + 1)).set sz2 (some 0)
  let (s, i2) ← copyIf s st.i2 (a.drop st.i1) l
  let (s, i2) ← copyIf s i2 r szR
  return ⟨s, st.i1 + (l + szB), i2, sz2, st.n + 1⟩

/-- The loop; `none` is also a run that does not end. -/
def replaceLoop (a b r : CString) (szA szB szR : Nat) (count : Int32) :
    Nat → Replacement → Option Replacement
  | 0, _ => none
  | fuel + 1, st =>
      if (st.i1 : Int) ≤ szA - szB then
        match memmem ((a.take szA).drop st.i1) (b.take szB) with
        | none => some st
        | some l => do
            let st ← replaceOnce a r szB szR l st
            if 0 < count ∧ count.toInt ≤ st.n then some st
            else replaceLoop a b r szA szB szR count fuel st
      else some st

/-- The text and its size; `some none` is NULL. -/
def naslStrReplace (fuel : Nat) (lexic : Lexic) : Option (Option (Buffer × Nat)) :=
  let szA := getLocalVarSizeByName lexic "string"
  let szB := getLocalVarSizeByName lexic "find"
  let count := getIntLocalVarByName lexic "count" 0
  match getStrLocalVarByName lexic "string", getStrLocalVarByName lexic "find" with
  | some a, some b =>
      if szB = 0 then some none
      else
        let (r, szR) :=
          match getStrLocalVarByName lexic "replace" with
          | some r => (r, getLocalVarSizeByName lexic "replace")
          | none => ([], 0)
        do
          let st ← replaceLoop a b r szA szB szR count fuel ⟨emalloc 1, 0, 0, 0, 0⟩
          if st.i1 < szA then do
            let sz2 := st.sz2 + (szA - st.i1)
            let s := (erealloc st.s (sz2 + 1)).set sz2 (some 0)
            let s ← memcpy s st.i2 ((a.take szA).drop st.i1)
            return some (s, sz2)
          else return some (st.s, st.sz2)
  | _, _ => some none

/-! What is to come out. -/

/-- From left to right, each occurrence is replaced and the search goes on behind it, as often as the
limit allows. -/
def replaced (b r : CString) (limit : Option Nat) : CString → CString
  | [] => []
  | c :: rest =>
      if limit = some 0 then c :: rest
      else if b ≠ [] ∧ b <+: c :: rest then
        r ++ replaced b r (limit.map (· - 1)) ((c :: rest).drop b.length)
      else c :: replaced b r limit rest
termination_by a => a.length
decreasing_by
  · rename_i h
    have hLength := List.length_pos_iff.mpr h.1
    simp only [List.length_drop, List.length_cons]
    omega
  · simp

theorem replaced_zero (b r a : CString) : replaced b r (some 0) a = a := by
  cases a with
  | nil => rw [replaced]
  | cons c rest => rw [replaced, if_pos rfl]

/-- Without an occurrence nothing is replaced. -/
theorem replaced_of_none {a b : CString} (r : CString) (limit : Option Nat) (h : memmem a b = none) :
    replaced b r limit a = a := by
  induction a with
  | nil => rw [replaced]
  | cons c rest ih =>
      rw [memmem, strstr] at h
      split at h
      · cases h
      · rename_i hNot
        rw [List.isPrefixOf_iff_prefix] at hNot
        have hRest := ih (Option.map_eq_none_iff.mp h)
        rw [replaced, hRest]
        simp [hNot]

/-- The first occurrence is replaced, and then what is behind it. -/
theorem replaced_of_some {a b : CString} (r : CString) {limit : Option Nat} (hLimit : limit ≠ some 0)
    (hFind : b ≠ []) {l : Nat} (h : memmem a b = some l) :
    replaced b r limit a =
      a.take l ++ r ++ replaced b r (limit.map (· - 1)) (a.drop (l + b.length)) := by
  induction a generalizing l with
  | nil => simp [memmem, strstr, hFind] at h
  | cons c rest ih =>
      rw [memmem, strstr] at h
      split at h
      · rename_i hPrefix
        rw [List.isPrefixOf_iff_prefix] at hPrefix
        obtain rfl : 0 = l := by simpa using h
        rw [replaced, if_neg hLimit, if_pos ⟨hFind, hPrefix⟩]
        simp
      · rename_i hNot
        rw [List.isPrefixOf_iff_prefix] at hNot
        obtain ⟨l, hl, rfl⟩ := Option.map_eq_some_iff.mp h
        rw [replaced, if_neg hLimit, if_neg (fun hBoth => hNot hBoth.2), ih hl, Nat.add_right_comm,
          List.take_succ_cons, List.drop_succ_cons, List.cons_append, List.cons_append]

/-! The loop. -/

/-- Both offsets are the number of the bytes that have been written. -/
structure Replacement.Written (st : Replacement) (out : CString) : Prop where
  i2 : st.i2 = out.length
  sz2 : st.sz2 = out.length
  holds : st.s.Holds out

theorem copyIf_holds {buf : Buffer} {out : CString} (h : buf.Holds out) {src : CString} {size : Nat}
    (hSize : size ≤ src.length) (hRoom : out.length + size ≤ buf.length) :
    ∃ buf', copyIf buf out.length src size = some (buf', (out ++ src.take size).length) ∧
      buf'.length = buf.length ∧ buf'.Holds (out ++ src.take size) := by
  have hLength : (src.take size).length = size := List.length_take_of_le hSize
  unfold copyIf
  split
  · obtain ⟨buf', hCopy, hSame, hHolds⟩ := @Buffer.Holds.memcpy _ _ h (src.take size) (by omega)
    exact ⟨buf', by rw [hCopy, List.length_append, hLength]; rfl, hSame, hHolds⟩
  · have hNil : src.take size = [] := List.eq_nil_of_length_eq_zero (by omega)
    rw [hNil, List.append_nil]
    exact ⟨buf, rfl, rfl, h⟩

theorem replaceOnce_written {a r : CString} {szB l : Nat} {st : Replacement} {out : CString}
    (h : st.Written out) (hEnd : st.i1 + l ≤ a.length) :
    ∃ st', replaceOnce a r szB r.length l st = some st' ∧ st'.i1 = st.i1 + (l + szB) ∧
      st'.n = st.n + 1 ∧ st'.Written (out ++ (a.drop st.i1).take l ++ r) := by
  have hFront : ((a.drop st.i1).take l).length = l := by
    rw [List.length_take, List.length_drop]
    omega
  obtain ⟨hLength, hGrown⟩ := @holds_grown _ _ h.holds (st.sz2 + (r.length + l)) (by rw [h.sz2]; omega)
  obtain ⟨buf, hCopy, hSame, hHolds⟩ := @copyIf_holds _ _ hGrown (a.drop st.i1) l
    (by rw [List.length_drop]; omega) (by rw [hLength, h.sz2]; omega)
  obtain ⟨buf', hCopy', _, hHolds'⟩ := copyIf_holds hHolds (Nat.le_refl r.length) (by
    rw [hSame, hLength, List.length_append, hFront, h.sz2]
    omega)
  rw [List.take_length] at hCopy' hHolds'
  refine ⟨⟨buf', st.i1 + (l + szB), (out ++ (a.drop st.i1).take l ++ r).length,
    st.sz2 + (r.length + l), st.n + 1⟩, ?_, rfl, rfl, rfl, ?_, hHolds'⟩
  · simp only [replaceOnce, h.i2, hCopy, Option.bind_eq_bind, Option.bind_some, hCopy', Option.pure_def]
  · change st.sz2 + (r.length + l) = _
    rw [List.length_append, List.length_append, hFront, h.sz2]
    omega

/-- How often the rest of the text may be searched with success. -/
def remaining (count : Int32) (n : Nat) : Option Nat :=
  if 0 < count then some (count.toInt.toNat - n) else none

theorem replaceLoop_written {a b r : CString} (hFind : b ≠ []) {count : Int32} {fuel : Nat}
    {st : Replacement} {out : CString} (h : st.Written out) (hEnd : st.i1 ≤ a.length)
    (hCount : 0 < count → st.n < count.toInt.toNat) (hFuel : a.length - st.i1 < fuel) :
    ∃ st' out', replaceLoop a b r a.length b.length r.length count fuel st = some st' ∧
      st'.Written out' ∧ st'.i1 ≤ a.length ∧
      out' ++ a.drop st'.i1 = out ++ replaced b r (remaining count st.n) (a.drop st.i1) := by
  induction fuel generalizing st out with
  | zero => omega
  | succ fuel ih =>
      have hLimit : remaining count st.n ≠ some 0 := by
        unfold remaining
        split
        · rename_i hPos
          have hLess := hCount hPos
          simp only [ne_eq, Option.some.injEq]
          omega
        · simp
      have hLength := List.length_pos_iff.mpr hFind
      rw [replaceLoop, List.take_length, List.take_length]
      split
      · cases hFirst : memmem (a.drop st.i1) b with
        | none => exact ⟨st, out, rfl, h, hEnd, by rw [replaced_of_none r _ hFirst]⟩
        | some l =>
            have hInside := strstr_end hFirst
            rw [List.length_drop] at hInside
            obtain ⟨st', hOnce, hI1, hN, hWritten⟩ :=
              @replaceOnce_written a r b.length l st out h (by omega)
            have hStep := replaced_of_some r hLimit hFind hFirst
            rw [List.drop_drop] at hStep
            simp only [hOnce, Option.bind_eq_bind, Option.bind_some]
            split
            · rename_i hStop
              have hLess := hCount hStop.1
              have hZero : (remaining count st.n).map (· - 1) = some 0 := by
                simp only [remaining, if_pos hStop.1, Option.map_some, Option.some.injEq]
                omega
              refine ⟨st', _, rfl, hWritten, by omega, ?_⟩
              rw [hStep, hZero, replaced_zero, hI1]
              simp only [List.append_assoc]
            · rename_i hGoOn
              have hNext : (remaining count st.n).map (· - 1) = remaining count st'.n := by
                unfold remaining
                split
                · simp only [Option.map_some, Option.some.injEq]
                  omega
                · rfl
              obtain ⟨st'', out'', hLoop, hWritten'', hEnd'', hAll⟩ := ih hWritten (by omega)
                (by
                  intro hPos
                  have hLess := hCount hPos
                  have hSmall : ¬ count.toInt ≤ st'.n := fun hLe => hGoOn ⟨hPos, hLe⟩
                  omega)
                (by omega)
              refine ⟨st'', out'', hLoop, hWritten'', hEnd'', ?_⟩
              rw [hAll, hStep, hNext, hI1]
              simp only [List.append_assoc]
      · rename_i hShort
        have hNone : memmem (a.drop st.i1) b = none := by
          cases hFirst : memmem (a.drop st.i1) b with
          | none => rfl
          | some l =>
              have hInside := strstr_end hFirst
              rw [List.length_drop] at hInside
              omega
        exact ⟨st, out, rfl, h, hEnd, by rw [replaced_of_none r _ hNone]⟩

/-- The result is the text with its occurrences replaced, and the size is the number of its bytes. -/
theorem naslStrReplace_eq {lexic : Lexic} {a b r : CString} (hString : lexic.byName "string" = some (.str a))
    (hFind : lexic.byName "find" = some (.str b)) (hReplace : lexic.byName "replace" = some (.str r))
    (hNonempty : b ≠ []) {fuel : Nat} (hFuel : a.length < fuel) :
    ∃ s size, naslStrReplace fuel lexic = some (some (s, size)) ∧
      size = (replaced b r (remaining (getIntLocalVarByName lexic "count" 0) 0) a).length ∧
      s.take size =
        (replaced b r (remaining (getIntLocalVarByName lexic "count" 0) 0) a).map some := by
  have hSize : b.length ≠ 0 := fun hZero => hNonempty (List.eq_nil_of_length_eq_zero hZero)
  have hStart : Replacement.Written ⟨emalloc 1, 0, 0, 0, 0⟩ [] := ⟨rfl, rfl, Buffer.holds_nil _⟩
  generalize hCount : getIntLocalVarByName lexic "count" 0 = count
  obtain ⟨st, out, hLoop, hWritten, hEnd, hAll⟩ :=
    @replaceLoop_written a b r hNonempty count fuel _ _ hStart (Nat.zero_le _)
      (fun hPos => by
        have hInt := Int32.lt_iff_toInt_lt.mp hPos
        change 0 < count.toInt.toNat
        rw [show (0 : Int32).toInt = 0 from rfl] at hInt
        omega)
      (by simpa using hFuel)
  rw [List.nil_append, List.drop_zero] at hAll
  have hRun : naslStrReplace fuel lexic = (if st.i1 < a.length then do
      let s ← memcpy ((erealloc st.s (st.sz2 + (a.length - st.i1) + 1)).set
        (st.sz2 + (a.length - st.i1)) (some 0)) st.i2 ((a.take a.length).drop st.i1)
      return some (s, st.sz2 + (a.length - st.i1))
    else return some (st.s, st.sz2)) := by
    simp only [naslStrReplace, getStrLocalVarByName, getLocalVarSizeByName, hString, hFind, hReplace,
      var2str, getVarSize, if_neg hSize, hCount, hLoop, Option.bind_eq_bind, Option.bind_some]
  rw [hRun, ← hAll]
  split
  · obtain ⟨hLength, hGrown⟩ :=
      @holds_grown _ _ hWritten.holds (st.sz2 + (a.length - st.i1)) (by rw [hWritten.sz2]; omega)
    obtain ⟨buf, hCopy, _, hHolds⟩ := @Buffer.Holds.memcpy _ _ hGrown (a.drop st.i1) (by
      rw [hLength, List.length_drop, hWritten.sz2]
      omega)
    have hSz2 : st.sz2 + (a.length - st.i1) = (out ++ a.drop st.i1).length := by
      rw [List.length_append, List.length_drop, hWritten.sz2]
    refine ⟨buf, st.sz2 + (a.length - st.i1), ?_, hSz2, ?_⟩
    · rw [List.take_length, hWritten.i2, hCopy]
      rfl
    · rw [hSz2, hHolds.content]
  · rw [List.drop_of_length_le (by omega), List.append_nil]
    exact ⟨st.s, st.sz2, rfl, hWritten.sz2, by rw [hWritten.sz2, hWritten.holds.content]⟩

/-- `str_replace (string: "aXbXX", find: "X", replace: "--", count: 2)`. -/
def replaceTwo : Lexic where
  ctxVars := []
  named name :=
    if name = "string" then some (.string (lit "aXbXX"))
    else if name = "find" then some (.string (lit "X"))
    else if name = "replace" then some (.data (lit "--"))
    else if name = "count" then some (.int 2)
    else none

theorem naslStrReplace_eq_two :
    ∃ s size, naslStrReplace 6 replaceTwo = some (some (s, size)) ∧
      size = (replaced (lit "X") (lit "--") (remaining 2 0) (lit "aXbXX")).length ∧
      s.take size = (replaced (lit "X") (lit "--") (remaining 2 0) (lit "aXbXX")).map some :=
  naslStrReplace_eq rfl rfl rfl (by decide) (by decide)

example : naslStrReplace 6 replaceTwo = some (some ((lit "a--b--X").map some ++ [some 0], 7)) := by
  decide +kernel

end Text
