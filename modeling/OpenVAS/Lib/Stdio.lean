import OpenVAS.Lib.Lines

/-! Reading a file line by line with `fgets`. A file is the bytes that are left to
read, and whether a read error follows them. -/
namespace Stdio

open CString Lines

structure Stream where
  rest : List UInt8
  failed : Bool
  deriving DecidableEq

/-- At most `n` bytes, the first line end being the last of them. -/
def chunk : Nat → List UInt8 → List UInt8
  | 0, _ => []
  | _ + 1, [] => []
  | n + 1, c :: rest => if c = ch '\n' then [c] else c :: chunk n rest

/-- What `fgets` stores in a buffer of `size` bytes, before the zero byte, and the
file behind it; `none` at the end of the file, and when reading fails. -/
def fgets (size : Nat) (fp : Stream) : Option (List UInt8 × Stream) :=
  let line := chunk (size - 1) fp.rest
  if line = [] then none
  else if fp.failed ∧ line.length < size - 1 ∧ line.getLast? ≠ some (ch '\n') then none
  else some (line, { fp with rest := fp.rest.drop line.length })

/-- The loop that calls `getc` until the end of the line. -/
def eatLine (fp : Stream) : Stream :=
  { fp with rest := (fp.rest.dropWhile (· ≠ ch '\n')).drop 1 }

/-- The text in a buffer, up to its first zero byte. -/
def cText (buffer : List UInt8) : CString := buffer.takeWhile (· ≠ 0)

/-- What is behind the last line end of a text. -/
def lastLine (text : List UInt8) : List UInt8 := (text.reverse.takeWhile (· ≠ ch '\n')).reverse

/-- The lines of a text, the last one being terminated or not. -/
def allLines (text : List UInt8) : List (List UInt8) :=
  lines (ch '\n') text ++ if lastLine text = [] then [] else [lastLine text]

/-- A line that is read leaves less to read. -/
theorem fgets_lt {size : Nat} {fp next : Stream} {line : List UInt8}
    (h : fgets size fp = some (line, next)) : next.rest.length < fp.rest.length := by
  rw [fgets] at h
  split at h
  · exact absurd h (by simp)
  · rename_i hSome
    split at h
    · exact absurd h (by simp)
    · obtain ⟨rfl, rfl⟩ := Prod.mk.inj (Option.some.inj h)
      have hChunk : 0 < (chunk (size - 1) fp.rest).length := List.length_pos_iff.mpr hSome
      have hRest : fp.rest ≠ [] := by
        intro hNil
        rw [hNil] at hSome
        exact hSome (by cases size - 1 <;> rfl)
      have hLength := List.length_pos_iff.mpr hRest
      rw [List.length_drop]
      omega

theorem eatLine_le (fp : Stream) : (eatLine fp).rest.length ≤ fp.rest.length := by
  have hTail : (eatLine fp).rest.length ≤ (fp.rest.dropWhile (· ≠ ch '\n')).length := by
    rw [eatLine, List.length_drop]
    omega
  exact le_trans hTail (List.dropWhile_sublist _).length_le

/-! One line. -/

theorem chunk_line {line : List UInt8} (hLine : ch '\n' ∉ line) {n : Nat} (h : line.length < n)
    (rest : List UInt8) : chunk n (line ++ ch '\n' :: rest) = line ++ [ch '\n'] := by
  induction line generalizing n with
  | nil =>
      cases n with
      | zero => exact absurd h (Nat.not_lt_zero _)
      | succ n => rfl
  | cons c line ih =>
      cases n with
      | zero => exact absurd h (Nat.not_lt_zero _)
      | succ n =>
          have hc : c ≠ ch '\n' := fun he => hLine (he ▸ List.mem_cons_self)
          have hRest := @ih (fun hl => hLine (List.mem_cons_of_mem c hl)) n (Nat.lt_of_succ_lt_succ h)
          rw [List.cons_append, chunk, if_neg hc, hRest]
          rfl

/-- Without a line end in reach there are as many bytes as fit. -/
theorem chunk_take {n : Nat} {text : List UInt8} (h : ch '\n' ∉ text.take n) :
    chunk n text = text.take n := by
  induction n generalizing text with
  | zero => rfl
  | succ n ih =>
      cases text with
      | nil => rfl
      | cons c text =>
          rw [List.take_succ_cons, List.mem_cons, not_or] at h
          rw [chunk, if_neg (Ne.symm h.1), ih h.2, List.take_succ_cons]

theorem fgets_line {line : List UInt8} (hLine : ch '\n' ∉ line) {size : Nat}
    (h : line.length + 1 < size) (rest : List UInt8) (failed : Bool) :
    fgets size ⟨line ++ ch '\n' :: rest, failed⟩ = some (line ++ [ch '\n'], ⟨rest, failed⟩) := by
  rw [fgets]
  dsimp only
  rw [chunk_line hLine (by omega), if_neg (by simp), if_neg (by simp)]
  simp

/-- A line that does not fit is cut. -/
theorem fgets_long {line : List UInt8} (hLine : ch '\n' ∉ line) {size : Nat} (hSize : 1 < size)
    (h : size ≤ line.length + 1) (rest : List UInt8) (failed : Bool) :
    fgets size ⟨line ++ ch '\n' :: rest, failed⟩ =
      some (line.take (size - 1), ⟨line.drop (size - 1) ++ ch '\n' :: rest, failed⟩) := by
  have hTake : (line ++ ch '\n' :: rest).take (size - 1) = line.take (size - 1) :=
    List.take_append_of_le_length (by omega)
  have hLength : (line.take (size - 1)).length = size - 1 := by
    rw [List.length_take]
    omega
  have hChunk : chunk (size - 1) (line ++ ch '\n' :: rest) = line.take (size - 1) := by
    rw [chunk_take, hTake]
    rw [hTake]
    exact fun hMem => hLine (List.mem_of_mem_take hMem)
  have hSome : line.take (size - 1) ≠ [] := by
    intro hNil
    rw [hNil] at hLength
    simp at hLength
    omega
  rw [fgets]
  dsimp only
  rw [hChunk, if_neg hSome, if_neg (by rw [hLength]; omega), hLength,
    List.drop_append_of_le_length (by omega)]

/-- Nothing is read at the end of the file. -/
theorem fgets_nil (size : Nat) (failed : Bool) : fgets size ⟨[], failed⟩ = none := by
  rw [fgets]
  cases size - 1 <;> rfl

/-- Nothing is read from a last line that cannot be read to its end. -/
theorem fgets_failed {line : List UInt8} (hLine : ch '\n' ∉ line) {size : Nat}
    (h : line.length < size - 1) : fgets size ⟨line, true⟩ = none := by
  have hChunk : chunk (size - 1) line = line := by
    rw [chunk_take] <;> rw [List.take_of_length_le (by omega)]
    exact hLine
  rw [fgets]
  dsimp only
  rw [hChunk]
  split
  · rfl
  · rw [if_pos]
    refine ⟨rfl, h, fun hLast => hLine (List.mem_of_getLast? hLast)⟩

/-- A last line without a line end is read as far as it fits. -/
theorem fgets_last {line : List UInt8} (hLine : ch '\n' ∉ line) (hSome : line ≠ []) {size : Nat}
    (hSize : 1 < size) {failed : Bool} (h : failed = false ∨ size - 1 ≤ line.length) :
    fgets size ⟨line, failed⟩ = some (line.take (size - 1), ⟨line.drop (size - 1), failed⟩) := by
  have hChunk : chunk (size - 1) line = line.take (size - 1) :=
    chunk_take fun hMem => hLine (List.mem_of_mem_take hMem)
  have hNot : ¬ line.take (size - 1) = [] := by
    rw [List.take_eq_nil_iff]
    exact not_or.mpr ⟨by omega, hSome⟩
  rw [fgets]
  dsimp only
  rw [hChunk, if_neg hNot, if_neg]
  · rw [List.length_take]
    rcases Nat.le_total (size - 1) line.length with hLe | hLe
    · rw [Nat.min_eq_left hLe]
    · rw [Nat.min_eq_right hLe, List.drop_eq_nil_of_le hLe, List.drop_eq_nil_of_le (le_refl _)]
  · rintro ⟨hFailed, hShort, _⟩
    rw [List.length_take] at hShort
    rcases h with h | h
    · rw [h] at hFailed
      exact absurd hFailed Bool.false_ne_true
    · omega

theorem eatLine_line {line : List UInt8} (hLine : ch '\n' ∉ line) (rest : List UInt8) (failed : Bool) :
    eatLine ⟨line ++ ch '\n' :: rest, failed⟩ = ⟨rest, failed⟩ := by
  rw [eatLine]
  dsimp only
  rw [List.dropWhile_append_of_pos]
  · simp
  · intro c hc
    simpa using fun he : c = ch '\n' => hLine (he ▸ hc)

theorem eatLine_last {line : List UInt8} (hLine : ch '\n' ∉ line) (failed : Bool) :
    eatLine ⟨line, failed⟩ = ⟨[], failed⟩ := by
  rw [eatLine]
  dsimp only
  rw [List.dropWhile_eq_nil_iff.mpr]
  · rfl
  · intro c hc
    simpa using fun he : c = ch '\n' => hLine (he ▸ hc)

/-! The lines of a file. -/

theorem linesFrom_free {last : List UInt8} (h : ch '\n' ∉ last) (line : List UInt8) :
    linesFrom (ch '\n') line last = [] := by
  induction last generalizing line with
  | nil => rfl
  | cons c last ih =>
      have hc : c ≠ ch '\n' := fun he => h (he ▸ List.mem_cons_self)
      rw [linesFrom, if_neg hc, ih fun hl => h (List.mem_cons_of_mem c hl)]

theorem lines_append {ls : List (List UInt8)} (hLines : ∀ l ∈ ls, ch '\n' ∉ l) {last : List UInt8}
    (hLast : ch '\n' ∉ last) : lines (ch '\n') (unlines (ch '\n') ls ++ last) = ls := by
  induction ls with
  | nil => exact linesFrom_free hLast []
  | cons l ls ih =>
      rw [unlines_cons, List.append_assoc, List.cons_append, lines,
        linesFrom_append [] (hLines l List.mem_cons_self),
        ih fun m hm => hLines m (List.mem_cons_of_mem l hm)]
      rfl

theorem lastLine_append (ls : List (List UInt8)) {last : List UInt8} (hLast : ch '\n' ∉ last) :
    lastLine (unlines (ch '\n') ls ++ last) = last := by
  have hFree : ∀ c ∈ last.reverse, (decide (c ≠ ch '\n')) = true := by
    intro c hc
    rw [List.mem_reverse] at hc
    simpa using fun he : c = ch '\n' => hLast (he ▸ hc)
  rw [lastLine, List.reverse_append, List.takeWhile_append_of_pos hFree]
  rcases List.eq_nil_or_concat ls with rfl | ⟨front, l, rfl⟩
  · simp
  · rw [List.concat_eq_append, unlines_append, unlines_cons]
    simp

/-- Every text is made of terminated lines and a last one. -/
theorem exists_lines (text : List UInt8) :
    ∃ ls last, (∀ l ∈ ls, ch '\n' ∉ l) ∧ ch '\n' ∉ last ∧ text = unlines (ch '\n') ls ++ last := by
  induction text with
  | nil => exact ⟨[], [], by simp, by simp, rfl⟩
  | cons c text ih =>
      obtain ⟨ls, last, hLines, hLast, rfl⟩ := ih
      by_cases hc : c = ch '\n'
      · refine ⟨[] :: ls, last, ?_, hLast, ?_⟩
        · intro l hl
          rcases List.mem_cons.mp hl with rfl | hl
          · simp
          · exact hLines l hl
        · rw [unlines_cons, hc]
          rfl
      · cases ls with
        | nil => exact ⟨[], c :: last, by simp, by simp [Ne.symm hc, hLast], rfl⟩
        | cons l ls =>
            refine ⟨(c :: l) :: ls, last, ?_, hLast, ?_⟩
            · intro m hm
              rcases List.mem_cons.mp hm with rfl | hm
              · simpa [Ne.symm hc] using hLines l List.mem_cons_self
              · exact hLines m (List.mem_cons_of_mem l hm)
            · rw [unlines_cons, unlines_cons]
              rfl

end Stdio
