import OpenVAS.Passwords.Basic

/-! What `search_file` finds: the words on the lines that it sees, which are not
all lines of the file. -/
namespace Passwords

open CString Lines Stdio

/-- The lines that the search compares. It leaves out a line that does not fit its buffer, a line
with a zero byte together with the line behind it, and the last line if it is not terminated. -/
def seenLines : Bool → List CString → List CString
  | _, [] => []
  | true, _ :: ls => seenLines false ls
  | false, l :: ls =>
      if 254 ≤ l.length then seenLines false ls
      else if 0 ∈ l then seenLines true ls
      else l :: seenLines false ls

/-- The search sees the word. -/
def Seen (words : Stream) (password : CString) : Prop :=
  ∃ l ∈ seenLines false (lines (ch '\n') words.rest), strcaseeq (chopCr l) password = true

/-- The word is on a line of fewer than 255 characters. -/
def Listed (words : Stream) (password : CString) : Prop :=
  ∃ l ∈ allLines words.rest, l.length < 255 ∧ strcaseeq (chopCr l) password = true

instance (words : Stream) (password : CString) : Decidable (Seen words password) :=
  inferInstanceAs (Decidable (∃ l ∈ _, _))

instance (words : Stream) (password : CString) : Decidable (Listed words password) :=
  inferInstanceAs (Decidable (∃ l ∈ _, _))

theorem mem_of_seenLines {skip : Bool} {ls : List CString} {l : CString}
    (h : l ∈ seenLines skip ls) : l ∈ ls ∧ l.length < 254 := by
  induction ls generalizing skip with
  | nil => cases skip <;> exact (nomatch h)
  | cons m ls ih =>
      cases skip with
      | true => exact ⟨List.mem_cons_of_mem m (ih h).1, (ih h).2⟩
      | false =>
          rw [seenLines] at h
          split at h
          · exact ⟨List.mem_cons_of_mem m (ih h).1, (ih h).2⟩
          · rename_i hFits
            split at h
            · exact ⟨List.mem_cons_of_mem m (ih h).1, (ih h).2⟩
            · rcases List.mem_cons.mp h with rfl | h
              · exact ⟨List.mem_cons_self, Nat.lt_of_not_le hFits⟩
              · exact ⟨List.mem_cons_of_mem m (ih h).1, (ih h).2⟩

/-- Only listed words are seen. -/
theorem Seen.listed {words : Stream} {password : CString} (h : Seen words password) :
    Listed words password := by
  obtain ⟨l, hl, hSame⟩ := h
  obtain ⟨hMem, hShort⟩ := mem_of_seenLines hl
  exact ⟨l, List.mem_append_left _ hMem, by omega, hSame⟩

theorem cText_line {line : CString} (h : (0 : UInt8) ∉ line) :
    cText (line ++ [ch '\n']) = line ++ [ch '\n'] := by
  have hPos : ∀ c ∈ line ++ [ch '\n'], (decide (c ≠ 0)) = true := by
    intro c hc
    rcases List.mem_append.mp hc with hc | hc
    · simpa using fun he : c = 0 => h (he ▸ hc)
    · rw [List.mem_singleton.mp hc]
      decide
  rw [cText, List.takeWhile_eq_self_iff.mpr hPos]

theorem cText_before (before after : List UInt8) : cText (before ++ 0 :: after) <+: before := by
  induction before with
  | nil => exact List.prefix_refl []
  | cons c before ih =>
      rw [cText, List.cons_append, List.takeWhile_cons]
      split
      · exact (List.prefix_cons_inj c).mpr ih
      · exact List.nil_prefix

/-- A text that is cut at a zero byte does not end with the line. -/
theorem cText_getLast {line : CString} (hLine : ch '\n' ∉ line) (hZero : (0 : UInt8) ∈ line) :
    (cText (line ++ [ch '\n'])).getLast? ≠ some (ch '\n') := by
  obtain ⟨before, after, rfl⟩ := List.append_of_mem hZero
  rw [List.append_assoc, List.cons_append]
  intro hLast
  have hMem := (cText_before before (after ++ [ch '\n'])).subset (List.mem_of_getLast? hLast)
  exact hLine (List.mem_append_left _ hMem)

/-- So does a text without the end of the line. -/
theorem cText_getLast_of_not_mem {text : List UInt8} (h : ch '\n' ∉ text) :
    (cText text).getLast? ≠ some (ch '\n') := fun hLast =>
  h ((List.takeWhile_sublist _).subset (List.mem_of_getLast? hLast))

/-! One line of the search. -/

section line

variable {password : CString} {fp : Stream}

theorem searchLoop_none (h : fgets 255 fp = none) :
    searchLoop password fp = if fp.failed then -1 else 0 := by
  rw [searchLoop]
  split
  · rfl
  · rename_i hSome
    exact absurd (h.symm.trans hSome) (by simp)

theorem searchLoop_some {buffer : List UInt8} {next : Stream} (h : fgets 255 fp = some (buffer, next)) :
    searchLoop password fp =
      if cText buffer = [] ∨ (cText buffer).getLast? ≠ some (ch '\n') then
        searchLoop password (eatLine next)
      else if chopCr (cText buffer).dropLast = [] then searchLoop password next
      else if strcaseeq (chopCr (cText buffer).dropLast) password then 1
      else searchLoop password next := by
  rw [searchLoop]
  split
  · rename_i hNone
    exact absurd (h.symm.trans hNone) (by simp)
  · rename_i buffer' next' hSome
    obtain ⟨rfl, rfl⟩ := Prod.mk.inj (Option.some.inj (h.symm.trans hSome))
    rfl

variable {line : CString} (hLine : ch '\n' ∉ line) (rest : List UInt8) (failed : Bool)

include hLine

/-- A line that does not fit is left out. -/
theorem searchLoop_long (h : 254 ≤ line.length) :
    searchLoop password ⟨line ++ ch '\n' :: rest, failed⟩ = searchLoop password ⟨rest, failed⟩ := by
  have hFree : ch '\n' ∉ line.take 254 := fun hMem => hLine (List.mem_of_mem_take hMem)
  have hBehind : ch '\n' ∉ line.drop 254 := fun hMem => hLine (List.mem_of_mem_drop hMem)
  rw [searchLoop_some (fgets_long hLine (by decide) (by omega) rest failed),
    if_pos (Or.inr (cText_getLast_of_not_mem hFree)), eatLine_line hBehind]

/-- A line with a zero byte takes the next one with it. -/
theorem searchLoop_zero (h : line.length < 254) (hZero : (0 : UInt8) ∈ line) :
    searchLoop password ⟨line ++ ch '\n' :: rest, failed⟩ =
      searchLoop password (eatLine ⟨rest, failed⟩) := by
  rw [searchLoop_some (fgets_line hLine (by omega) rest failed),
    if_pos (Or.inr (cText_getLast hLine hZero))]

/-- Any other line is compared; the empty password is none. -/
theorem searchLoop_word (h : line.length < 254) (hZero : (0 : UInt8) ∉ line) (hSome : password ≠ []) :
    searchLoop password ⟨line ++ ch '\n' :: rest, failed⟩ =
      if strcaseeq (chopCr line) password then 1 else searchLoop password ⟨rest, failed⟩ := by
  rw [searchLoop_some (fgets_line hLine (by omega) rest failed), cText_line hZero,
    if_neg (by simp), List.dropLast_concat]
  split
  · rename_i hEmpty
    have hDifferent : strcaseeq (chopCr line) password = false := by
      rw [hEmpty, strcaseeq]
      simpa using hSome
    rw [hDifferent]
    rfl
  · rfl

end line

/-- The search, over the lines that it sees. -/
theorem searchLoop_lines {password : CString} (hSome : password ≠ []) {ls : List CString}
    (hLines : ∀ l ∈ ls, ch '\n' ∉ l) {last : CString} (hLast : ch '\n' ∉ last) (failed : Bool) :
    (searchLoop password ⟨unlines (ch '\n') ls ++ last, failed⟩ =
      if ∃ l ∈ seenLines false ls, strcaseeq (chopCr l) password = true then 1
      else if failed then -1 else 0) ∧
    searchLoop password (eatLine ⟨unlines (ch '\n') ls ++ last, failed⟩) =
      if ∃ l ∈ seenLines true ls, strcaseeq (chopCr l) password = true then 1
      else if failed then -1 else 0 := by
  have hEnd : searchLoop password ⟨[], failed⟩ = if failed then -1 else 0 :=
    searchLoop_none (fgets_nil 255 failed)
  induction ls with
  | nil =>
      have hNone (skip : Bool) : ¬ ∃ l ∈ seenLines skip [], strcaseeq (chopCr l) password = true := by
        cases skip <;> exact fun h => nomatch h.choose_spec.1
      rw [if_neg (hNone false), if_neg (hNone true)]
      constructor
      · rw [unlines_nil, List.nil_append]
        by_cases hNil : last = []
        · rw [hNil, hEnd]
        · by_cases hStop : failed = true ∧ last.length < 254
          · rw [hStop.1]
            exact searchLoop_none (fgets_failed hLast hStop.2)
          · have hRead : failed = false ∨ 255 - 1 ≤ last.length := by
              cases failed with
              | false => exact Or.inl rfl
              | true => exact Or.inr (Nat.le_of_not_lt fun hShort => hStop ⟨rfl, hShort⟩)
            have hFree : ch '\n' ∉ last.take (255 - 1) := fun hMem => hLast (List.mem_of_mem_take hMem)
            have hBehind : ch '\n' ∉ last.drop (255 - 1) := fun hMem =>
              hLast (List.mem_of_mem_drop hMem)
            rw [searchLoop_some (fgets_last hLast hNil (by decide) hRead),
              if_pos (Or.inr (cText_getLast_of_not_mem hFree)), eatLine_last hBehind, hEnd]
      · rw [unlines_nil, List.nil_append, eatLine_last hLast, hEnd]
  | cons l ls ih =>
      obtain ⟨hNext, hSkipped⟩ := ih fun m hm => hLines m (List.mem_cons_of_mem l hm)
      have hLine := hLines l List.mem_cons_self
      rw [unlines_cons, List.append_assoc, List.cons_append]
      constructor
      · by_cases hLong : 254 ≤ l.length
        · rw [searchLoop_long hLine _ _ hLong, hNext, seenLines, if_pos hLong]
        · by_cases hZero : (0 : UInt8) ∈ l
          · rw [searchLoop_zero hLine _ _ (Nat.lt_of_not_le hLong) hZero, hSkipped, seenLines,
              if_neg hLong, if_pos hZero]
          · rw [searchLoop_word hLine _ _ (Nat.lt_of_not_le hLong) hZero hSome, hNext, seenLines,
              if_neg hLong, if_neg hZero]
            by_cases hSame : strcaseeq (chopCr l) password = true
            · rw [if_pos hSame, if_pos ⟨l, List.mem_cons_self, hSame⟩]
            · rw [if_neg hSame]
              refine if_congr ?_ rfl rfl
              simp [hSame]
      · rw [eatLine_line hLine, hNext]
        rfl

/-- The search succeeds on the words that it sees, and fails on a read error behind them. -/
theorem searchLoop_eq {password : CString} (hSome : password ≠ []) (words : Stream) :
    searchLoop password words =
      if Seen words password then 1 else if words.failed then -1 else 0 := by
  obtain ⟨text, failed⟩ := words
  obtain ⟨ls, last, hLines, hLast, rfl⟩ := exists_lines text
  have hSeen : Seen ⟨unlines (ch '\n') ls ++ last, failed⟩ password ↔
      ∃ l ∈ seenLines false ls, strcaseeq (chopCr l) password = true := by
    rw [Seen, lines_append hLines hLast]
  rw [(searchLoop_lines hSome hLines hLast failed).1]
  exact if_congr hSeen.symm rfl rfl

/-- A search that ends with a hit or in an error. -/
theorem searchFile_ne_zero_iff (env : Env) (fname : CString) {password : CString}
    (hSome : password ≠ []) :
    searchFile env fname password ≠ 0 ↔
      ∀ words, env.fopen fname = some words → words.failed = true ∨ Seen words password := by
  rw [searchFile]
  cases env.fopen fname with
  | none => simp
  | some words =>
      dsimp only
      rw [searchLoop_eq hSome]
      by_cases hSeen : Seen words password
      · simp [hSeen]
      · cases hFailed : words.failed <;> simp [hSeen, hFailed]

end Passwords
