import OpenVAS.KnowledgeBase.Save

/-! What a write leaves of the lines that are in the file. The line that is cut out
is the one in which the searched text first occurs, whatever its key is. -/
namespace KnowledgeBase

open CString Lines

theorem lineStart_succ (buf : CString) (t : Nat) : lineStart buf (t + 1) =
    if buf[t + 1]? = some (ch '\n') then t + 2 else lineStart buf t := rfl

theorem lineStart_inside {l : CString} (h : ch '\n' ∉ l) (rest : CString) {t : Nat}
    (ht : t < l.length) : lineStart (l ++ ch '\n' :: rest) t = 0 := by
  have hByte : ∀ t < l.length, (l ++ ch '\n' :: rest)[t]? ≠ some (ch '\n') := by
    intro t ht hEq
    rw [List.getElem?_append_left ht] at hEq
    exact h (List.mem_of_getElem? hEq)
  induction t with
  | zero => rw [lineStart, if_neg (hByte 0 ht)]
  | succ t ih => rw [lineStart, if_neg (hByte (t + 1) ht), ih (by omega)]

theorem lineStart_terminator (l rest : CString) :
    lineStart (l ++ ch '\n' :: rest) l.length = l.length + 1 := by
  cases l with
  | nil => simp [lineStart]
  | cons c l => simp [lineStart]

theorem lineStart_behind (l rest : CString) (t : Nat) :
    lineStart (l ++ ch '\n' :: rest) (l.length + 1 + t) = l.length + 1 + lineStart rest t := by
  have hByte (t : Nat) : (l ++ ch '\n' :: rest)[l.length + 1 + t]? = rest[t]? := by
    rw [List.getElem?_append_right (by omega)]
    simp [show l.length + 1 + t - l.length = t + 1 by omega]
  induction t with
  | zero =>
      have hZero := hByte 0
      rw [Nat.add_zero] at hZero ⊢
      rw [lineStart_succ, hZero, lineStart]
      split
      · rfl
      · rw [lineStart_terminator]
  | succ t ih =>
      have hSucc := hByte (t + 1)
      rw [← Nat.add_assoc] at hSucc ⊢
      rw [lineStart_succ, hSucc, lineStart_succ]
      split
      · omega
      · exact ih

theorem cutFrom_zero {ls : List CString} (h : ∀ l ∈ ls, ch '\n' ∉ l) :
    cutFrom (unlines (ch '\n') ls) 0 = unlines (ch '\n') ls.tail := by
  cases ls with
  | nil => rfl
  | cons l ls =>
      rw [unlines_cons, cutFrom, List.drop_zero, strchr_append_cons (h l (by simp))]
      simp

theorem cutFrom_behind (l rest : CString) (start : Nat) :
    cutFrom (l ++ ch '\n' :: rest) (l.length + 1 + start) = l ++ ch '\n' :: cutFrom rest start := by
  have hDrop (k : Nat) : (l ++ ch '\n' :: rest).drop (l.length + 1 + k) = rest.drop k := by
    rw [show l.length + 1 + k = l.length + (k + 1) by omega, List.drop_append]
    simp
  have hTake : (l ++ ch '\n' :: rest).take (l.length + 1 + start) =
      l ++ ch '\n' :: rest.take start := by
    rw [show l.length + 1 + start = l.length + (start + 1) by omega, List.take_length_add_append]
    simp
  unfold cutFrom
  rw [hDrop]
  split
  case h_1 last hLast =>
    rw [hTake, show l.length + 1 + start + last + 1 = l.length + 1 + (start + last + 1) by omega,
      hDrop]
    simp
  case h_2 => exact hTake

/-- The line that holds a position is cut out. -/
theorem cutFrom_lineStart {ls : List CString} (h : ∀ l ∈ ls, ch '\n' ∉ l) {t : Nat}
    (ht : t < (unlines (ch '\n') ls).length) :
    cutFrom (unlines (ch '\n') ls) (lineStart (unlines (ch '\n') ls) t) =
      unlines (ch '\n') (ls.eraseIdx (lineIndex (ch '\n') (unlines (ch '\n') ls) t)) := by
  induction ls generalizing t with
  | nil => simp at ht
  | cons l ls ih =>
      have hl : ch '\n' ∉ l := h l (by simp)
      have hls : ∀ m ∈ ls, ch '\n' ∉ m := fun m hm => h m (List.mem_cons_of_mem l hm)
      have hZero := cutFrom_zero h
      rw [unlines_cons] at ht hZero ⊢
      rcases Nat.lt_trichotomy t l.length with hLt | rfl | hGt
      · rw [lineStart_inside hl _ hLt, lineIndex_inside hl _ hLt, hZero]
        rfl
      · have hBehind := cutFrom_behind l (unlines (ch '\n') ls) 0
        rw [Nat.add_zero] at hBehind
        rw [lineStart_terminator, lineIndex_terminator hl, hBehind, cutFrom_zero hls]
        cases ls <;> simp [unlines_cons]
      · obtain ⟨u, rfl⟩ : ∃ u, t = l.length + 1 + u := ⟨t - (l.length + 1), by omega⟩
        have hu : u < (unlines (ch '\n') ls).length := by
          simp only [List.length_append, List.length_cons] at ht
          omega
        rw [lineStart_behind, cutFrom_behind, lineIndex_behind hl, List.eraseIdx_cons_succ,
          unlines_cons, ih hls hu]

/-- Index of the line in which a text first occurs. -/
def hitIndex (file req : CString) : Option Nat :=
  (strstr file req).map (lineIndex (ch '\n') file)

/-- The line in which a text first occurs. -/
def hitLine (file req : CString) : Option CString :=
  (hitIndex file req).bind fun i => (lines (ch '\n') file)[i]?

/-- The list without the element at an index, if there is one. -/
def eraseHit (ls : List CString) : Option Nat → List CString
  | none => ls
  | some i => ls.eraseIdx i

theorem eraseHit_sublist (ls : List CString) (hit : Option Nat) : (eraseHit ls hit).Sublist ls := by
  cases hit with
  | none => exact List.Sublist.refl ls
  | some i => exact List.eraseIdx_sublist ls i

theorem saveKbRmEntryValue_lines {ls : List CString} (h : ∀ l ∈ ls, ch '\n' ∉ l) {name : CString}
    {value : Option CString} (hReq : request name value ≠ []) :
    saveKbRmEntryValue (unlines (ch '\n') ls) name value =
      unlines (ch '\n') (eraseHit ls (hitIndex (unlines (ch '\n') ls) (request name value))) := by
  unfold saveKbRmEntryValue mapFile hitIndex
  split
  case h_1 hMap =>
    have hNil : unlines (ch '\n') ls = [] := by simpa using hMap
    rw [hNil]
    simp [strstr, hReq, eraseHit, hNil]
  case h_2 buf hMap =>
    obtain ⟨-, rfl⟩ : unlines (ch '\n') ls ≠ [] ∧ unlines (ch '\n') ls = buf := by simpa using hMap
    split
    case h_1 hNone => simp [hNone, eraseHit]
    case h_2 t hSome =>
      rw [hSome, Option.map_some, eraseHit]
      exact cutFrom_lineStart h (strstr_lt hReq hSome)

/-- The presence test changes nothing: a text that is not found is not removed. -/
theorem present_then_rm (file name value : CString) :
    (if saveKbEntryPresentAlready file name value ≠ 0 then saveKbRmEntryValue file name (some value)
      else file) = saveKbRmEntryValue file name (some value) := by
  split
  case isTrue => rfl
  case isFalse hAbsent =>
    unfold saveKbEntryPresentAlready at hAbsent
    unfold saveKbRmEntryValue
    cases hMap : mapFile file with
    | none => rfl
    | some buf =>
        rw [hMap] at hAbsent
        have hNone : strstr buf (request name (some value)) = none := by
          cases hFind : strstr buf (request name (some value)) with
          | none => rfl
          | some t =>
              rw [request] at hFind
              simp [hFind] at hAbsent
        simp [hNone]

/-- A line that a write has to leave alone: of another key or, outside the replaced
families, of another value. -/
def Protected (name value line : CString) : Prop :=
  ∀ entry ∈ parseLine line,
    entry.2.2.1 ≠ name ∨ (replacedFamily name = false ∧ entry.2.2.2 ≠ value)

instance (name value : CString) : DecidablePred (Protected name value) := fun line =>
  inferInstanceAs (Decidable (∀ entry ∈ parseLine line,
    entry.2.2.1 ≠ name ∨ (replacedFamily name = false ∧ entry.2.2.2 ≠ value)))

/-- The text that a write adds to the file. -/
def addedText (now type : Int) (name value : CString) : CString :=
  if skippedName name then [] else entryLine now type name value ++ [ch '\n']

/-- In front of the added text the file still has every line that the write has to
leave alone, in the old order. -/
def FramePreserved (file : CString) (now type : Int) (name value : CString) : Prop :=
  ∃ rest, saveKbWrite file now type name value = rest ++ addedText now type name value ∧
    ((lines (ch '\n') file).filter (Protected name value)).Sublist (lines (ch '\n') rest)

/-- The file when the entry itself is looked for. -/
def familyRemoved (file name : CString) : CString :=
  if replacedFamily name then saveKbRmEntry file name else file

/-- The searched texts first occur in lines that the write may remove: the name
alone for a replaced family, then the name with its value. -/
def CutsOwnLines (file name value : CString) : Prop :=
  (replacedFamily name = true → ∀ line ∈ hitLine file name, ¬ Protected name value line) ∧
  ∀ line ∈ hitLine (familyRemoved file name) (name ++ ch '=' :: value), ¬ Protected name value line

theorem saveKbWrite_eq (file : CString) (now type : Int) {name : CString} (value : CString)
    (hSkip : skippedName name = false) :
    saveKbWrite file now type name value =
      saveKbRmEntryValue (familyRemoved file name) name (some value) ++
        addedText now type name value := by
  simp only [saveKbWrite, addedText, hSkip, Bool.false_eq_true, if_false, present_then_rm,
    familyRemoved]

theorem ne_nil_of_replacedFamily {name : CString} (h : replacedFamily name = true) : name ≠ [] := by
  rintro rfl
  exact absurd h (by decide)

/-- Index of the line that a replaced family loses first. -/
def familyHit (file name : CString) : Option Nat :=
  if replacedFamily name then hitIndex file name else none

theorem familyRemoved_lines {ls : List CString} (h : ∀ l ∈ ls, ch '\n' ∉ l) (name : CString) :
    familyRemoved (unlines (ch '\n') ls) name =
      unlines (ch '\n') (eraseHit ls (familyHit (unlines (ch '\n') ls) name)) := by
  unfold familyRemoved familyHit
  split
  case isTrue hFamily =>
    have hReq : request name none ≠ [] := ne_nil_of_replacedFamily hFamily
    exact saveKbRmEntryValue_lines h hReq
  case isFalse => rfl

theorem eraseHit_free {ls : List CString} (h : ∀ l ∈ ls, ch '\n' ∉ l) (hit : Option Nat) :
    ∀ l ∈ eraseHit ls hit, ch '\n' ∉ l :=
  fun l hl => h l ((eraseHit_sublist ls hit).subset hl)

/-- The lines in front of the added text. -/
theorem saveKbRmEntryValue_familyRemoved {ls : List CString} (h : ∀ l ∈ ls, ch '\n' ∉ l)
    (name value : CString) :
    saveKbRmEntryValue (familyRemoved (unlines (ch '\n') ls) name) name (some value) =
      unlines (ch '\n') (eraseHit (eraseHit ls (familyHit (unlines (ch '\n') ls) name))
        (hitIndex (familyRemoved (unlines (ch '\n') ls) name) (name ++ ch '=' :: value))) := by
  rw [familyRemoved_lines h, saveKbRmEntryValue_lines (eraseHit_free h _) (by simp [request])]
  rfl

theorem saveKbWrite_lines {file : CString} {ls : List CString} (h : ∀ l ∈ ls, ch '\n' ∉ l)
    (hFile : file = unlines (ch '\n') ls) (now type : Int) (name value : CString) :
    ∃ ls' : List CString, (∀ l ∈ ls', ch '\n' ∉ l) ∧
      saveKbWrite file now type name value = unlines (ch '\n') ls' := by
  subst hFile
  rcases Bool.eq_false_or_eq_true (skippedName name) with hSkip | hSkip
  · exact ⟨ls, h, by simp [saveKbWrite, hSkip]⟩
  · obtain ⟨added, hAdded, hText⟩ : ∃ added : List CString, (∀ l ∈ added, ch '\n' ∉ l) ∧
        entryLine now type name value ++ [ch '\n'] = unlines (ch '\n') added := exists_unlines _
    rw [saveKbWrite_eq _ now type value hSkip, saveKbRmEntryValue_familyRemoved h, addedText, hSkip,
      if_neg Bool.false_ne_true, hText, ← unlines_append]
    refine ⟨_, fun l hl => ?_, rfl⟩
    rcases List.mem_append.mp hl with hl | hl
    · exact eraseHit_free (eraseHit_free h _) _ l hl
    · exact hAdded l hl

/-- Every file that writes produce consists of terminated lines. -/
theorem savedFile_lines (writes : List SaveWrite) :
    ∃ ls : List CString, (∀ l ∈ ls, ch '\n' ∉ l) ∧ savedFile writes = unlines (ch '\n') ls := by
  refine Run.foldl_invariant (fun file : CString => ∃ ls : List CString, (∀ l ∈ ls, ch '\n' ∉ l) ∧
    file = unlines (ch '\n') ls) (fun file write hFile => ?_) ⟨[], by simp, rfl⟩ writes
  obtain ⟨ls, h, hFile⟩ := hFile
  exact saveKbWrite_lines h hFile write.now write.type write.name write.value

theorem filter_eraseHit_iff {ls : List CString} (h : ∀ l ∈ ls, ch '\n' ∉ l) (p : CString → Bool)
    (req : CString) :
    (eraseHit ls (hitIndex (unlines (ch '\n') ls) req)).filter p = ls.filter p ↔
      ∀ line ∈ hitLine (unlines (ch '\n') ls) req, p line = false := by
  unfold hitLine
  rw [lines_unlines h]
  cases hitIndex (unlines (ch '\n') ls) req with
  | none => simp [eraseHit]
  | some i => simpa [eraseHit] using filter_eraseIdx_iff

theorem framePreserved_unlines_iff {ls : List CString} (h : ∀ l ∈ ls, ch '\n' ∉ l) (now type : Int)
    (name value : CString) :
    FramePreserved (unlines (ch '\n') ls) now type name value ↔
      skippedName name = true ∨ CutsOwnLines (unlines (ch '\n') ls) name value := by
  rcases Bool.eq_false_or_eq_true (skippedName name) with hSkip | hSkip
  · refine iff_of_true ⟨unlines (ch '\n') ls, ?_, List.filter_sublist⟩ (Or.inl hSkip)
    simp [saveKbWrite, addedText, hSkip]
  · have hRest : FramePreserved (unlines (ch '\n') ls) now type name value ↔
        (ls.filter (Protected name value)).Sublist
          (eraseHit (eraseHit ls (familyHit (unlines (ch '\n') ls) name))
            (hitIndex (familyRemoved (unlines (ch '\n') ls) name) (name ++ ch '=' :: value))) := by
      unfold FramePreserved
      rw [saveKbWrite_eq _ now type value hSkip, saveKbRmEntryValue_familyRemoved h, lines_unlines h]
      constructor
      · rintro ⟨rest, hEq, hKept⟩
        rw [← List.append_cancel_right hEq, lines_unlines (eraseHit_free (eraseHit_free h _) _)]
          at hKept
        exact hKept
      · intro hKept
        refine ⟨_, rfl, ?_⟩
        rwa [lines_unlines (eraseHit_free (eraseHit_free h _) _)]
    have hFirst := eraseHit_sublist ls (familyHit (unlines (ch '\n') ls) name)
    have hSecond := eraseHit_sublist (eraseHit ls (familyHit (unlines (ch '\n') ls) name))
      (hitIndex (familyRemoved (unlines (ch '\n') ls) name) (name ++ ch '=' :: value))
    rw [hRest, filter_sublist_iff (hSecond.trans hFirst), filter_eq_trans_iff hFirst hSecond]
    simp only [hSkip, Bool.false_eq_true, false_or]
    refine and_congr ?_ ?_
    · unfold familyHit
      rcases Bool.eq_false_or_eq_true (replacedFamily name) with hFamily | hFamily
      · simp [hFamily, filter_eraseHit_iff h]
      · simp [hFamily, eraseHit]
    · rw [familyRemoved_lines h, filter_eraseHit_iff (eraseHit_free h _)]
      simp

/-- A write leaves all other lines in the file exactly when it writes nothing or when
the texts it looks for first occur in lines that it may remove. -/
theorem frame_preserved_iff (writes : List SaveWrite) (now type : Int) (name value : CString) :
    FramePreserved (savedFile writes) now type name value ↔
      skippedName name = true ∨ CutsOwnLines (savedFile writes) name value := by
  obtain ⟨ls, h, hFile⟩ := savedFile_lines writes
  rw [hFile]
  exact framePreserved_unlines_iff h now type name value

/-- The write of `b=1` removes the line of the key `ab`, which contains that text. -/
theorem write_cuts_longer_key :
    ¬ FramePreserved (savedFile [⟨1000, kbTypeInt, lit "ab", lit "1"⟩]) 1001 kbTypeInt (lit "b")
      (lit "1") := by
  have hFile : savedFile [⟨1000, kbTypeInt, lit "ab", lit "1"⟩] =
      unlines (ch '\n') [lit "1000 3 ab=1"] := by decide
  rw [hFile, framePreserved_unlines_iff (by decide)]
  rintro (hSkip | hCuts)
  · exact absurd hSkip (by decide)
  · exact hCuts.2 (lit "1000 3 ab=1") (by decide) (by decide)

end KnowledgeBase
