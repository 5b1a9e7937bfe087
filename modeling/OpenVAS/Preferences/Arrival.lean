import Mathlib.Data.List.Basic
import Mathlib.Data.List.Induction
import Mathlib.Tactic.NormNum
import OpenVAS.Preferences.Basic

/-! Preferences arrive as they were sent, unless a name holds `<`, a value looks like the end of
the preferences, or a line fills the buffer. -/
namespace Preferences

open CString

/-- A name and a value whose line is shorter than the buffer of the scanner. -/
structure Fits (pref : CString × CString) : Prop where
  name : ∀ c ∈ pref.1, c ≠ 0 ∧ c ≠ ch '\n'
  value : ∀ c ∈ pref.2, c ≠ 0 ∧ c ≠ ch '\n'
  short : pref.1.length + pref.2.length + 6 < inputSize

/-- A name without `<`, and a value that neither starts nor holds the end of the preferences
and has room for its newline. -/
structure Plain (pref : CString × CString) : Prop where
  name : ch '<' ∉ pref.1
  start : ¬ (lit "CLIENT").IsPrefix pref.2
  value : ¬ (lit "<|> CLIENT").IsInfix pref.2
  room : pref.2 = [] ∨ pref.1.length + pref.2.length + 7 < inputSize

/-! Lines. -/

theorem recvBytes_line {text : List UInt8} (h : ∀ c ∈ text, c ≠ 0 ∧ c ≠ ch '\n') {size : Nat}
    (hSize : text.length < size) (rest : List UInt8) :
    recvBytes size (text ++ ch '\n' :: rest) = (text ++ [ch '\n'], rest) := by
  induction text generalizing size with
  | nil =>
      have hPositive : size ≠ 0 := by
        rintro rfl
        cases hSize
      rw [List.nil_append, recvBytes, if_neg hPositive, if_pos (.inr rfl)]
      rfl
  | cons c text ih =>
      have hFirst := h c List.mem_cons_self
      rw [List.length_cons] at hSize
      have hRest := ih (fun d hd => h d (List.mem_cons_of_mem c hd))
        (show text.length < size - 1 by omega)
      rw [List.cons_append, recvBytes, if_neg (by omega),
        if_neg (not_or.mpr ⟨hFirst.1, hFirst.2⟩), hRest]
      rfl

/-- A line that is shorter than the buffer is read as a whole. -/
theorem recvLine_line {text : List UInt8} (h : ∀ c ∈ text, c ≠ 0 ∧ c ≠ ch '\n') {size : Nat}
    (hSize : text.length + 1 < size) (rest : List UInt8) :
    recvLine size (text ++ ch '\n' :: rest) = (text ++ [ch '\n'], rest) := by
  rw [recvLine, recvBytes_line h (by omega)]
  simp only [List.getLast?_append, List.getLast?_singleton, List.length_append,
    List.length_singleton, hSize, if_true]
  rfl

/-- A line that fills the buffer loses its newline. -/
theorem recvLine_full {text : List UInt8} (h : ∀ c ∈ text, c ≠ 0 ∧ c ≠ ch '\n') {size : Nat}
    (hSize : text.length + 1 = size) (rest : List UInt8) :
    recvLine size (text ++ ch '\n' :: rest) = (text, rest) := by
  have hLast : (text ++ [ch '\n']).getLast? ≠ some 0 := by
    rw [List.getLast?_append, List.getLast?_singleton, Option.some_or]
    decide
  have hLong : ¬ (text ++ [ch '\n']).length < size := by
    rw [List.length_append, List.length_singleton]
    omega
  rw [recvLine, recvBytes_line h (by omega)]
  simp only [hLast, hLong, if_false]
  rw [← hSize, Nat.add_sub_cancel, List.take_left]

/-- The text of a preference in its line. -/
def preferenceText (pref : CString × CString) : CString := pref.1 ++ lit " <|> " ++ pref.2

/-- The end of the line in the buffer, which has no room for the newline of the longest line. -/
def lineEnd (pref : CString × CString) : CString :=
  if pref.1.length + pref.2.length + 7 < inputSize then [ch '\n'] else []

theorem lineEnd_eq (pref : CString × CString) : lineEnd pref = [] ∨ lineEnd pref = [ch '\n'] := by
  rw [lineEnd]
  split
  · exact .inr rfl
  · exact .inl rfl

theorem preferenceLine_eq (pref : CString × CString) :
    preferenceLine pref.1 pref.2 = preferenceText pref ++ [ch '\n'] := rfl

theorem preferenceText_append (pref : CString × CString) (last : CString) :
    preferenceText pref ++ last =
      (pref.1 ++ lit " ") ++ ch '<' :: (lit "|> " ++ (pref.2 ++ last)) := by
  simp only [preferenceText, List.append_assoc]
  rfl

/-- Where the end of the preferences is found in a line. -/
theorem strstr_line_iff {pref : CString × CString} (hName : ch '<' ∉ pref.1) :
    (strstr (preferenceText pref ++ lineEnd pref) (lit "<|> CLIENT")).isSome = true ↔
      (lit "CLIENT").IsPrefix pref.2 ∨ (lit "<|> CLIENT").IsInfix pref.2 := by
  have hMark : lit "<|> CLIENT" = ch '<' :: lit "|> CLIENT" := rfl
  have hSplit : lit "<|> CLIENT" = ch '<' :: (lit "|> " ++ lit "CLIENT") := rfl
  have hFront : ch '<' ∉ pref.1 ++ lit " " := by
    simp only [List.mem_append, not_or]
    exact ⟨hName, by decide⟩
  have hMiddle : ch '<' ∉ lit "|> " := by decide
  have hInfix : (lit "<|> CLIENT").IsInfix (pref.2 ++ lineEnd pref) ↔
      (lit "<|> CLIENT").IsInfix pref.2 := by
    rcases lineEnd_eq pref with hEnd | hEnd
    · rw [hEnd, List.append_nil]
    · rw [hEnd, infix_concat_iff (by decide)]
  have hPrefix : (lit "CLIENT").IsPrefix (pref.2 ++ lineEnd pref) ↔
      (lit "CLIENT").IsPrefix pref.2 := by
    rcases lineEnd_eq pref with hEnd | hEnd
    · rw [hEnd, List.append_nil]
    · rw [hEnd, prefix_concat_iff (by decide)]
  rw [strstr_isSome_iff, preferenceText_append, hMark, infix_append_iff hFront,
    List.infix_cons_iff, infix_append_iff hMiddle, ← hMark, hInfix]
  apply or_congr_left
  rw [hSplit, List.cons_prefix_cons, List.prefix_append_right_inj, hPrefix]
  simp

/-! Reading. -/

/-- The lines of names and values. -/
def preferenceLines (sent : List (CString × CString)) : CString :=
  (sent.map fun pref => preferenceLine pref.1 pref.2).flatten

theorem length_preferenceText (pref : CString × CString) :
    (preferenceText pref).length = pref.1.length + pref.2.length + 5 := by
  have hMark : (lit " <|> ").length = 5 := rfl
  rw [preferenceText, List.length_append, List.length_append, hMark]
  omega

/-- Which texts can stand in a line is decided byte by byte. -/
theorem solid_of_all {text : CString} (h : (text.all fun c => decide (c ≠ 0 ∧ c ≠ ch '\n')) = true) :
    ∀ c ∈ text, c ≠ 0 ∧ c ≠ ch '\n' :=
  fun c hc => of_decide_eq_true (List.all_eq_true.mp h c hc)

theorem recvLine_preference {pref : CString × CString} (h : Fits pref) (rest : List UInt8) :
    recvLine (inputSize - 1) (preferenceLine pref.1 pref.2 ++ rest) =
      (preferenceText pref ++ lineEnd pref, rest) := by
  have hMark : ∀ c ∈ lit " <|> ", c ≠ 0 ∧ c ≠ ch '\n' := solid_of_all (by decide)
  have hText : ∀ c ∈ preferenceText pref, c ≠ 0 ∧ c ≠ ch '\n' := by
    intro c hc
    rw [preferenceText, List.append_assoc, List.mem_append, List.mem_append] at hc
    rcases hc with hc | hc | hc
    · exact h.name c hc
    · exact hMark c hc
    · exact h.value c hc
  have hLength := length_preferenceText pref
  have hShort := h.short
  rw [preferenceLine_eq, List.append_assoc, List.singleton_append, lineEnd]
  split
  · exact recvLine_line hText (by omega) rest
  · rw [List.append_nil]
    exact recvLine_full hText (by omega) rest

theorem le_inputSize : 1000 < inputSize := by
  rw [inputSize]
  norm_num

theorem recvLine_end (rest : List UInt8) :
    recvLine (inputSize - 1) (lit "<|> CLIENT\n" ++ rest) = (lit "<|> CLIENT\n", rest) := by
  have hLine : lit "<|> CLIENT\n" = lit "<|> CLIENT" ++ [ch '\n'] := rfl
  have hText : ∀ c ∈ lit "<|> CLIENT", c ≠ 0 ∧ c ≠ ch '\n' := solid_of_all (by decide)
  have hLength : (lit "<|> CLIENT").length = 10 := rfl
  have hSize := le_inputSize
  rw [hLine, List.append_assoc]
  exact recvLine_line hText (by omega) rest

/-- The end of the preferences. -/
theorem readPreferences_end (fuel : Nat) (table : PreferenceTable) (rest : List UInt8) :
    readPreferences (fuel + 1) table (lit "<|> CLIENT\n" ++ rest) = .finished table [] rest := by
  have hFound : (strstr (lit "<|> CLIENT\n") (lit "<|> CLIENT")).isSome = true := by decide
  have hNe : lit "<|> CLIENT\n" ≠ [] := by decide
  rw [readPreferences, recvLine_end]
  simp only [hNe, if_false, hFound, if_true]

/-- A line that is taken for the end. -/
theorem readPreferences_mark {pref : CString × CString} (hFits : Fits pref)
    (hName : ch '<' ∉ pref.1)
    (hMark : (lit "CLIENT").IsPrefix pref.2 ∨ (lit "<|> CLIENT").IsInfix pref.2) (fuel : Nat)
    (table : PreferenceTable) (rest : List UInt8) :
    readPreferences (fuel + 1) table (preferenceLine pref.1 pref.2 ++ rest) =
      .finished table [] rest := by
  have hEnd := (strstr_line_iff hName).mpr hMark
  have hNe : preferenceText pref ++ lineEnd pref ≠ [] := by
    rw [preferenceText_append]
    simp
  rw [readPreferences, recvLine_preference hFits]
  simp only [hNe, if_false, hEnd, if_true]

/-- What is read of a line whose name holds no `<` and that is not taken for the end. -/
theorem readPreferences_line {pref : CString × CString} (hFits : Fits pref)
    (hName : ch '<' ∉ pref.1) (hStart : ¬ (lit "CLIENT").IsPrefix pref.2)
    (hValue : ¬ (lit "<|> CLIENT").IsInfix pref.2) (fuel : Nat) (table : PreferenceTable)
    (rest : List UInt8) :
    readPreferences (fuel + 1) table (preferenceLine pref.1 pref.2 ++ rest) =
      (readPreferences fuel (setPreference table pref.1 (pref.2 ++ lineEnd pref).dropLast) rest).add
        pref.1 (pref.2 ++ lineEnd pref).dropLast := by
  have hEnd : (strstr (preferenceText pref ++ lineEnd pref) (lit "<|> CLIENT")).isSome = false := by
    rw [Bool.eq_false_iff, Ne, strstr_line_iff hName, not_or]
    exact ⟨hStart, hValue⟩
  have hFront : ch '<' ∉ pref.1 ++ lit " " := by
    simp only [List.mem_append, not_or]
    exact ⟨hName, by decide⟩
  have hLength : (pref.1 ++ lit " ").length = pref.1.length + 1 := List.length_append
  have hChr : strchr (preferenceText pref ++ lineEnd pref) (ch '<') = some (pref.1.length + 1) := by
    rw [preferenceText_append, strchr_append_cons hFront, hLength]
  have hTake : (preferenceText pref ++ lineEnd pref).take pref.1.length = pref.1 := by
    simp only [preferenceText, List.append_assoc, List.take_left]
  have hDrop : (preferenceText pref ++ lineEnd pref).drop (pref.1.length + 5) =
      pref.2 ++ lineEnd pref := by
    simp only [preferenceText, List.append_assoc, List.drop_length_add_append]
    rfl
  have hLong : ¬ (preferenceText pref ++ lineEnd pref).length < pref.1.length + 5 := by
    rw [List.length_append, length_preferenceText]
    omega
  have hNe : preferenceText pref ++ lineEnd pref ≠ [] := by
    rw [preferenceText_append]
    simp
  rw [readPreferences, recvLine_preference hFits]
  simp only [hNe, if_false, hEnd, Bool.false_eq_true, hChr, hLong, hTake, hDrop]

/-- The value loses its last byte exactly when the newline is lost. -/
theorem dropLast_lineEnd_iff (pref : CString × CString) :
    (pref.2 ++ lineEnd pref).dropLast = pref.2 ↔
      pref.2 = [] ∨ pref.1.length + pref.2.length + 7 < inputSize := by
  by_cases hRoom : pref.1.length + pref.2.length + 7 < inputSize
  · rw [lineEnd, if_pos hRoom, List.dropLast_concat]
    exact iff_of_true rfl (.inr hRoom)
  · rw [lineEnd, if_neg hRoom, List.append_nil, or_iff_left hRoom]
    constructor
    · intro hSame
      have hLength := congrArg List.length hSame
      rw [List.length_dropLast] at hLength
      exact List.eq_nil_of_length_eq_zero (by omega)
    · intro hEmpty
      rw [hEmpty]
      rfl

/-- A plain preference is read as it was written. -/
theorem readPreferences_plain {pref : CString × CString} (hFits : Fits pref) (hPlain : Plain pref)
    (fuel : Nat) (table : PreferenceTable) (rest : List UInt8) :
    readPreferences (fuel + 1) table (preferenceLine pref.1 pref.2 ++ rest) =
      (readPreferences fuel (setPreference table pref.1 pref.2) rest).add pref.1 pref.2 := by
  rw [readPreferences_line hFits hPlain.name hPlain.start hPlain.value,
    (dropLast_lineEnd_iff pref).mpr hPlain.room]

/-- The preferences that were read before come first. -/
theorem Reading.of_add_eq_finished {reading : Reading} {pref value : CString}
    {table : PreferenceTable} {first : CString × CString} {read : List (CString × CString)}
    {rest : List UInt8} (h : reading.add pref value = .finished table (first :: read) rest) :
    first = (pref, value) := by
  cases reading with
  | finished table' read' rest' =>
      obtain ⟨-, hPairs, -⟩ := Reading.finished.inj h
      exact (List.cons.inj hPairs).1.symm
  | closed => cases h
  | outside => cases h

/-- A name with `<` is cut, or nothing is read. -/
theorem readPreferences_angle {pref : CString × CString} (hFits : Fits pref)
    (hName : ch '<' ∈ pref.1) (fuel : Nat) (table after : PreferenceTable)
    (sent : List (CString × CString)) (rest rest' : List UInt8) :
    readPreferences (fuel + 1) table (preferenceLine pref.1 pref.2 ++ rest) ≠
      .finished after (pref :: sent) rest' := by
  intro hRead
  rw [readPreferences, recvLine_preference hFits] at hRead
  dsimp only at hRead
  split at hRead
  · cases hRead
  split at hRead
  · cases hRead
  split at hRead
  · rename_i hChr
    have hMem : ch '<' ∈ preferenceText pref ++ lineEnd pref := by
      rw [preferenceText_append]
      simp
    exact (List.idxOf?_eq_none_iff.mp hChr) hMem
  · cases hRead
  · rename_i v hChr
    split at hRead
    · cases hRead
    · obtain ⟨front, back, hSplit, hFront, hLength⟩ := strchr_split hChr
      have hFirst := Reading.of_add_eq_finished hRead
      have hTake : pref.1 = front.take v := by
        rw [hFirst, hSplit, List.take_append_of_le_length (by omega)]
      rw [hTake] at hName
      exact hFront (List.mem_of_mem_take hName)

/-- What the scanner reads of a preference that is not plain is not what was written. -/
theorem readPreferences_not_plain {pref : CString × CString} (hFits : Fits pref)
    (hPlain : ¬ Plain pref) (fuel : Nat) (table after : PreferenceTable)
    (sent : List (CString × CString)) (rest rest' : List UInt8) :
    readPreferences (fuel + 1) table (preferenceLine pref.1 pref.2 ++ rest) ≠
      .finished after (pref :: sent) rest' := by
  by_cases hName : ch '<' ∈ pref.1
  · exact readPreferences_angle hFits hName fuel table after sent rest rest'
  by_cases hMark : (lit "CLIENT").IsPrefix pref.2 ∨ (lit "<|> CLIENT").IsInfix pref.2
  · rw [readPreferences_mark hFits hName hMark]
    nofun
  · obtain ⟨hStart, hValue⟩ := not_or.mp hMark
    intro hRead
    rw [readPreferences_line hFits hName hStart hValue] at hRead
    have hFirst := Reading.of_add_eq_finished hRead
    have hRoom := (dropLast_lineEnd_iff pref).mp (congrArg Prod.snd hFirst).symm
    exact hPlain ⟨hName, hStart, hValue, hRoom⟩

/-! Whole lists of preferences. -/

theorem Reading.add_eq_finished {reading : Reading} {pref value : CString} {table : PreferenceTable}
    {read : List (CString × CString)} {rest : List UInt8} :
    reading.add pref value = .finished table ((pref, value) :: read) rest ↔
      reading = .finished table read rest := by
  cases reading with
  | finished table' read' rest' => simp [Reading.add]
  | closed => simp [Reading.add]
  | outside => simp [Reading.add]

/-- The table after names and values were stored one after the other. -/
def stored (table : PreferenceTable) (sent : List (CString × CString)) : PreferenceTable :=
  sent.foldl (fun table pref => setPreference table pref.1 pref.2) table

theorem readPreferences_iff {sent : List (CString × CString)} (hFits : ∀ pref ∈ sent, Fits pref)
    {fuel : Nat} (hFuel : sent.length < fuel) (table after : PreferenceTable) (rest : List UInt8) :
    readPreferences fuel table (preferenceLines sent ++ (lit "<|> CLIENT\n" ++ rest)) =
        .finished after sent rest ↔
      (∀ pref ∈ sent, Plain pref) ∧ after = stored table sent := by
  induction sent generalizing fuel table with
  | nil =>
      obtain ⟨fuel, rfl⟩ := Nat.exists_eq_succ_of_ne_zero (Nat.ne_of_gt hFuel)
      rw [preferenceLines, List.map_nil, List.flatten_nil, List.nil_append, readPreferences_end]
      simp [stored, eq_comm]
  | cons pref sent ih =>
      obtain ⟨hFirst, hRest⟩ := List.forall_mem_cons.mp hFits
      obtain ⟨fuel, rfl⟩ := Nat.exists_eq_succ_of_ne_zero (Nat.ne_of_gt (Nat.zero_lt_of_lt hFuel))
      rw [List.length_cons] at hFuel
      have hLines : preferenceLines (pref :: sent) ++ (lit "<|> CLIENT\n" ++ rest) =
          preferenceLine pref.1 pref.2 ++
            (preferenceLines sent ++ (lit "<|> CLIENT\n" ++ rest)) := by
        rw [preferenceLines, List.map_cons, List.flatten_cons, List.append_assoc, preferenceLines]
      rw [hLines, List.forall_mem_cons]
      by_cases hPlain : Plain pref
      · rw [readPreferences_plain hFirst hPlain, Reading.add_eq_finished,
          ih hRest (by omega) (setPreference table pref.1 pref.2), and_iff_right hPlain]
        rfl
      · exact iff_of_false (readPreferences_not_plain hFirst hPlain fuel table after sent _ rest)
          fun h => hPlain h.1.1

/-- The last value that is sent for a name. -/
def lastValue (sent : List (CString × CString)) (name : CString) : Option CString :=
  (sent.reverse.find? (·.1 = name)).map Prod.snd

/-- What the table of the scanner should hold afterwards. -/
def received (table : PreferenceTable) (sent : List (CString × CString)) : PreferenceTable :=
  fun name => if isScannerOnlyPref name then table name else (lastValue sent name).or (table name)

/-- Storing one after the other leaves the last value of each name. -/
theorem stored_eq_received (table : PreferenceTable) (sent : List (CString × CString)) :
    stored table sent = received table sent := by
  induction sent using List.reverseRecOn with
  | nil =>
      funext name
      simp [stored, received, lastValue]
  | append_singleton sent pref ih =>
      funext name
      have hStep : stored table (sent ++ [pref]) =
          setPreference (stored table sent) pref.1 pref.2 := by
        rw [stored, List.foldl_append]
        rfl
      rw [hStep, ih, setPreference]
      by_cases hName : pref.1 = name
      · subst hName
        split
        · rename_i hReserved
          simp [received, hReserved]
        · rename_i hOpen
          simp [received, hOpen, lastValue]
      · have hLast : lastValue (sent ++ [pref]) name = lastValue sent name := by
          simp [lastValue, hName]
        split
        · simp [received, hLast]
        · rw [Function.update_of_ne (Ne.symm hName)]
          simp [received, hLast]

/-! Sending. -/

/-- The names and values that are sent. -/
def sentPreferences (prefs : List (CString × CString)) : List (CString × CString) :=
  (prefs.filter (·.1 ≠ lit "port_range")).map fun pref => (pref.1, preferenceValue pref.1 pref.2)

/-- No value is replaced by the UUID of a file. -/
theorem sentValue_of_no_file {files : Option (List CString)} {pref : CString × CString}
    (h : files = none ∨ isFilePreference pref.1 = false) (uuid : CString) :
    sentValue files uuid pref.1 pref.2 = preferenceValue pref.1 pref.2 := by
  cases files with
  | none => rfl
  | some files =>
      have hFile : isFilePreference pref.1 = false := h.resolve_left nofun
      simp [sentValue, hFile]

theorem sendConfigPreferences_eq {files : Option (List CString)} {prefs : List (CString × CString)}
    (h : files = none ∨ ∀ pref ∈ prefs, isFilePreference pref.1 = false) (makeUuid : Nat → CString) :
    sendConfigPreferences files makeUuid prefs = preferenceLines (sentPreferences prefs) := by
  induction prefs generalizing makeUuid with
  | nil => rfl
  | cons pref prefs ih =>
      have hFirst : files = none ∨ isFilePreference pref.1 = false :=
        h.imp_right fun hAll => hAll pref List.mem_cons_self
      have hRest := ih (h.imp_right fun hAll other hOther => hAll other (List.mem_cons_of_mem _ hOther))
        fun i => makeUuid (i + 1)
      rw [sendConfigPreferences, List.mapIdx_cons, List.flatten_cons]
      refine (congrArg (_ ++ ·) hRest).trans ?_
      by_cases hPort : pref.1 = lit "port_range"
      · simp [sentPreferences, hPort]
      · rw [if_neg hPort, sentValue_of_no_file hFirst]
        simp [sentPreferences, preferenceLines, hPort]

theorem preferenceValue_prefix (name fullValue : CString) :
    (preferenceValue name fullValue).IsPrefix fullValue := by
  rw [preferenceValue]
  split
  · exact List.prefix_refl _
  split
  · split
    · exact List.take_prefix _ _
    · exact List.prefix_refl _
  · exact List.prefix_refl _

/-- A value that is cut still fits. -/
theorem fits_sentPreferences {prefs : List (CString × CString)} (h : ∀ pref ∈ prefs, Fits pref) :
    ∀ pref ∈ sentPreferences prefs, Fits pref := by
  intro pref hPref
  obtain ⟨full, hFull, rfl⟩ := List.mem_map.mp hPref
  have hFits := h full (List.mem_filter.mp hFull).1
  have hPrefix := preferenceValue_prefix full.1 full.2
  refine ⟨hFits.name, fun c hc => hFits.value c (hPrefix.subset hc), ?_⟩
  have hShort := hFits.short
  have hLength := hPrefix.length_le
  dsimp only
  omega

theorem length_le_preferenceLines (sent : List (CString × CString)) :
    sent.length ≤ (preferenceLines sent).length := by
  induction sent with
  | nil => exact Nat.le_refl _
  | cons pref sent ih =>
      have hLine : 1 ≤ (preferenceLine pref.1 pref.2).length := by
        rw [preferenceLine, List.length_append]
        exact Nat.le_add_left 1 _
      rw [preferenceLines, List.map_cons, List.flatten_cons, List.length_append, List.length_cons]
      rw [preferenceLines] at ih
      omega

/-- The scanner reads the names and values as they were sent, and no further, and its table
holds them afterwards. -/
def Arrives (files : Option (List CString)) (makeUuid : Nat → CString)
    (prefs : List (CString × CString)) : Prop :=
  ∀ table rest, ntpReadPrefs table
      (sendConfigPreferences files makeUuid prefs ++ (lit "<|> CLIENT\n" ++ rest)) =
    .finished (received table (sentPreferences prefs)) (sentPreferences prefs) rest

/-- Preferences arrive unchanged exactly when their names hold no `<`, no value starts with the
word CLIENT or holds the end of the preferences, and no value takes the place of its newline in
the buffer. -/
theorem arrives_iff {files : Option (List CString)} {prefs : List (CString × CString)}
    (hFits : ∀ pref ∈ prefs, Fits pref)
    (hFiles : files = none ∨ ∀ pref ∈ prefs, isFilePreference pref.1 = false)
    (makeUuid : Nat → CString) :
    Arrives files makeUuid prefs ↔ ∀ pref ∈ sentPreferences prefs, Plain pref := by
  have hFuel (rest : List UInt8) : (sentPreferences prefs).length <
      (preferenceLines (sentPreferences prefs) ++ (lit "<|> CLIENT\n" ++ rest)).length + 1 := by
    have hLength := length_le_preferenceLines (sentPreferences prefs)
    rw [List.length_append]
    omega
  have hRead (table : PreferenceTable) (rest : List UInt8) :=
    readPreferences_iff (fits_sentPreferences hFits) (hFuel rest) table
      (received table (sentPreferences prefs)) rest
  rw [Arrives, sendConfigPreferences_eq hFiles]
  constructor
  · intro hArrives
    exact ((hRead (fun _ => none) []).mp (hArrives _ _)).1
  · intro hPlain table rest
    exact (hRead table rest).mpr ⟨hPlain, (stored_eq_received _ _).symm⟩

/-! Examples. -/

/-- A short preference of printable text fits. -/
def isShort (pref : CString × CString) : Bool :=
  pref.1.all (fun c => c ≠ 0 && c ≠ ch '\n') && pref.2.all (fun c => c ≠ 0 && c ≠ ch '\n') &&
    pref.1.length + pref.2.length < 900

theorem fits_of_isShort {pref : CString × CString} (h : isShort pref = true) : Fits pref := by
  simp only [isShort, Bool.and_eq_true, List.all_eq_true, decide_eq_true_eq] at h
  have hSize := le_inputSize
  exact ⟨h.1.1, h.1.2, by omega⟩

theorem plain_of_isShort {pref : CString × CString} (h : isShort pref = true)
    (hMarks : ch '<' ∉ pref.1 ∧ (lit "CLIENT").isPrefixOf pref.2 = false ∧
      (strstr pref.2 (lit "<|> CLIENT")).isSome = false) : Plain pref := by
  simp only [isShort, Bool.and_eq_true, decide_eq_true_eq] at h
  have hSize := le_inputSize
  obtain ⟨hName, hStart, hValue⟩ := hMarks
  rw [← Bool.not_eq_true, List.isPrefixOf_iff_prefix] at hStart
  rw [← Bool.not_eq_true, strstr_isSome_iff] at hValue
  exact ⟨hName, hStart, hValue, .inr (by omega)⟩

/-- A radio preference, the port range and a reserved name. -/
def somePreferences : List (CString × CString) :=
  [(lit "a[radio]:b", lit "x;y"), (lit "port_range", lit "1-5"), (lit "sys_c", []),
    (lit "d", lit "<3 CLIENT")]

theorem arrives_iff_some : sentPreferences somePreferences =
      [(lit "a[radio]:b", lit "x"), (lit "sys_c", []), (lit "d", lit "<3 CLIENT")] ∧
    Arrives none (fun _ => []) somePreferences := by
  have hSent : sentPreferences somePreferences =
      [(lit "a[radio]:b", lit "x"), (lit "sys_c", []), (lit "d", lit "<3 CLIENT")] := by decide
  have hShort : somePreferences.all isShort = true := by decide
  have hFits : ∀ pref ∈ somePreferences, Fits pref :=
    fun pref hPref => fits_of_isShort (List.all_eq_true.mp hShort pref hPref)
  refine ⟨hSent, (arrives_iff hFits (.inl rfl) _).mpr ?_⟩
  rw [hSent]
  refine List.forall_mem_cons.mpr ⟨?_, List.forall_mem_cons.mpr ⟨?_, List.forall_mem_singleton.mpr ?_⟩⟩
  · exact plain_of_isShort (by decide) (by decide)
  · exact plain_of_isShort (by decide) (by decide)
  · exact plain_of_isShort (by decide) (by decide)

/-- A value that starts with the word CLIENT ends the preferences, so that the next one is
not read. -/
theorem client_value_ends :
    (∀ table, ntpReadPrefs table (preferenceLines [(lit "a", lit "CLIENT"), (lit "b", lit "c")] ++
        lit "<|> CLIENT\n") = .finished table [] (lit "b <|> c\n<|> CLIENT\n")) ∧
      ¬ Arrives none (fun _ => []) [(lit "a", lit "CLIENT"), (lit "b", lit "c")] := by
  have hFits : Fits (lit "a", lit "CLIENT") := fits_of_isShort (by decide)
  have hRead (table : PreferenceTable) : ntpReadPrefs table (preferenceLines
      [(lit "a", lit "CLIENT"), (lit "b", lit "c")] ++ lit "<|> CLIENT\n") =
        .finished table [] (lit "b <|> c\n<|> CLIENT\n") := by
    have hStream : preferenceLines [(lit "a", lit "CLIENT"), (lit "b", lit "c")] ++
        lit "<|> CLIENT\n" = preferenceLine (lit "a") (lit "CLIENT") ++
          lit "b <|> c\n<|> CLIENT\n" := rfl
    rw [ntpReadPrefs, hStream]
    exact readPreferences_mark hFits (by decide) (.inl (List.prefix_refl _)) _ table _
  refine ⟨hRead, fun hArrives => ?_⟩
  have hAll := hArrives (fun _ => none) []
  rw [List.append_nil, sendConfigPreferences_eq (.inl rfl)] at hAll
  have hSent : sentPreferences [(lit "a", lit "CLIENT"), (lit "b", lit "c")] =
      [(lit "a", lit "CLIENT"), (lit "b", lit "c")] := by decide
  rw [hSent, hRead] at hAll
  obtain ⟨-, hPairs, -⟩ := Reading.finished.inj hAll
  cases hPairs

end Preferences
