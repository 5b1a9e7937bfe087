import OpenVAS.KnowledgeBase.SavedFrame
import OpenVAS.KnowledgeBase.Refinement

/-! Saving and loading a knowledge base. For names without line feeds and lines that
fit the buffer the file is the list of the calls whose lines are still there; the
reader takes the first of them for a date and drops it. -/
namespace KnowledgeBase

open CString Lines

/-- The text of a value in the file. -/
def savedValue : KbValue → CString
  | .str vStr => addslashes vStr
  | .int vInt => showInt vInt.toInt

theorem SaveCall.apply_eq (file : CString) (call : SaveCall) :
    call.apply file =
      saveKbWrite file call.now call.value.type call.name (savedValue call.value) := by
  unfold SaveCall.apply
  cases call.value <;> rfl

/-- The line that a call adds to the file. -/
def SaveCall.line (call : SaveCall) : CString :=
  entryLine call.now call.value.type call.name (savedValue call.value)

/-- What a call stores. -/
def SaveCall.entry (call : SaveCall) : CString × KbValue := (call.name, call.value)

/-- A text occurs in the line of a call. -/
def SaveCall.contains (req : CString) (call : SaveCall) : Bool := (strstr call.line req).isSome

/-- The text of a call behind its time and type. -/
def SaveCall.text (call : SaveCall) : CString := call.name ++ ch '=' :: savedValue call.value

/-- The calls whose lines a further call leaves in the file, and itself. It cuts out
the first line with its name, for a replaced family, and then the first one with
its name and value, as raw texts. -/
def remainingStep (rest : List SaveCall) (call : SaveCall) : List SaveCall :=
  (if replacedFamily call.name then rest.eraseP (SaveCall.contains call.name) else rest).eraseP
    (SaveCall.contains call.text) ++ [call]

/-- The calls of a sequence whose lines are still in the file at the end. -/
def remaining (calls : List SaveCall) : List SaveCall := calls.foldl remainingStep []

/-- What a sequence of calls should leave: every entry written, except that a call
for a replaced family replaces the earlier ones of its name. -/
def expected (calls : List SaveCall) : List (CString × KbValue) :=
  calls.foldl (fun result call =>
    (if replacedFamily call.name then result.filter fun e => e.1 ≠ call.name else result) ++
      [call.entry]) []

/-- The calls that the round trip is about: no `=` in the name, no name that is
dropped on purpose when writing or loading, and a time of the clock. -/
structure SaveCall.Admissible (call : SaveCall) : Prop where
  noEquals : ch '=' ∉ call.name
  written : skippedName call.name = false
  loaded : call.name ≠ lit "Host/dead" ∧ call.name ≠ lit "Host/ping_failed"
  clock : 0 ≤ call.now ∧ call.now < 2 ^ 63

/-- A call whose line is one line of the file and fits the buffer of the reader. -/
structure SaveCall.Plain (call : SaveCall) : Prop where
  noLineFeed : ch '\n' ∉ call.name
  short : call.line.length ≤ 4093

/-- The loaded knowledge base holds what the calls should leave, and nothing else. -/
def RoundTrip (calls : List SaveCall) (now : Int) : Prop :=
  ∃ kb, saveKbLoadKb (fileAfter calls) now = some kb ∧
    ∀ name value, value ∈ kb.items name ↔ (name, value) ∈ expected calls

theorem isPrefixOf_append_cons {needle : CString} {c : UInt8} (h : c ∉ needle) (l rest : CString) :
    needle.isPrefixOf (l ++ c :: rest) = needle.isPrefixOf l := by
  induction needle generalizing l with
  | nil => simp
  | cons b needle ih =>
      have hb : b ≠ c := fun he => h (he ▸ List.mem_cons_self ..)
      cases l with
      | nil => simp [List.isPrefixOf, hb]
      | cons d l => simp [List.isPrefixOf, ih (fun hc => h (List.mem_cons_of_mem b hc)) l]

/-- A text without line feeds is found in one line, the first one that has it. -/
theorem strstr_line {needle : CString} (h : ch '\n' ∉ needle) (hNeedle : needle ≠ [])
    (l rest : CString) :
    strstr (l ++ ch '\n' :: rest) needle =
      match strstr l needle with
      | some t => some t
      | none => (strstr rest needle).map fun t => l.length + 1 + t := by
  induction l with
  | nil =>
      have hPrefix : needle.isPrefixOf (ch '\n' :: rest) = false := by
        rw [← List.nil_append (ch '\n' :: rest), isPrefixOf_append_cons h]
        cases needle with
        | nil => exact absurd rfl hNeedle
        | cons b needle => rfl
      simp only [List.nil_append, strstr, hPrefix, hNeedle, Bool.false_eq_true, if_false]
      congr 1
      funext t
      simp only [List.length_nil]
      omega
  | cons c l ih =>
      have hPrefix := isPrefixOf_append_cons h (c :: l) rest
      rw [List.cons_append] at hPrefix ⊢
      rw [strstr, hPrefix, ih, strstr]
      split
      · rfl
      · cases strstr l needle with
        | some t => rfl
        | none =>
            simp only [Option.map_map, Option.map_none, List.length_cons]
            congr 1
            funext t
            simp only [Function.comp_apply]
            omega

/-- Cutting out the line of the first occurrence is erasing the first line that has
the text. -/
theorem eraseHit_eq_eraseP {needle : CString} (h : ch '\n' ∉ needle) (hNeedle : needle ≠ [])
    {ls : List CString} (hFree : ∀ l ∈ ls, ch '\n' ∉ l) :
    eraseHit ls (hitIndex (unlines (ch '\n') ls) needle) =
      ls.eraseP fun l => (strstr l needle).isSome := by
  induction ls with
  | nil => simp [hitIndex, strstr, hNeedle, eraseHit]
  | cons l ls ih =>
      have hl : ch '\n' ∉ l := hFree l (by simp)
      have ih := ih fun m hm => hFree m (List.mem_cons_of_mem l hm)
      rw [unlines_cons, hitIndex, strstr_line h hNeedle]
      cases hFind : strstr l needle with
      | some t =>
          simp only [Option.map_some, eraseHit]
          rw [lineIndex_inside hl _ (strstr_lt hNeedle hFind),
            List.eraseP_cons_of_pos (by simp [hFind])]
          rfl
      | none =>
          rw [List.eraseP_cons_of_neg (by simp [hFind]), ← ih, hitIndex]
          cases strstr (unlines (ch '\n') ls) needle with
          | none => rfl
          | some t =>
              simp only [Option.map_some, eraseHit]
              rw [lineIndex_behind hl, List.eraseIdx_cons_succ]

theorem not_mem_savedValue (value : KbValue) : ch '\n' ∉ savedValue value := by
  cases value with
  | str vStr => exact not_mem_addslashes (Or.inl rfl) vStr
  | int vInt => exact not_mem_showInt (by decide) (by decide) vInt.toInt

theorem SaveCall.Plain.text_free {call : SaveCall} (h : call.Plain) : ch '\n' ∉ call.text := by
  simp only [SaveCall.text, List.mem_append, List.mem_cons, not_or]
  exact ⟨h.noLineFeed, by decide, not_mem_savedValue call.value⟩

theorem SaveCall.Plain.line_free {call : SaveCall} (h : call.Plain) : ch '\n' ∉ call.line := by
  have hText := h.text_free
  simp only [SaveCall.text] at hText
  simp only [SaveCall.line, entryLine, List.mem_append, List.mem_cons, not_or] at hText ⊢
  exact ⟨not_mem_showInt (by decide) (by decide) _, by decide,
    not_mem_showInt (by decide) (by decide) _, by decide, hText⟩

theorem lines_free {rest : List SaveCall} (h : ∀ call ∈ rest, call.Plain) :
    ∀ l ∈ rest.map SaveCall.line, ch '\n' ∉ l := by
  intro l hl
  obtain ⟨call, hCall, rfl⟩ := List.mem_map.mp hl
  exact (h call hCall).line_free

/-- One removal, on the calls and on their lines. -/
theorem eraseHit_map_line {req : CString} (hReq : ch '\n' ∉ req) (hNil : req ≠ [])
    {rest : List SaveCall} (h : ∀ call ∈ rest, call.Plain) :
    eraseHit (rest.map SaveCall.line) (hitIndex (unlines (ch '\n') (rest.map SaveCall.line)) req) =
      (rest.eraseP (SaveCall.contains req)).map SaveCall.line := by
  rw [eraseHit_eq_eraseP hReq hNil (lines_free h), List.eraseP_map]
  rfl

/-- The removal for a replaced family, on the calls. -/
def familyStep (rest : List SaveCall) (name : CString) : List SaveCall :=
  if replacedFamily name then rest.eraseP (SaveCall.contains name) else rest

theorem remainingStep_eq (rest : List SaveCall) (call : SaveCall) :
    remainingStep rest call =
      (familyStep rest call.name).eraseP (SaveCall.contains call.text) ++ [call] := rfl

theorem familyStep_sublist (rest : List SaveCall) (name : CString) :
    (familyStep rest name).Sublist rest := by
  unfold familyStep
  split
  · exact List.eraseP_sublist
  · exact List.Sublist.refl rest

theorem mem_remainingStep {rest : List SaveCall} {call c : SaveCall}
    (h : c ∈ remainingStep rest call) : c ∈ rest ∨ c = call := by
  rw [remainingStep_eq, List.mem_append, List.mem_singleton] at h
  rcases h with h | h
  · exact Or.inl ((List.eraseP_sublist.trans (familyStep_sublist rest call.name)).subset h)
  · exact Or.inr h

/-- One call on the file is one step on the list of remaining calls. -/
theorem SaveCall.apply_lines {rest : List SaveCall} (hRest : ∀ c ∈ rest, c.Plain)
    {call : SaveCall} (hPlain : call.Plain) (hWritten : skippedName call.name = false) :
    call.apply (unlines (ch '\n') (rest.map SaveCall.line)) =
      unlines (ch '\n') ((remainingStep rest call).map SaveCall.line) := by
  have hFamily : eraseHit (rest.map SaveCall.line)
      (familyHit (unlines (ch '\n') (rest.map SaveCall.line)) call.name) =
        (familyStep rest call.name).map SaveCall.line := by
    unfold familyHit familyStep
    split
    case isTrue h =>
      exact eraseHit_map_line hPlain.noLineFeed (ne_nil_of_replacedFamily h) hRest
    case isFalse => rfl
  have hStep : ∀ c ∈ familyStep rest call.name, c.Plain :=
    fun c hc => hRest c ((familyStep_sublist rest call.name).subset hc)
  have hText : call.text ≠ [] := by simp [SaveCall.text]
  rw [SaveCall.apply_eq, saveKbWrite_eq _ _ _ _ hWritten,
    saveKbRmEntryValue_familyRemoved (lines_free hRest), familyRemoved_lines (lines_free hRest),
    hFamily, addedText, if_neg (by simp [hWritten])]
  change unlines (ch '\n') (eraseHit _ (hitIndex _ call.text)) ++ (call.line ++ [ch '\n']) = _
  rw [eraseHit_map_line hPlain.text_free hText hStep, remainingStep_eq, List.map_append,
    unlines_append]
  simp [unlines]

/-- The file of plain calls consists of the lines of the remaining ones. -/
theorem fileAfter_eq {calls : List SaveCall} (hPlain : ∀ call ∈ calls, call.Plain)
    (hAdmissible : ∀ call ∈ calls, call.Admissible) :
    fileAfter calls = unlines (ch '\n') ((remaining calls).map SaveCall.line) ∧
      ∀ call ∈ remaining calls, call ∈ calls := by
  have hFold : ∀ (later rest : List SaveCall), (∀ c ∈ rest, c ∈ calls) → (∀ c ∈ later, c ∈ calls) →
      later.foldl SaveCall.apply (unlines (ch '\n') (rest.map SaveCall.line)) =
        unlines (ch '\n') ((later.foldl remainingStep rest).map SaveCall.line) ∧
      ∀ c ∈ later.foldl remainingStep rest, c ∈ calls := by
    intro later
    induction later with
    | nil => exact fun rest hRest _ => ⟨rfl, hRest⟩
    | cons call later ih =>
        intro rest hRest hLater
        have hCall : call ∈ calls := hLater call (by simp)
        rw [List.foldl_cons, List.foldl_cons, SaveCall.apply_lines (fun c hc => hPlain c (hRest c hc))
          (hPlain call hCall) (hAdmissible call hCall).written]
        refine ih _ (fun c hc => ?_) fun c hc => hLater c (List.mem_cons_of_mem call hc)
        rcases mem_remainingStep hc with hc | rfl
        · exact hRest c hc
        · exact hCall
  exact hFold calls [] (by simp) fun c hc => hc

theorem readLine_line {l : CString} (h : ch '\n' ∉ l) (rest : CString) {size : Nat}
    (hSize : l.length < size) : readLine size (l ++ ch '\n' :: rest) = (l ++ [ch '\n'], rest) := by
  induction l generalizing size with
  | nil =>
      obtain ⟨size, rfl⟩ : ∃ k, size = k + 1 := ⟨size - 1, by simp at hSize; omega⟩
      simp [readLine]
  | cons c l ih =>
      obtain ⟨size, rfl⟩ : ∃ k, size = k + 1 := ⟨size - 1, by simp at hSize; omega⟩
      have hc : c ≠ ch '\n' := fun he => h (he ▸ List.mem_cons_self ..)
      have hLess : l.length < size := by
        simp only [List.length_cons] at hSize
        omega
      simp [readLine, hc, ih (fun hl => h (List.mem_cons_of_mem c hl)) hLess]

theorem fgets_line {l : CString} (h : ch '\n' ∉ l) (rest : CString) (hShort : l.length ≤ 4093) :
    fgets 4095 (l ++ ch '\n' :: rest) = some (l ++ [ch '\n'], rest) := by
  rw [fgets, if_neg (by simp), readLine_line h rest (by omega)]

theorem fgetsAll_unlines {ls : List CString} (hFree : ∀ l ∈ ls, ch '\n' ∉ l)
    (hShort : ∀ l ∈ ls, l.length ≤ 4093) {fuel : Nat}
    (hFuel : (unlines (ch '\n') ls).length ≤ fuel) :
    fgetsAll 4095 fuel (unlines (ch '\n') ls) = ls.map (· ++ [ch '\n']) := by
  induction ls generalizing fuel with
  | nil => cases fuel <;> simp [fgetsAll, fgets]
  | cons l ls ih =>
      rw [unlines_cons] at hFuel ⊢
      simp only [List.length_append, List.length_cons] at hFuel
      obtain ⟨fuel, rfl⟩ : ∃ k, fuel = k + 1 := ⟨fuel - 1, by omega⟩
      rw [fgetsAll, fgets_line (hFree l (by simp)) _ (hShort l (by simp))]
      dsimp only
      rw [ih (fun m hm => hFree m (List.mem_cons_of_mem l hm))
        (fun m hm => hShort m (List.mem_cons_of_mem l hm)) (by omega), List.map_cons]

/-- The 32-bit type code that is written for a value. -/
theorem exists_typeCode (value : KbValue) : ∃ code : Int32, code.toInt = value.type := by
  cases value with
  | str => exact ⟨1, rfl⟩
  | int => exact ⟨3, rfl⟩

theorem drop_length_succ (before : CString) (c : UInt8) (after : CString) :
    (before ++ c :: after).drop (before.length + 1) = after := by
  simp [List.drop_append]

/-- The line of a call is read back as the call. -/
theorem parseLine_line {call : SaveCall} (h : call.Admissible) :
    ∃ code : Int32, code.toInt = call.value.type ∧
      parseLine call.line = some (call.now, code, call.name, savedValue call.value) := by
  obtain ⟨code, hCode⟩ := exists_typeCode call.value
  refine ⟨code, hCode, ?_⟩
  have hSpace (i : Int) : ch ' ' ∉ showInt i := not_mem_showInt (by decide) (by decide) i
  have hTime : (strtol (showInt call.now)).1 = call.now := by
    have hClock := h.clock
    have hRead := strtol_showInt (i := call.now) (by omega) (by omega)
      (fun b (hb : b ∈ ([] : CString).head?) => by simp at hb)
    rw [List.append_nil] at hRead
    rw [hRead]
  have hType : atoi (showInt call.value.type ++ ch ' ' :: (call.name ++ ch '=' :: savedValue call.value)) =
      code := by
    rw [← hCode]
    exact atoi_showInt code (by simp; decide)
  unfold parseLine SaveCall.line entryLine
  simp only [strchr_append_cons (hSpace _), List.take_left, drop_length_succ, hTime, hType,
    strchr_append_cons h.noEquals]

/-- Loading the line of a call adds its entry. -/
theorem loadLine_line {call : SaveCall} (h : call.Admissible) {now : Int}
    (hFresh : now - call.now ≤ maxAge) (kb : Kb) :
    loadLine now kb (call.line ++ [ch '\n']) = (kbItemAdd kb call.name call.value).2 := by
  obtain ⟨code, hCode, hParse⟩ := parseLine_line h
  have hTmp : (lit "/tmp").isPrefixOf call.name = false := by
    have hWritten := h.written
    simp only [skippedName, Bool.or_eq_false_iff] at hWritten
    exact hWritten.1.1.1
  rw [loadLine, List.dropLast_concat, hParse]
  dsimp only
  rw [if_pos ⟨h.loaded.1, hTmp, h.loaded.2⟩, if_neg (by omega), hCode]
  cases hValue : call.value with
  | str vStr => simp [KbValue.type, savedValue, rmslashes_addslashes, kbItemAdd]
  | int vInt =>
      have hNot : kbTypeInt ≠ kbTypeStr := by decide
      simp [KbValue.type, savedValue, atoi_showInt_self, kbItemAdd, hNot]

theorem mem_items_foldl_add (rest : List SaveCall) (kb : Kb) (name : CString) (value : KbValue) :
    value ∈ Kb.items (rest.foldl (fun kb call => (kbItemAdd kb call.name call.value).2) kb) name ↔
      value ∈ kb.items name ∨ (name, value) ∈ rest.map SaveCall.entry := by
  induction rest generalizing kb with
  | nil => simp
  | cons call rest ih =>
      rw [List.foldl_cons, ih, kbItemAdd_items, ItemMap.add, List.map_cons, List.mem_cons]
      have hEntry : (name, value) = call.entry ↔ name = call.name ∧ value = call.value := by
        simp [SaveCall.entry]
      rw [hEntry]
      split
      case isTrue hMem =>
        constructor
        · rintro (h | h)
          · exact Or.inl h
          · exact Or.inr (Or.inr h)
        · rintro (h | ⟨rfl, rfl⟩ | h)
          · exact Or.inl h
          · exact Or.inl hMem
          · exact Or.inr h
      case isFalse =>
        rcases eq_or_ne name call.name with rfl | hName
        · rw [Function.update_self, List.mem_cons]
          tauto
        · rw [Function.update_of_ne hName]
          tauto

/-- The reader drops the oldest of the remaining calls and loads the others. -/
theorem saveKbLoadKb_fileAfter {calls : List SaveCall} (hPlain : ∀ call ∈ calls, call.Plain)
    (hAdmissible : ∀ call ∈ calls, call.Admissible) {now : Int}
    (hFresh : ∀ call ∈ calls, now - call.now ≤ maxAge) :
    saveKbLoadKb (fileAfter calls) now =
      match remaining calls with
      | [] => none
      | _ :: rest =>
          some (rest.foldl (fun kb call => (kbItemAdd kb call.name call.value).2) kbNew) := by
  obtain ⟨hFile, hMem⟩ := fileAfter_eq hPlain hAdmissible
  rw [hFile]
  cases hRemaining : remaining calls with
  | nil => rfl
  | cons oldest rest =>
      rw [hRemaining] at hMem
      have hOldest := hPlain oldest (hMem oldest (by simp))
      have hRest : ∀ c ∈ rest, c ∈ calls := fun c hc => hMem c (List.mem_cons_of_mem oldest hc)
      rw [List.map_cons, unlines_cons, saveKbLoadKb, fgets_line hOldest.line_free _ hOldest.short]
      dsimp only
      rw [fgetsAll_unlines (lines_free fun c hc => hPlain c (hRest c hc)) ?_ (le_refl _),
        List.map_map, List.foldl_map]
      · congr 1
        refine List.foldl_ext _ _ _ fun kb c hc => ?_
        exact loadLine_line (hAdmissible c (hRest c hc)) (hFresh c (hRest c hc)) kb
      · intro l hl
        obtain ⟨c, hc, rfl⟩ := List.mem_map.mp hl
        exact (hPlain c (hRest c hc)).short

/-- For plain calls the round trip holds exactly when the calls whose lines remain,
without the oldest one, carry what the sequence should leave. -/
theorem roundTrip_iff_remaining {calls : List SaveCall} (hPlain : ∀ call ∈ calls, call.Plain)
    (hAdmissible : ∀ call ∈ calls, call.Admissible) {now : Int}
    (hFresh : ∀ call ∈ calls, now - call.now ≤ maxAge) :
    RoundTrip calls now ↔ remaining calls ≠ [] ∧
      ∀ e, e ∈ (remaining calls).tail.map SaveCall.entry ↔ e ∈ expected calls := by
  have hLoad := saveKbLoadKb_fileAfter hPlain hAdmissible hFresh
  unfold RoundTrip
  rw [hLoad]
  cases remaining calls with
  | nil => simp
  | cons oldest rest =>
      have hNew (name : CString) : kbNew.items name = [] := rfl
      simp only [Option.some.injEq, exists_eq_left', mem_items_foldl_add, hNew, List.not_mem_nil,
        false_or, ne_eq, reduceCtorEq, not_false_eq_true, true_and, List.tail_cons, Prod.forall]

/-- The removals of a call hit only lines of its own name and then of its own entry. -/
def CutsOwnCalls (rest : List SaveCall) (call : SaveCall) : Prop :=
  (replacedFamily call.name = true → ∀ c ∈ rest.find? (SaveCall.contains call.name),
    c.name = call.name) ∧
  ∀ c ∈ (familyStep rest call.name).find? (SaveCall.contains call.text), c.entry = call.entry

/-- The remaining calls are the ones that the sequence should leave, once each. -/
structure Unconfused (rest : List SaveCall) (result : List (CString × KbValue)) : Prop where
  nodup : (rest.map SaveCall.entry).Nodup
  entries : ∀ e, e ∈ rest.map SaveCall.entry ↔ e ∈ result
  single : rest.Pairwise fun c d => replacedFamily c.name = true → c.name ≠ d.name

theorem SaveCall.contains_name (call : SaveCall) : SaveCall.contains call.name call = true := by
  have h := strstr_isSome (showInt call.now ++ ch ' ' :: (showInt call.value.type ++ [ch ' ']))
    call.name (ch '=' :: savedValue call.value)
  simpa [SaveCall.contains, SaveCall.line, entryLine] using h

theorem SaveCall.contains_text (call : SaveCall) : SaveCall.contains call.text call = true := by
  have h := strstr_isSome (showInt call.now ++ ch ' ' :: (showInt call.value.type ++ [ch ' ']))
    call.text []
  simpa [SaveCall.contains, SaveCall.line, entryLine, SaveCall.text] using h

/-- The family removal of an unconfused call takes out exactly its name. -/
theorem Unconfused.familyStep_eq {rest : List SaveCall} {result : List (CString × KbValue)}
    (h : Unconfused rest result) {call : SaveCall} (hOwn : CutsOwnCalls rest call) :
    familyStep rest call.name =
      rest.filter fun c => !(replacedFamily call.name && decide (c.name = call.name)) := by
  unfold familyStep
  split
  case isTrue hFamily =>
    refine eraseP_eq_filter (fun c hc => ?_) (fun c _ hc => ?_) (h.single.imp fun {c d} hcd => ?_)
    · simpa [hFamily] using hOwn.1 hFamily c hc
    · have hName : c.name = call.name := by simpa [hFamily] using hc
      rw [← hName]
      exact c.contains_name
    · simp only [hFamily, Bool.true_and, decide_eq_true_eq, not_and]
      intro hc hd
      exact hcd (hc ▸ hFamily) (hc.trans hd.symm)
  case isFalse hFamily => simp [hFamily]

/-- A call that a further one leaves when it is not confused: of another entry and,
for a replaced family, of another name. -/
def SaveCall.spares (call c : SaveCall) : Bool :=
  !decide (c.entry = call.entry) && !(replacedFamily call.name && decide (c.name = call.name))

theorem SaveCall.spares_iff (call c : SaveCall) : call.spares c = true ↔
    c.entry ≠ call.entry ∧ (replacedFamily call.name = true → c.entry.1 ≠ call.name) := by
  rw [show c.entry.1 = c.name from rfl]
  unfold SaveCall.spares
  cases replacedFamily call.name <;> simp

theorem SaveCall.mem_map_spares {rest : List SaveCall} (call : SaveCall) (e : CString × KbValue) :
    e ∈ (rest.filter call.spares).map SaveCall.entry ↔ e ∈ rest.map SaveCall.entry ∧
      e ≠ call.entry ∧ (replacedFamily call.name = true → e.1 ≠ call.name) := by
  rw [List.mem_map, List.mem_map]
  constructor
  · rintro ⟨c, hc, rfl⟩
    obtain ⟨hMem, hSpared⟩ := List.mem_filter.mp hc
    exact ⟨⟨c, hMem, rfl⟩, (call.spares_iff c).mp hSpared⟩
  · rintro ⟨⟨c, hMem, rfl⟩, hSpared⟩
    exact ⟨c, List.mem_filter.mpr ⟨hMem, (call.spares_iff c).mpr hSpared⟩, rfl⟩

theorem Unconfused.remainingStep_eq {rest : List SaveCall} {result : List (CString × KbValue)}
    (h : Unconfused rest result) {call : SaveCall} (hOwn : CutsOwnCalls rest call) :
    remainingStep rest call = rest.filter call.spares ++ [call] := by
  have hFamily := h.familyStep_eq hOwn
  have hPairs : (familyStep rest call.name).Pairwise
      fun c d => ¬ (decide (c.entry = call.entry) = true ∧ decide (d.entry = call.entry) = true) := by
    rw [hFamily]
    refine List.Pairwise.filter _ ((List.pairwise_map.mp h.nodup).imp fun {c d} hcd => ?_)
    simp only [decide_eq_true_eq, not_and]
    exact fun hc hd => hcd (hc.trans hd.symm)
  have hText : (familyStep rest call.name).eraseP (SaveCall.contains call.text) =
      (familyStep rest call.name).filter fun c => !decide (c.entry = call.entry) := by
    refine eraseP_eq_filter (fun c hc => by simpa using hOwn.2 c hc) (fun c _ hc => ?_) hPairs
    have hEntry : c.entry = call.entry := by simpa using hc
    have hSame : c.text = call.text := by
      obtain ⟨hName, hValue⟩ := Prod.mk.inj hEntry
      simp only [SaveCall.text, hName, hValue]
    rw [← hSame]
    exact c.contains_text
  rw [KnowledgeBase.remainingStep_eq, hText, hFamily, List.filter_filter]
  rfl

/-- An unconfused call does to the lines what it should do to the entries. -/
theorem Unconfused.step {rest : List SaveCall} {result : List (CString × KbValue)}
    (h : Unconfused rest result) {call : SaveCall} (hOwn : CutsOwnCalls rest call) :
    Unconfused (remainingStep rest call)
      ((if replacedFamily call.name then result.filter fun e => e.1 ≠ call.name else result) ++
        [call.entry]) := by
  rw [h.remainingStep_eq hOwn]
  refine ⟨?_, fun e => ?_, ?_⟩
  · rw [List.map_append, List.nodup_append]
    refine ⟨h.nodup.sublist (List.filter_sublist.map _), by simp, fun e he f hf => ?_⟩
    obtain rfl : f = call.entry := by simpa using hf
    exact ((call.mem_map_spares e).mp he).2.1
  · rw [List.map_append, List.mem_append, List.mem_append, call.mem_map_spares, h.entries]
    rcases eq_or_ne e call.entry with rfl | he
    · simp
    · cases replacedFamily call.name <;> simp [he]
  · refine List.pairwise_append.mpr ⟨h.single.filter _, by simp, fun c hc d hd hFamily hName => ?_⟩
    obtain rfl : d = call := by simpa using hd
    exact ((d.spares_iff c).mp (List.mem_filter.mp hc).2).2 (hName ▸ hFamily) hName

/-- A sequence of calls each of which cuts out only its own lines never makes the
round trip: the oldest line that remains is an expected entry, and it is dropped. -/
theorem not_roundTrip_of_cutsOwn {calls : List SaveCall} (hPlain : ∀ call ∈ calls, call.Plain)
    (hAdmissible : ∀ call ∈ calls, call.Admissible) {now : Int}
    (hFresh : ∀ call ∈ calls, now - call.now ≤ maxAge)
    (hOwn : Run.AllSteps remainingStep CutsOwnCalls [] calls) : ¬ RoundTrip calls now := by
  have hFold : ∀ (later rest : List SaveCall) (result : List (CString × KbValue)),
      Unconfused rest result → Run.AllSteps remainingStep CutsOwnCalls rest later →
      Unconfused (later.foldl remainingStep rest) (later.foldl (fun result call =>
        (if replacedFamily call.name then result.filter fun e => e.1 ≠ call.name else result) ++
          [call.entry]) result) := by
    intro later
    induction later with
    | nil => exact fun _ _ h _ => h
    | cons call later ih => exact fun rest result h hSteps => ih _ _ (h.step hSteps.1) hSteps.2
  have hEnd : Unconfused (remaining calls) (expected calls) :=
    hFold calls [] [] ⟨by simp, by simp, by simp⟩ hOwn
  rw [roundTrip_iff_remaining hPlain hAdmissible hFresh]
  rintro ⟨hNonempty, hEntries⟩
  cases hRemaining : remaining calls with
  | nil => exact hNonempty hRemaining
  | cons oldest rest =>
      rw [hRemaining] at hEnd hEntries
      have hExpected : oldest.entry ∈ expected calls := (hEnd.entries _).mp (by simp)
      have hAgain : oldest.entry ∈ rest.map SaveCall.entry := (hEntries _).mpr hExpected
      exact (List.nodup_cons.mp hEnd.nodup).1 hAgain

/-- For plain calls the round trip holds exactly when the calls whose lines remain,
without the oldest one, carry what the sequence should leave. It never does when
each call cuts out only its own lines. -/
theorem round_trip_iff {calls : List SaveCall} (hPlain : ∀ call ∈ calls, call.Plain)
    (hAdmissible : ∀ call ∈ calls, call.Admissible) {now : Int}
    (hFresh : ∀ call ∈ calls, now - call.now ≤ maxAge) :
    (RoundTrip calls now ↔ remaining calls ≠ [] ∧
      ∀ e, e ∈ (remaining calls).tail.map SaveCall.entry ↔ e ∈ expected calls) ∧
    (Run.AllSteps remainingStep CutsOwnCalls [] calls → ¬ RoundTrip calls now) :=
  ⟨roundTrip_iff_remaining hPlain hAdmissible hFresh,
    not_roundTrip_of_cutsOwn hPlain hAdmissible hFresh⟩

/-- Six calls of which the third and the fourth cut out lines of longer keys, so that
`b` is in the file twice. -/
def confusedCalls : List SaveCall :=
  [⟨1000, lit "ab", .int 1⟩, ⟨1001, lit "cb", .int 1⟩, ⟨1002, lit "b", .int 1⟩,
   ⟨1003, lit "b", .int 1⟩, ⟨1004, lit "ab", .int 1⟩, ⟨1005, lit "cb", .int 1⟩]

theorem round_trip_confused :
    (∀ call ∈ confusedCalls, call.Plain) ∧ RoundTrip confusedCalls 1006 := by
  have hPlain : ∀ call ∈ confusedCalls, call.Plain := by
    intro call hCall
    have hAll : ∀ call ∈ confusedCalls, ch '\n' ∉ call.name ∧ call.line.length ≤ 4093 := by
      decide +kernel
    exact ⟨(hAll call hCall).1, (hAll call hCall).2⟩
  have hAdmissible : ∀ call ∈ confusedCalls, call.Admissible := by
    intro call hCall
    have hAll : ∀ call ∈ confusedCalls, (ch '=' ∉ call.name ∧ skippedName call.name = false) ∧
        (call.name ≠ lit "Host/dead" ∧ call.name ≠ lit "Host/ping_failed") ∧
        (0 ≤ call.now ∧ call.now < 2 ^ 63) := by
      decide +kernel
    obtain ⟨⟨hEquals, hWritten⟩, hLoaded, hClock⟩ := hAll call hCall
    exact ⟨hEquals, hWritten, hLoaded, hClock⟩
  have hEntries : (remaining confusedCalls).tail.map SaveCall.entry =
      [(lit "b", .int 1), (lit "ab", .int 1), (lit "cb", .int 1)] := by decide +kernel
  have hExpected : expected confusedCalls = [(lit "ab", .int 1), (lit "cb", .int 1),
      (lit "b", .int 1), (lit "b", .int 1), (lit "ab", .int 1), (lit "cb", .int 1)] := by
    decide +kernel
  refine ⟨hPlain, (round_trip_iff hPlain hAdmissible (by decide +kernel)).1.mpr
    ⟨by decide +kernel, fun e => ?_⟩⟩
  rw [hEntries, hExpected]
  simp only [List.mem_cons, List.not_mem_nil, or_false]
  tauto

/-- One call: its line is the first one, so it is not loaded. -/
theorem single_call_lost : ¬ RoundTrip [⟨1000, lit "a", .int 1⟩] 1000 := by
  rintro ⟨kb, hLoad, hItems⟩
  have hFile : fileAfter [⟨1000, lit "a", .int 1⟩] = lit "1000 3 a=1\n" := by decide +kernel
  rw [hFile] at hLoad
  have hKb : saveKbLoadKb (lit "1000 3 a=1\n") 1000 = some kbNew := rfl
  obtain rfl : kbNew = kb := Option.some.inj (hKb.symm.trans hLoad)
  have hMem := (hItems (lit "a") (.int 1)).mpr (by decide +kernel)
  exact absurd hMem (by simp [Kb.items, kbNew, ChainTable.entries, ChainTable.atKey])

end KnowledgeBase
