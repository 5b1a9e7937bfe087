import OpenVAS.Filters.Reading

/-! The loop of `split_filter` with its own variables: two flags, a pointer to the
current part and the keyword that is open. No assertion fails, and the loop reads the
keywords that `splitFilter` does. -/
namespace Filters

open CString

/-- A keyword that is open: the fields set so far. -/
structure Open where
  column : Option CString := none
  relation : Relation := .approx
  equal : Bool := false

/-- The variables of the loop. `currentPart` is an index into the filter. -/
structure Splitter where
  inQuote : Bool := false
  between : Bool := true
  currentPart : Nat := 0
  keyword : Option Open := none
  parts : List Keyword := []

namespace Splitter

/-- Closes the keyword with its string, and keeps it if it has an effect. -/
def close (s : Splitter) (keyword : Open) (string : CString) (quoted : Bool) : Splitter :=
  let closed : Keyword := ⟨keyword.column, keyword.relation, string, quoted, keyword.equal⟩
  { s with
    parts := if keywordApplies s.parts closed then s.parts ++ [closed] else s.parts
    keyword := none
    between := true }

/-- Opens a keyword. -/
def openAt (s : Splitter) (keyword : Open) (currentPart : Nat) : Splitter :=
  { s with keyword := some keyword, currentPart, between := false }

/-- The text from the current part up to an index. -/
def slice (s : Splitter) (filter : CString) (i : Nat) : CString := (filter.take i).drop s.currentPart

/-- The cases of the characters that end an index; `none` is a failed assertion. -/
def index (filter : CString) (s : Splitter) (i : Nat) (relation : Relation) : Option Splitter :=
  if s.between then some (s.openAt {} i)
  else if s.inQuote then some s
  else
    match s.keyword with
    | none => none
    | some keyword =>
        if keyword.column.isSome then some s
        else if i + 1 ≤ s.currentPart then none
        else
          some { s with
            keyword := some { keyword with column := some (s.slice filter i), relation }
            currentPart := i + 1 }

/-- The cases of the blanks. -/
def blank (filter : CString) (s : Splitter) (i : Nat) : Option Splitter :=
  if s.inQuote ∨ s.between then some s
  else s.keyword.map fun keyword => s.close keyword (s.slice filter i) false

/-- The case of the quote. -/
def quote (filter : CString) (s : Splitter) (i : Nat) : Option Splitter :=
  if s.inQuote then
    s.keyword.map fun keyword =>
      { s.close keyword (s.slice filter i) true with inQuote := false }
  else if s.between then some { s.openAt {} (i + 1) with inQuote := true }
  else
    match s.keyword with
    | none => none
    | some keyword =>
        if keyword.column.isSome ∧ i = s.currentPart then
          some { s with inQuote := true, currentPart := s.currentPart + 1 }
        else if keyword.equal ∧ i = s.currentPart then
          some { s with inQuote := true, currentPart := s.currentPart + 1 }
        else some s

/-- One round of the loop. The case of the equals sign falls through to those of the
other characters that end an index. -/
def step (filter : CString) (s : Splitter) (i : Nat) (c : UInt8) : Option Splitter :=
  if c = ch '=' ∧ s.between then some (s.openAt { equal := true } (i + 1))
  else
    match relationOf c with
    | some relation => index filter s i relation
    | none =>
        if isBlank c then blank filter s i
        else if c = ch '"' then quote filter s i
        else if s.between then some (s.openAt {} i)
        else some s

/-- The variables in front of the character at an index. -/
def before (filter : CString) : Nat → Option Splitter
  | 0 => some {}
  | n + 1 =>
      (before filter n).bind fun s =>
        match filter[n]? with
        | some c => step filter s n c
        | none => some s

/-- What follows the loop, up to its last assertion. -/
def finish (filter : CString) (s : Splitter) : Option (List Keyword) :=
  if s.between = false then
    s.keyword.map fun keyword => (s.close keyword (filter.drop s.currentPart) s.inQuote).parts
  else if s.keyword.isNone then some s.parts
  else none

/-- `split_filter`; `none` is a failed assertion. -/
def run (filter : CString) : Option (List Keyword) :=
  (before filter filter.length).bind fun s =>
    (finish filter s).map fun parts => parts ++ defaults parts (filter = [])

/-! What holds at every character. -/

/-- The flags say whether a keyword is open, and its text starts behind the current part. -/
structure Consistent (i : Nat) (s : Splitter) : Prop where
  between : s.between = true ↔ s.keyword = none
  inQuote : s.inQuote = true → s.keyword ≠ none
  currentPart : s.keyword ≠ none → s.currentPart ≤ i

/-- The state of the reader that the variables stand for. -/
def scan (filter : CString) (i : Nat) (s : Splitter) : Scan where
  parts := s.parts
  part := s.keyword.map fun keyword =>
    ⟨keyword.column, keyword.relation, keyword.equal, s.inQuote, s.slice filter i⟩

theorem slice_succ {filter : CString} {i : Nat} {c : UInt8} (hc : filter[i]? = some c) {s : Splitter}
    (h : s.currentPart ≤ i) : s.slice filter (i + 1) = s.slice filter i ++ [c] := by
  obtain ⟨hi, rfl⟩ := List.getElem?_eq_some_iff.mp hc
  rw [slice, slice, List.take_add_one, List.drop_append_of_le_length]
  · simp [hc]
  · rw [List.length_take]
    omega

theorem slice_self (filter : CString) (i : Nat) (s : Splitter) (h : i ≤ s.currentPart) :
    s.slice filter i = [] := by
  rw [slice, List.drop_eq_nil_of_le]
  rw [List.length_take]
  omega

theorem slice_eq_nil {filter : CString} {i : Nat} (hi : i < filter.length) {s : Splitter}
    (h : s.currentPart ≤ i) : s.slice filter i = [] ↔ i = s.currentPart := by
  rw [slice, List.drop_eq_nil_iff, List.length_take]
  omega

/-- The loop starts in a consistent state. -/
theorem consistent_init : Consistent 0 {} where
  between := iff_of_true rfl rfl
  inQuote h := absurd h Bool.false_ne_true
  currentPart h := absurd rfl h

/-! One round, when no keyword is open and when one is. -/

/-- What a round has to do: no assertion fails, and the variables stand for the next state of
the reader. -/
def Follows (filter : CString) (i : Nat) (next : Option Splitter) (scan : Scan) : Prop :=
  ∃ s, next = some s ∧ s.Consistent (i + 1) ∧ s.scan filter (i + 1) = scan

section round

variable {filter : CString} {i : Nat} {c : UInt8} (hc : filter[i]? = some c)

/-- Where a part begins, the loop and the scan agree. -/
theorem follows_openAt {parts : List Keyword} {currentPart : Nat} (keyword : Open) (inQuote : Bool)
    {start : Nat} (hStart : start ≤ i + 1) :
    Follows filter i
      (some { openAt ⟨false, true, currentPart, none, parts⟩ keyword start with inQuote := inQuote })
      ⟨parts, some ⟨keyword.column, keyword.relation, keyword.equal, inQuote,
        (filter.take (i + 1)).drop start⟩⟩ :=
  ⟨_, rfl, ⟨by simp [openAt], fun _ => by simp [openAt], fun _ => hStart⟩, rfl⟩

include hc

/-- They agree after a byte between two parts. -/
theorem follows_between (parts : List Keyword) (currentPart : Nat) :
    Follows filter i (step filter ⟨false, true, currentPart, none, parts⟩ i c) ⟨parts, start c⟩ := by
  have hOne : (filter.take (i + 1)).drop i = [c] := by
    have hSlice := @slice_succ filter i c hc ⟨false, true, i, none, parts⟩ (Nat.le_refl i)
    rw [slice_self filter i _ (Nat.le_refl i)] at hSlice
    exact hSlice
  have hNone : (filter.take (i + 1)).drop (i + 1) = [] :=
    slice_self filter (i + 1) ⟨false, true, i + 1, none, parts⟩ (Nat.le_refl _)
  rw [step]
  by_cases hEqual : c = ch '='
  · rw [if_pos ⟨hEqual, rfl⟩, start, if_pos hEqual]
    have hOpen := @follows_openAt filter i parts currentPart { equal := true } false (i + 1) (Nat.le_refl _)
    rw [hNone] at hOpen
    exact hOpen
  · rw [if_neg fun h => hEqual h.1, start, if_neg hEqual]
    have hOpen := @follows_openAt filter i parts currentPart {} false i (Nat.le_succ i)
    rw [hOne] at hOpen
    cases hRelation : relationOf c with
    | some relation =>
        obtain ⟨hBlank, hQuote⟩ := not_blank_of_relation hRelation
        dsimp only
        rw [if_neg (Bool.eq_false_iff.mp hBlank), if_neg hQuote]
        exact hOpen
    | none =>
        dsimp only
        by_cases hBlank : isBlank c = true
        · rw [if_pos hBlank, if_pos hBlank]
          exact ⟨_, rfl, ⟨iff_of_true rfl rfl, fun h => absurd h Bool.false_ne_true,
            fun h => absurd rfl h⟩, rfl⟩
        · rw [if_neg hBlank, if_neg hBlank]
          by_cases hQuote : c = ch '"'
          · rw [if_pos hQuote, if_pos hQuote]
            have hQuoted := @follows_openAt filter i parts currentPart {} true (i + 1) (Nat.le_refl _)
            rw [hNone] at hQuoted
            exact hQuoted
          · rw [if_neg hQuote, if_neg hQuote]
            exact hOpen

/-- The character becomes part of the text. -/
theorem follows_more {inQuote : Bool} {currentPart : Nat} (hPart : currentPart ≤ i) (keyword : Open)
    (parts : List Keyword) :
    Follows filter i (some ⟨inQuote, false, currentPart, some keyword, parts⟩)
      ⟨parts, some ⟨keyword.column, keyword.relation, keyword.equal, inQuote,
        (filter.take i).drop currentPart ++ [c]⟩⟩ := by
  have hSlice := @slice_succ filter i c hc ⟨inQuote, false, currentPart, some keyword, parts⟩ hPart
  refine ⟨_, rfl, ⟨by simp, fun _ => by simp, fun _ => Nat.le_succ_of_le hPart⟩, ?_⟩
  rw [scan, hSlice]
  rfl

/-- They agree after a byte inside of a part. -/
theorem follows_open {inQuote : Bool} {currentPart : Nat} (hPart : currentPart ≤ i) (keyword : Open)
    (parts : List Keyword) :
    Follows filter i (step filter ⟨inQuote, false, currentPart, some keyword, parts⟩ i c)
      (Part.read parts ⟨keyword.column, keyword.relation, keyword.equal, inQuote,
        (filter.take i).drop currentPart⟩ c) := by
  obtain ⟨hi, _⟩ := List.getElem?_eq_some_iff.mp hc
  have hMore := @follows_more filter i c hc inQuote currentPart hPart keyword parts
  have hEmpty : (filter.take i).drop currentPart = [] ↔ i = currentPart :=
    @slice_eq_nil filter i hi ⟨inQuote, false, currentPart, some keyword, parts⟩ hPart
  rw [step, if_neg (by simp), Part.read]
  cases hRelation : relationOf c with
  | some relation =>
      dsimp only
      rw [index, if_neg (by simp)]
      cases inQuote with
      | true => exact hMore
      | false =>
          dsimp only
          rw [if_neg Bool.false_ne_true]
          by_cases hColumn : keyword.column.isSome = true
          · rw [if_pos hColumn, if_pos (Or.inr hColumn)]
            exact hMore
          · rw [if_neg hColumn, if_neg (by omega), if_neg (by simp [hColumn])]
            refine ⟨_, rfl, ⟨by simp, fun _ => by simp, fun _ => Nat.le_refl _⟩, ?_⟩
            rw [scan]
            dsimp only [Option.map_some]
            rw [slice_self filter (i + 1) _ (Nat.le_refl _)]
            rfl
  | none =>
      dsimp only
      by_cases hBlank : isBlank c = true
      · rw [if_pos hBlank, if_pos hBlank, blank]
        cases inQuote with
        | true => exact hMore
        | false =>
            exact ⟨_, rfl, ⟨iff_of_true rfl rfl, fun h => absurd h Bool.false_ne_true,
              fun h => absurd rfl h⟩, rfl⟩
      · rw [if_neg hBlank, if_neg hBlank]
        by_cases hQuote : c = ch '"'
        · rw [if_pos hQuote, if_pos hQuote, Splitter.quote]
          cases inQuote with
          | true =>
              exact ⟨_, rfl, ⟨iff_of_true rfl rfl, fun h => absurd h Bool.false_ne_true,
                fun h => absurd rfl h⟩, rfl⟩
          | false =>
              dsimp only
              rw [if_neg Bool.false_ne_true, if_neg Bool.false_ne_true, if_neg Bool.false_ne_true]
              have hOpening (h : i = currentPart) : Follows filter i
                  (some ⟨true, false, currentPart + 1, some keyword, parts⟩)
                  ⟨parts, some ⟨keyword.column, keyword.relation, keyword.equal, true,
                    (filter.take i).drop currentPart⟩⟩ := by
                refine ⟨_, rfl, ⟨by simp, fun _ => by simp, fun _ => by simp [h]⟩, ?_⟩
                rw [scan]
                dsimp only [Option.map_some]
                rw [slice_self filter (i + 1) _ (by simp [h]), hEmpty.mpr h]
              by_cases hStart : i = currentPart
              · by_cases hColumn : keyword.column.isSome = true
                · rw [if_pos ⟨hColumn, hStart⟩, if_pos ⟨hEmpty.mpr hStart, Or.inl hColumn⟩]
                  exact hOpening hStart
                · rw [if_neg fun h => hColumn h.1]
                  by_cases hEqual : keyword.equal = true
                  · rw [if_pos ⟨hEqual, hStart⟩, if_pos ⟨hEmpty.mpr hStart, Or.inr hEqual⟩]
                    exact hOpening hStart
                  · rw [if_neg fun h => hEqual h.1, if_neg fun h => h.2.elim hColumn hEqual]
                    exact hMore
              · rw [if_neg fun h => hStart h.2, if_neg fun h => hStart h.2,
                  if_neg fun h => hStart (hEmpty.mp h.1)]
                exact hMore
        · rw [if_neg hQuote, if_neg hQuote, if_neg (by simp)]
          exact hMore

/-- A round from consistent variables. -/
theorem follows_step {s : Splitter} (h : s.Consistent i) :
    Follows filter i (step filter s i c) ((s.scan filter i).step c) := by
  obtain ⟨inQuote, between, currentPart, keyword, parts⟩ := s
  cases keyword with
  | none =>
      obtain rfl : between = true := h.between.mpr rfl
      obtain rfl : inQuote = false := Bool.eq_false_iff.mpr fun hIn => h.inQuote hIn rfl
      exact follows_between hc parts currentPart
  | some keyword =>
      obtain rfl : between = false := Bool.eq_false_iff.mpr fun hBetween =>
        absurd (h.between.mp hBetween) (by simp)
      exact follows_open hc (h.currentPart (by simp)) keyword parts

end round

/-- At every character the variables are consistent, and stand for the state of the reader. -/
theorem before_consistent (filter : CString) {n : Nat} (hn : n ≤ filter.length) :
    ∃ s, before filter n = some s ∧ s.Consistent n ∧
      s.scan filter n = (filter.take n).foldl Scan.step {} := by
  induction n with
  | zero => exact ⟨{}, rfl, consistent_init, rfl⟩
  | succ n ih =>
      obtain ⟨s, hBefore, hConsistent, hScan⟩ := ih (by omega)
      have hc : filter[n]? = some filter[n] := List.getElem?_eq_getElem hn
      obtain ⟨next, hStep, hNext, hNextScan⟩ := follows_step hc hConsistent
      refine ⟨next, ?_, hNext, ?_⟩
      · rw [before, hBefore, Option.bind_some, hc]
        exact hStep
      · rw [hNextScan, hScan, List.take_add_one, hc, Option.toList_some, List.foldl_append]
        rfl

/-- No assertion fails, and the keywords are those of the reader. -/
theorem run_eq (filter : CString) : run filter = some (splitFilter filter) := by
  obtain ⟨s, hBefore, hConsistent, hScan⟩ := before_consistent filter (Nat.le_refl _)
  rw [List.take_length] at hScan
  have hFinish : finish filter s = some (scanFrom {} filter) := by
    rw [scanFrom, ← hScan]
    obtain ⟨inQuote, between, currentPart, keyword, parts⟩ := s
    cases keyword with
    | none =>
        obtain rfl : between = true := hConsistent.between.mpr rfl
        rfl
    | some keyword =>
        obtain rfl : between = false := Bool.eq_false_iff.mpr fun hBetween =>
          absurd (hConsistent.between.mp hBetween) (by simp)
        rw [Scan.done, scan]
        dsimp only [Option.map_some]
        rw [slice, List.take_length]
        rfl
  rw [run, hBefore, Option.bind_some, hFinish]
  rfl

end Splitter

/-! How often the special columns can be in the array. -/

/-- No keyword of a kind has an effect behind another one. -/
def Exclusive (p : Keyword → Bool) : Prop :=
  ∀ parts keyword, keywordApplies parts keyword = true → p keyword = true → parts.countP p = 0

/-- A column that counts once does not apply twice. -/
theorem exclusive_column {column : CString}
    (hColumn : column ∈ [lit "first", lit "rows", lit "apply_overrides"]) :
    Exclusive fun keyword => keyword.column = some column := by
  intro parts keyword hApplies hKeyword
  rw [decide_eq_true_eq] at hKeyword
  have hSort : isSort (some column) = false := by
    simp only [List.mem_cons, List.not_mem_nil, or_false] at hColumn
    rcases hColumn with rfl | rfl | rfl <;> decide
  rw [keywordApplies, hKeyword, if_neg (by simp [hSort]), List.all_eq_true] at hApplies
  have hNone := hApplies column hColumn
  rw [List.countP_eq_zero]
  intro item hItem
  simpa using (by simpa using hNone : ∀ item ∈ parts, ¬ item.column = some column) item hItem

/-- Nor does an order. -/
theorem exclusive_sort :
    Exclusive fun keyword => isSort keyword.column && keyword.relation = .columnEqual := by
  intro parts keyword hApplies hKeyword
  rw [Bool.and_eq_true, decide_eq_true_eq] at hKeyword
  rw [keywordApplies, if_pos hKeyword, Bool.not_eq_true', List.any_eq_false] at hApplies
  rw [List.countP_eq_zero]
  intro item hItem hBoth
  rw [Bool.and_eq_true] at hBoth
  exact hApplies item hItem hBoth.1

section count

variable {p : Keyword → Bool} (hExclusive : Exclusive p)

include hExclusive

theorem finish_countP_le {parts : List Keyword} (h : parts.countP p ≤ 1) (part : Part) (quoted : Bool) :
    (Scan.finish parts part quoted).countP p ≤ 1 := by
  rw [Scan.finish]
  split
  · rename_i hApplies
    rw [List.countP_append, List.countP_singleton]
    split
    · rename_i hKeyword
      rw [hExclusive parts _ hApplies hKeyword]
    · exact h
  · exact h

theorem read_countP_le {parts : List Keyword} (h : parts.countP p ≤ 1) (part : Part) (c : UInt8) :
    (part.read parts c).parts.countP p ≤ 1 := by
  rw [Part.read]
  repeat' split
  all_goals first | exact h | exact finish_countP_le hExclusive h part _

/-- A byte leaves a keyword that counts once at one, at most. -/
theorem step_countP_le {scan : Scan} (h : scan.parts.countP p ≤ 1) (c : UInt8) :
    (scan.step c).parts.countP p ≤ 1 := by
  rw [Scan.step]
  cases scan.part with
  | none => exact h
  | some part => exact read_countP_le hExclusive h part c

/-- So does the whole filter. -/
theorem scanFrom_countP_le {scan : Scan} (h : scan.parts.countP p ≤ 1) (filter : CString) :
    (scanFrom scan filter).countP p ≤ 1 := by
  induction filter generalizing scan with
  | nil =>
      change scan.done.countP p ≤ 1
      rw [Scan.done]
      cases scan.part with
      | none => exact h
      | some part => exact finish_countP_le hExclusive h part _
  | cons c filter ih => exact ih (step_countP_le hExclusive h c)

end count

/-- The defaults stand for what is missing. -/
theorem countP_defaults (parts : List Keyword) (empty : Bool) :
    (defaults parts empty).countP (·.column = some (lit "first")) =
        (if parts.any (·.column = some (lit "first")) then 0 else 1) ∧
      (defaults parts empty).countP (·.column = some (lit "rows")) =
        (if parts.any (·.column = some (lit "rows")) then 0 else 1) ∧
      (defaults parts empty).countP (isSort ·.column) =
        (if parts.any (isSort ·.column) then 0 else 1) ∧
      (defaults parts empty).countP (fun keyword => isSort keyword.column && keyword.relation = .columnEqual) =
        (if parts.any (isSort ·.column) then 0 else 1) ∧
      (defaults parts empty).countP (·.column = some (lit "apply_overrides")) = 0 := by
  rw [defaults]
  generalize parts.any (·.column = some (lit "first")) = first
  generalize parts.any (·.column = some (lit "rows")) = rows
  generalize parts.any (isSort ·.column) = sort
  revert first rows sort empty
  decide

theorem countP_append_eq_one {p : Keyword → Bool} {parts rest : List Keyword} (h : parts.countP p ≤ 1)
    (hRest : rest.countP p = if parts.any p then 0 else 1) : (parts ++ rest).countP p = 1 := by
  rw [List.countP_append, hRest]
  split
  · rename_i hAny
    have hPos : 0 < parts.countP p := List.countP_pos_iff.mpr (List.any_eq_true.mp hAny)
    omega
  · rename_i hNone
    rw [List.countP_eq_zero.mpr]
    intro keyword hKeyword hp
    exact hNone (List.any_eq_true.mpr ⟨keyword, hKeyword, hp⟩)

/-- What the array of a filter contains. -/
structure Complete (parts : List Keyword) : Prop where
  first : parts.countP (·.column = some (lit "first")) = 1
  rows : parts.countP (·.column = some (lit "rows")) = 1
  sort : 1 ≤ parts.countP (isSort ·.column)
  sortEqual : parts.countP (fun keyword => isSort keyword.column && keyword.relation = .columnEqual) ≤ 1
  applyOverrides : parts.countP (·.column = some (lit "apply_overrides")) ≤ 1

/-- The array of every filter has one first row, one number of rows and at least one order. -/
theorem splitFilter_complete (filter : CString) : Complete (splitFilter filter) := by
  obtain ⟨hFirst, hRows, hSort, hSortEqual, hOverrides⟩ :=
    countP_defaults (scanFrom {} filter) (filter = [])
  have hAtMost {p : Keyword → Bool} (hExclusive : Exclusive p) : (scanFrom {} filter).countP p ≤ 1 :=
    @scanFrom_countP_le p hExclusive {} (Nat.zero_le 1) filter
  rw [splitFilter]
  constructor
  · exact countP_append_eq_one (hAtMost (exclusive_column (by decide))) hFirst
  · exact countP_append_eq_one (hAtMost (exclusive_column (by decide))) hRows
  · rw [List.countP_append, hSort]
    split
    · rename_i hAny
      have hPos : 0 < (scanFrom {} filter).countP (isSort ·.column) :=
        List.countP_pos_iff.mpr (List.any_eq_true.mp hAny)
      omega
    · omega
  · rw [List.countP_append, hSortEqual]
    split
    · exact hAtMost exclusive_sort
    · rename_i hNone
      have hZero : (scanFrom {} filter).countP
          (fun keyword => isSort keyword.column && keyword.relation = .columnEqual) = 0 := by
        rw [List.countP_eq_zero]
        intro keyword hKeyword hBoth
        rw [Bool.and_eq_true] at hBoth
        exact hNone (List.any_eq_true.mpr ⟨keyword, hKeyword, hBoth.1⟩)
      rw [hZero]
  · rw [List.countP_append, hOverrides]
    exact hAtMost (exclusive_column (by decide))

/-- Reading a filter never aborts: at every character the flags say whether a keyword is open,
and the array that comes out is complete. -/
theorem splitter_complete (filter : CString) :
    (∀ n ≤ filter.length, ∃ s, Splitter.before filter n = some s ∧
      (s.between = true ↔ s.keyword = none) ∧ (s.inQuote = true → s.keyword ≠ none)) ∧
      ∃ parts, Splitter.run filter = some parts ∧ Complete parts := by
  constructor
  · intro n hn
    obtain ⟨s, hBefore, hConsistent, _⟩ := Splitter.before_consistent filter hn
    exact ⟨s, hBefore, hConsistent.between, hConsistent.inQuote⟩
  · exact ⟨splitFilter filter, Splitter.run_eq filter, splitFilter_complete filter⟩

end Filters
