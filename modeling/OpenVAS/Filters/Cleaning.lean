import Mathlib.Data.List.Basic
import OpenVAS.Filters.Reading

/-! A cleaned filter is read as the filter it comes from, where its keywords are
printed so that they can be read again. -/
namespace Filters

open CString

/-- What is printed for a keyword with a column is read as the settled keyword. -/
theorem foldl_word_column (max : Int32) (parts : List Keyword) {keyword : Keyword}
    (hRead : keyword.Read) (h : keyword.Printable) {column : CString}
    (hColumn : keyword.column = some column) :
    (word max keyword).foldl Scan.step ⟨parts, none⟩ = Scan.behind parts (settled max keyword) := by
  have hRelation : keyword.relation ≠ .approx := by
    rw [ne_eq, hRead.relation, hColumn]
    exact nofun
  have hEqual : keyword.equal = false := by
    rw [Bool.eq_false_iff]
    intro hEq
    exact absurd (hColumn.symm.trans (h.equal hEq)) nofun
  have hName : Name false column := hEqual ▸ hRead.column column hColumn
  have hFront (value : CString) : (column ++ keyword.relation.symbol :: value).foldl Scan.step
      ⟨parts, none⟩ = value.foldl Scan.step
        ⟨parts, some ⟨keyword.column, keyword.relation, keyword.equal, false, []⟩⟩ := by
    rw [List.foldl_append, foldl_name parts hName, List.foldl_cons, hColumn, hEqual]
    exact congrArg (value.foldl Scan.step) (step_relation parts hRelation)
  have hOpen : keyword.column.isSome ∨ keyword.equal := .inl (by rw [hColumn]; rfl)
  have hNever : keyword.column = none → ∀ c ∈ keyword.string, relationOf c = none :=
    fun hNone => absurd (hColumn.symm.trans hNone) nofun
  rw [word_of_column hRelation hColumn, appendRelation, settled]
  by_cases hRows : column = lit "rows" ∧ keyword.string = lit "-2"
  · have hColumn' : keyword.column = some (lit "rows") := hRows.1 ▸ hColumn
    have hValue : (quoteIf false (showInt max.toInt)).foldl Scan.step
        ⟨parts, some ⟨keyword.column, keyword.relation, keyword.equal, false, []⟩⟩ =
        Scan.behind parts ⟨keyword.column, keyword.relation, showInt max.toInt, false,
          keyword.equal⟩ :=
      foldl_quoteIf parts hOpen nofun fun _ =>
        ⟨value_showInt max.toInt, fun hNone => absurd (hColumn.symm.trans hNone) nofun⟩
    rw [if_pos hRows, if_pos ⟨hColumn', hRows.2⟩, hFront, h.rows hColumn' hRows.2]
    exact hValue
  · rw [if_neg hRows, if_neg fun hSame => hRows ⟨Option.some.inj (hColumn.symm.trans hSame.1),
      hSame.2⟩, hFront]
    exact foldl_quoteIf parts hOpen hRead.quoted fun hBare => ⟨(hRead.bare hBare).1, hNever⟩

/-- So is what is printed for a keyword without one. -/
theorem foldl_word_term (max : Int32) (parts : List Keyword) {keyword : Keyword}
    (hRead : keyword.Read) (hColumn : keyword.column = none) :
    (word max keyword).foldl Scan.step ⟨parts, none⟩ = Scan.behind parts (settled max keyword) := by
  obtain ⟨column, relation, string, quoted, equal⟩ := keyword
  obtain rfl : column = none := hColumn
  obtain rfl : relation = .approx := hRead.relation.mpr rfl
  have hSettled : settled max ⟨none, .approx, string, quoted, equal⟩ =
      ⟨none, .approx, string, quoted, equal⟩ := if_neg fun hRows => nomatch hRows.1
  rw [hSettled]
  cases equal with
  | true =>
      have hStart : Scan.step ⟨parts, none⟩ (ch '=') =
          ⟨parts, some ⟨none, .approx, true, false, []⟩⟩ := rfl
      change (ch '=' :: quoteIf quoted string).foldl Scan.step _ = _
      rw [List.foldl_cons, hStart]
      exact foldl_quoteIf parts (.inr rfl) hRead.quoted fun hBare =>
        ⟨(hRead.bare hBare).1, fun _ => ((hRead.bare hBare).2 rfl).noRelation rfl⟩
  | false =>
      change (quoteIf quoted string).foldl Scan.step _ = _
      cases quoted with
      | true =>
          have hStart : Scan.step ⟨parts, none⟩ (ch '"') =
              ⟨parts, some ⟨none, .approx, false, true, []⟩⟩ := rfl
          have hTakes : Part.Takes ⟨none, .approx, false, true, []⟩ string :=
            ⟨fun _ => hRead.quoted rfl, nofun⟩
          change (ch '"' :: (string ++ [ch '"'])).foldl Scan.step _ = _
          rw [List.foldl_cons, hStart, List.foldl_append, foldl_of_takes hTakes]
          rfl
      | false => exact foldl_name parts ((hRead.bare rfl).2 rfl)

/-- A printed keyword is read as itself. -/
theorem foldl_word (max : Int32) (parts : List Keyword) {keyword : Keyword} (hRead : keyword.Read)
    (h : keyword.Printable) :
    (word max keyword).foldl Scan.step ⟨parts, none⟩ = Scan.behind parts (settled max keyword) := by
  cases hColumn : keyword.column with
  | none => exact foldl_word_term max parts hRead hColumn
  | some column => exact foldl_word_column max parts hRead h hColumn

/-! The keywords of a filter have an effect each, and say everything. -/

theorem isSort_settled (max : Int32) (keyword : Keyword) :
    (settled max keyword).column = keyword.column ∧
      (settled max keyword).relation = keyword.relation := by
  rw [settled]
  split
  · exact ⟨rfl, rfl⟩
  · exact ⟨rfl, rfl⟩

/-- Settling the rows changes nothing in which keywords apply. -/
theorem keywordApplies_settled (max : Int32) (parts : List Keyword) (keyword : Keyword) :
    keywordApplies (parts.map (settled max)) (settled max keyword) =
      keywordApplies parts keyword := by
  simp only [keywordApplies, List.any_map, Function.comp_def, isSort_settled]

theorem foldl_addKeyword_settled (max : Int32) (parts keywords : List Keyword) :
    (keywords.map (settled max)).foldl addKeyword (parts.map (settled max)) =
      (keywords.foldl addKeyword parts).map (settled max) := by
  induction keywords generalizing parts with
  | nil => rfl
  | cons keyword keywords ih =>
      have hStep : addKeyword (parts.map (settled max)) (settled max keyword) =
          (addKeyword parts keyword).map (settled max) := by
        rw [addKeyword, addKeyword, keywordApplies_settled]
        split
        · rw [List.map_append, List.map_singleton]
        · rfl
      rw [List.map_cons, List.foldl_cons, List.foldl_cons, hStep, ih]

/-- Every keyword has an effect behind those in front of it. -/
def Effective (parts : List Keyword) : Prop := parts.foldl addKeyword [] = parts

/-- Adding a keyword keeps the keywords effective. -/
theorem effective_addKeyword {parts : List Keyword} (h : Effective parts) (keyword : Keyword) :
    Effective (addKeyword parts keyword) := by
  rw [addKeyword]
  split
  · rename_i hApplies
    rw [Effective, List.foldl_append, h, List.foldl_cons, List.foldl_nil, addKeyword,
      if_pos hApplies]
  · exact h

theorem finish_eq_addKeyword (parts : List Keyword) (part : Part) (quoted : Bool) :
    Scan.finish parts part quoted =
      addKeyword parts ⟨part.column, part.relation, part.text, quoted, part.equal⟩ := rfl

theorem read_parts (parts : List Keyword) (part : Part) (c : UInt8) :
    (part.read parts c).parts = parts ∨
      ∃ keyword, (part.read parts c).parts = addKeyword parts keyword := by
  rw [Part.read]
  cases relationOf c with
  | some relation =>
      simp only
      split
      · exact .inl rfl
      · exact .inl rfl
  | none =>
      simp only
      split
      · split
        · exact .inl rfl
        · exact .inr ⟨_, finish_eq_addKeyword ..⟩
      · split
        · split
          · exact .inr ⟨_, finish_eq_addKeyword ..⟩
          · split
            · exact .inl rfl
            · exact .inl rfl
        · exact .inl rfl

/-- A byte adds at most one keyword. -/
theorem step_parts (scan : Scan) (c : UInt8) :
    (scan.step c).parts = scan.parts ∨
      ∃ keyword, (scan.step c).parts = addKeyword scan.parts keyword := by
  rw [Scan.step]
  cases scan.part with
  | none => exact .inl rfl
  | some part => exact read_parts scan.parts part c

/-- So the keywords stay effective along the filter, by induction on its bytes. -/
theorem foldl_step_effective {scan : Scan} (h : Effective scan.parts) (filter : CString) :
    Effective (filter.foldl Scan.step scan).parts := by
  induction filter generalizing scan with
  | nil => exact h
  | cons c filter ih =>
      apply ih
      rcases step_parts scan c with hSame | ⟨keyword, hAdd⟩
      · rw [hSame]
        exact h
      · rw [hAdd]
        exact effective_addKeyword h keyword

theorem scanFrom_effective {scan : Scan} (h : Effective scan.parts) (filter : CString) :
    Effective (scanFrom scan filter) := by
  have hParts := foldl_step_effective h filter
  rw [scanFrom, Scan.done]
  cases (filter.foldl Scan.step scan).part with
  | none => exact hParts
  | some part => exact effective_addKeyword hParts _

theorem effective_append_if {parts : List Keyword} (h : Effective parts) {present : Bool}
    {keyword : Keyword} (hApplies : present = false → keywordApplies parts keyword = true) :
    Effective (parts ++ if present then [] else [keyword]) := by
  cases present with
  | true => simpa using h
  | false =>
      have hAdd := effective_addKeyword h keyword
      rwa [addKeyword, if_pos (hApplies rfl)] at hAdd

theorem any_append_if {parts : List Keyword} {present : Bool} {keyword : Keyword}
    {p : Keyword → Bool} (h : p keyword = false) :
    (parts ++ if present then [] else [keyword]).any p = parts.any p := by
  cases present with
  | true => simp
  | false => simp [h]

theorem keywordApplies_of_absent {parts : List Keyword} {keyword : Keyword}
    (hSort : isSort keyword.column = false)
    (h : parts.any (fun item => item.column = keyword.column) = false) :
    keywordApplies parts keyword = true := by
  rw [keywordApplies, if_neg fun hBoth => by simp [hSort] at hBoth]
  apply List.all_eq_true.mpr
  intro column _
  by_cases hColumn : keyword.column = some column
  · rw [← hColumn, h]
    exact Bool.or_true _
  · simp [hColumn]

/-- The keywords that are added apply. -/
theorem effective_defaults {parts : List Keyword} (h : Effective parts) (empty : Bool) :
    Effective (parts ++ defaults parts empty) := by
  rw [defaults, ← List.append_assoc, ← List.append_assoc]
  refine effective_append_if (effective_append_if (effective_append_if h fun hNone => ?_)
    fun hNone => ?_) fun hNone => ?_
  · exact keywordApplies_of_absent rfl hNone
  · refine keywordApplies_of_absent rfl ?_
    rw [any_append_if rfl]
    exact hNone
  · rw [keywordApplies, if_pos ⟨rfl, rfl⟩, any_append_if, any_append_if, hNone]
    · rfl
    · rfl
    · rfl

/-- No keyword of a filter is put aside by one in front of it. -/
theorem splitFilter_effective (filter : CString) : Effective (splitFilter filter) := by
  have hNone : Effective ({} : Scan).parts := rfl
  exact effective_defaults (scanFrom_effective hNone filter) _

theorem any_append_default {parts : List Keyword} (before after : List Keyword)
    {p : Keyword → Bool} {keyword : Keyword} (h : p keyword = true) :
    (parts ++ (before ++ (if parts.any p then [] else [keyword]) ++ after)).any p = true := by
  cases hAny : parts.any p with
  | true => simp [hAny]
  | false => simp [h]

/-- The keywords that every filter has. -/
structure Total (keywords : List Keyword) : Prop where
  first : keywords.any (·.column = some (lit "first")) = true
  rows : keywords.any (·.column = some (lit "rows")) = true
  sort : keywords.any (isSort ·.column) = true

/-- To keywords that have all of them nothing is added. -/
theorem Total.defaults_eq {keywords : List Keyword} (h : Total keywords) (empty : Bool) :
    defaults keywords empty = [] := by
  rw [defaults, h.first, h.rows, h.sort]
  rfl

/-- A filter gives the first row, the number of rows and an order. -/
theorem splitFilter_total (filter : CString) : Total (splitFilter filter) := by
  rw [splitFilter]
  generalize scanFrom {} filter = parts
  simp only [defaults]
  refine ⟨?_, ?_, ?_⟩
  · rw [List.append_assoc]
    exact any_append_default [] _ rfl
  · exact any_append_default _ _ rfl
  · rw [← List.append_nil (_ ++ if parts.any (isSort ·.column) then [] else _)]
    exact any_append_default _ [] rfl

theorem Total.settled {keywords : List Keyword} (h : Total keywords) (max : Int32) :
    Total (keywords.map (settled max)) := by
  refine ⟨?_, ?_, ?_⟩
  · simpa only [List.any_map, Function.comp_def, isSort_settled] using h.first
  · simpa only [List.any_map, Function.comp_def, isSort_settled] using h.rows
  · simpa only [List.any_map, Function.comp_def, isSort_settled] using h.sort

/-! Printing and reading the whole list. -/

/-- The text of the keywords, before it is stripped. -/
def printed (max : Int32) (keywords : List Keyword) : CString :=
  keywords.flatMap fun keyword => ch ' ' :: word max keyword

/-- Cleaning prints the keywords of the filter and strips the blanks around. -/
theorem manageCleanFilter_eq (max : Int32) (filter : CString) :
    manageCleanFilter max (some filter) = gStrstrip (printed max (splitFilter filter)) := by
  have hAll : (splitFilter filter).filter (!removes none ·) = splitFilter filter := by
    apply List.filter_eq_self.mpr
    intro keyword _
    unfold removes
    cases keyword.column with
    | none => rfl
    | some column => rfl
  rw [manageCleanFilter, manageCleanFilterRemove]
  simp only [hAll]
  rfl

/-- The keywords are read one after the other, from a place where a blank ends what is
before. -/
theorem scanFrom_printed (max : Int32) {keywords : List Keyword}
    (hRead : ∀ keyword ∈ keywords, keyword.Read)
    (h : ∀ keyword ∈ keywords, keyword.Printable) {scan : Scan} {parts : List Keyword}
    (hBlank : scan.step (ch ' ') = ⟨parts, none⟩) (hDone : scan.done = parts) :
    scanFrom scan (printed max keywords) = (keywords.map (settled max)).foldl addKeyword parts := by
  induction keywords generalizing scan parts with
  | nil => exact hDone
  | cons keyword keywords ih =>
      have hWord := foldl_word max parts (hRead keyword List.mem_cons_self)
        (h keyword List.mem_cons_self)
      rw [printed, List.flatMap_cons, scanFrom, List.foldl_append, List.foldl_cons, hBlank, hWord]
      exact ih (fun other hOther => hRead other (List.mem_cons_of_mem _ hOther))
        (fun other hOther => h other (List.mem_cons_of_mem _ hOther))
        (behind_blank parts (settled max keyword)) (behind_done parts (settled max keyword))

def formFeed : UInt8 := 12

theorem gAsciiIsspace_eq (c : UInt8) : gAsciiIsspace c = (isBlank c || c = formFeed) := by
  have hAll : ∀ n < 256, gAsciiIsspace (UInt8.ofNat n) =
      (isBlank (UInt8.ofNat n) || UInt8.ofNat n = formFeed) := by decide +kernel
  have hValue := hAll c.toNat c.toNat_lt
  rwa [UInt8.ofNat_toNat] at hValue

theorem dropWhile_of_head? {text : CString} {p : UInt8 → Bool}
    (h : ∀ c ∈ text.head?, p c = false) : text.dropWhile p = text := by
  cases text with
  | nil => rfl
  | cons c text => exact List.dropWhile_cons_of_neg (by simpa using h c rfl)

/-- Only the blank in front is stripped. -/
theorem gStrstrip_blank_cons {text : CString} (hHead : ∀ c ∈ text.head?, gAsciiIsspace c = false)
    (hLast : ∀ c ∈ text.getLast?, gAsciiIsspace c = false) : gStrstrip (ch ' ' :: text) = text := by
  have hBlank : gAsciiIsspace (ch ' ') = true := rfl
  rw [gStrstrip, List.dropWhile_cons_of_pos hBlank, dropWhile_of_head? hHead, dropWhile_of_head?,
    List.reverse_reverse]
  rwa [List.head?_reverse]

/-- What a filter needs for its keywords to be read again from the cleaned filter. -/
structure Printable (max : Int32) (keywords : List Keyword) : Prop where
  each : ∀ keyword ∈ keywords, keyword.Printable
  front : ∀ keyword ∈ keywords.head?, (word max keyword).head? ≠ some formFeed
  back : ∀ keyword ∈ keywords.getLast?, (word max keyword).getLast? ≠ some formFeed

theorem not_blank_symbol {relation : Relation} (h : relation ≠ .approx) :
    isBlank relation.symbol = false :=
  (not_blank_of_relation (relationOf_symbol h)).1

theorem not_blank_quote : isBlank (ch '"') = false := by decide

/-- A text without a blank at its ends. -/
structure Ends (text : CString) : Prop where
  head : ∀ c ∈ text.head?, isBlank c = false
  last : ∀ c ∈ text.getLast?, isBlank c = false

theorem ends_of_value {text : CString} (h : Value text) : Ends text :=
  ⟨fun c hc => h.noBlank c (List.mem_of_mem_head? hc),
    fun c hc => h.noBlank c (List.mem_of_mem_getLast? hc)⟩

theorem ends_quoteIf {quoted : Bool} {string : CString} (hBare : quoted = false → Value string) :
    Ends (quoteIf quoted string) := by
  cases quoted with
  | true =>
      refine ⟨fun c hc => ?_, fun c hc => ?_⟩
      · obtain rfl := Option.some.inj hc
        exact not_blank_quote
      · rw [quoteIf, if_pos rfl, List.getLast?_append] at hc
        obtain rfl := Option.some.inj hc
        exact not_blank_quote
  | false => exact ends_of_value (hBare rfl)

theorem ends_append_cons {front back : CString} {c : UInt8}
    (hFront : ∀ x ∈ front, isBlank x = false) (hc : isBlank c = false) (hBack : Ends back) :
    Ends (front ++ c :: back) := by
  refine ⟨fun x hx => ?_, fun x hx => ?_⟩
  · cases front with
    | nil =>
        obtain rfl := Option.some.inj hx
        exact hc
    | cons a front =>
        obtain rfl := Option.some.inj hx
        exact hFront a List.mem_cons_self
  · rw [List.getLast?_append, List.getLast?_cons] at hx
    cases hLast : back.getLast? with
    | none =>
        rw [hLast] at hx
        obtain rfl := Option.some.inj hx
        exact hc
    | some y =>
        rw [hLast] at hx
        obtain rfl := Option.some.inj hx
        exact hBack.last y hLast

theorem word_ne_nil (max : Int32) {keyword : Keyword} (h : keyword.Read) : word max keyword ≠ [] := by
  cases hColumn : keyword.column with
  | some column =>
      have hRelation : keyword.relation ≠ .approx := by
        rw [ne_eq, h.relation, hColumn]
        exact nofun
      rw [word_of_column hRelation hColumn, appendRelation]
      split
      · simp
      · simp
  | none =>
      rw [word, hColumn]
      simp only
      cases hEqual : keyword.equal with
      | true => simp [lit]
      | false =>
          cases hQuoted : keyword.quoted with
          | true => simp [quoteIf]
          | false =>
              have hName := (h.bare hQuoted).2 hColumn
              rw [hEqual] at hName
              exact (hName.nonempty rfl).1

/-- What is printed for a keyword has no blank at its ends. -/
theorem word_ends (max : Int32) {keyword : Keyword} (h : keyword.Read) : Ends (word max keyword) := by
  have hValue : Ends (quoteIf keyword.quoted keyword.string) :=
    ends_quoteIf fun hBare => (h.bare hBare).1
  cases hColumn : keyword.column with
  | some column =>
      have hRelation : keyword.relation ≠ .approx := by
        rw [ne_eq, h.relation, hColumn]
        exact nofun
      have hName := (h.column column hColumn).noBlank
      rw [word_of_column hRelation hColumn, appendRelation]
      split
      · exact ends_append_cons hName (not_blank_symbol hRelation)
          (ends_of_value (value_showInt max.toInt))
      · exact ends_append_cons hName (not_blank_symbol hRelation) hValue
  | none =>
      rw [word, hColumn]
      simp only
      cases keyword.equal with
      | true => exact ends_append_cons (List.forall_mem_nil _) (by decide) hValue
      | false => exact hValue

theorem not_isspace {c : UInt8} (hBlank : isBlank c = false) (hFeed : c ≠ formFeed) :
    gAsciiIsspace c = false := by
  rw [gAsciiIsspace_eq, hBlank, decide_eq_false hFeed]
  rfl

theorem getLast?_printed (max : Int32) (keywords : List Keyword) {keyword : Keyword}
    (hRead : keyword.Read) :
    (printed max (keywords ++ [keyword])).getLast? = (word max keyword).getLast? := by
  obtain ⟨c, rest, hWord⟩ := List.exists_cons_of_ne_nil (word_ne_nil max hRead)
  rw [printed, List.flatMap_append, List.flatMap_singleton, List.getLast?_append, hWord,
    List.getLast?_cons_cons, List.getLast?_cons]
  rfl

/-- The cleaned filter is what was printed, without the blank in front. -/
theorem gStrstrip_printed (max : Int32) {keyword : Keyword} {keywords : List Keyword}
    (hRead : ∀ item ∈ keyword :: keywords, item.Read) (h : Printable max (keyword :: keywords)) :
    gStrstrip (printed max (keyword :: keywords)) = word max keyword ++ printed max keywords := by
  have hFirst := hRead keyword List.mem_cons_self
  have hPrinted : printed max (keyword :: keywords) =
      ch ' ' :: (word max keyword ++ printed max keywords) := by
    rw [printed, List.flatMap_cons]
    rfl
  rw [hPrinted]
  apply gStrstrip_blank_cons
  · intro c hc
    obtain ⟨a, rest, hWord⟩ := List.exists_cons_of_ne_nil (word_ne_nil max hFirst)
    have hHead : (word max keyword).head? = some c := by
      rw [hWord] at hc ⊢
      exact hc
    exact not_isspace ((word_ends max hFirst).head c hHead)
      fun hFeed => h.front keyword rfl (hFeed ▸ hHead)
  · intro c hc
    obtain ⟨front, last, hSplit⟩ : ∃ front last, keyword :: keywords = front ++ [last] :=
      ⟨_, _, (List.dropLast_concat_getLast (List.cons_ne_nil _ _)).symm⟩
    have hLastMem : last ∈ keyword :: keywords := by
      rw [hSplit]
      exact List.mem_append_right _ (List.mem_singleton_self _)
    have hLast : (word max last).getLast? = some c := by
      rw [← getLast?_printed max front (hRead last hLastMem), ← hSplit, hPrinted]
      rw [List.getLast?_cons, hc]
      rfl
    refine not_isspace ((word_ends max (hRead last hLastMem)).last c hLast) fun hFeed => ?_
    refine h.back last ?_ (hFeed ▸ hLast)
    rw [hSplit, List.getLast?_append]
    rfl

/-- A cleaned filter is read as the filter it comes from. -/
theorem splitFilter_manageCleanFilter {max : Int32} {filter : CString}
    (h : Printable max (splitFilter filter)) :
    splitFilter (manageCleanFilter max (some filter)) =
      (splitFilter filter).map (settled max) := by
  have hRead := splitFilter_read filter
  have hTotal := splitFilter_total filter
  have hEffective := splitFilter_effective filter
  rw [manageCleanFilter_eq]
  cases hKeywords : splitFilter filter with
  | nil =>
      rw [hKeywords] at hTotal
      exact absurd hTotal.first (by simp)
  | cons keyword keywords =>
      rw [hKeywords] at h hRead hTotal hEffective
      have hScan : scanFrom {} (word max keyword ++ printed max keywords) =
          (keyword :: keywords).map (settled max) := by
        have hAll : scanFrom {} (printed max (keyword :: keywords)) =
            ((keyword :: keywords).map (settled max)).foldl addKeyword ([].map (settled max)) :=
          scanFrom_printed max hRead h.each rfl rfl
        rw [foldl_addKeyword_settled, hEffective] at hAll
        exact hAll
      rw [gStrstrip_printed max hRead h, splitFilter, hScan]
      simp only [(hTotal.settled max).defaults_eq, List.append_nil]

theorem showInt_ne_minus_two {max : Int32} (h : max ≠ -2) : showInt max.toInt ≠ lit "-2" := by
  intro hSame
  apply h
  rw [← atoi_showInt_self max, hSame]
  decide

/-- A settled keyword is printed as the keyword is. -/
theorem word_settled {max : Int32} (hMax : max ≠ -2) {keyword : Keyword} (hRead : keyword.Read)
    (h : keyword.Printable) : word max (settled max keyword) = word max keyword := by
  rw [settled]
  split
  · rename_i hRows
    have hRelation : keyword.relation ≠ .approx := by
      rw [ne_eq, hRead.relation, hRows.1]
      exact nofun
    have hSettled : word max { keyword with string := showInt max.toInt } =
        appendRelation max (lit "rows") { keyword with string := showInt max.toInt }
          keyword.relation.symbol := word_of_column hRelation hRows.1
    rw [hSettled, word_of_column hRelation hRows.1, appendRelation, appendRelation,
      if_neg fun hSame => showInt_ne_minus_two hMax hSame.2, if_pos ⟨rfl, hRows.2⟩,
      h.rows hRows.1 hRows.2]
    rfl
  · rfl

/-- And so are settled keywords. -/
theorem printed_settled {max : Int32} (hMax : max ≠ -2) {keywords : List Keyword}
    (hRead : ∀ keyword ∈ keywords, keyword.Read)
    (h : ∀ keyword ∈ keywords, keyword.Printable) :
    printed max (keywords.map (settled max)) = printed max keywords := by
  rw [printed, List.flatMap_map, printed]
  apply List.flatMap_congr
  intro keyword hKeyword
  rw [word_settled hMax (hRead keyword hKeyword) (h keyword hKeyword)]

/-- Cleaning a cleaned filter changes nothing. -/
theorem manageCleanFilter_idempotent {max : Int32} (hMax : max ≠ -2) {filter : CString}
    (h : Printable max (splitFilter filter)) :
    manageCleanFilter max (some (manageCleanFilter max (some filter))) =
      manageCleanFilter max (some filter) := by
  rw [manageCleanFilter_eq, splitFilter_manageCleanFilter h,
    printed_settled hMax (splitFilter_read filter) h.each, ← manageCleanFilter_eq]

end Filters
