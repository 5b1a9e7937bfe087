import OpenVAS.Filters.Weights

/-! The second reading of a filter adds no keywords of its own, so that a cleaned filter
is read as it was exactly where it can be printed. -/
namespace Filters

open CString

/-- Whether the reader is between two quotes. -/
def Scan.inQuote (scan : Scan) : Bool := scan.part.any (·.inQuote)

theorem inQuote_eq_true {scan : Scan} :
    scan.inQuote = true ↔ ∃ part, scan.part = some part ∧ part.inQuote = true := by
  rw [Scan.inQuote]
  cases scan.part with
  | none => simp
  | some part => simp

/-- A blank outside of quotes ends a part. -/
theorem step_blank {scan : Scan} (h : scan.inQuote = false) :
    scan.step (ch ' ') = ⟨scan.done, none⟩ := by
  obtain ⟨parts, part⟩ := scan
  cases part with
  | none => rfl
  | some part =>
      obtain ⟨column, relation, equal, inQuote, text⟩ := part
      obtain rfl : inQuote = false := h
      rfl

/-- The printed keywords are read back as settled ones, by induction on the keywords. -/
theorem foldl_printed (max : Int32) {keywords : List Keyword} {last : Keyword}
    (hRead : ∀ keyword ∈ keywords ++ [last], keyword.Read)
    (h : ∀ keyword ∈ keywords ++ [last], keyword.Printable) {scan : Scan} {parts : List Keyword}
    (hBlank : scan.step (ch ' ') = ⟨parts, none⟩) :
    (printed max (keywords ++ [last])).foldl Scan.step scan =
      Scan.behind ((keywords.map (settled max)).foldl addKeyword parts) (settled max last) := by
  induction keywords generalizing scan parts with
  | nil =>
      have hWord := foldl_word max parts (hRead last List.mem_cons_self)
        (h last List.mem_cons_self)
      rw [List.nil_append, printed, List.flatMap_singleton, List.foldl_cons, hBlank]
      exact hWord
  | cons keyword keywords ih =>
      have hWord := foldl_word max parts (hRead keyword List.mem_cons_self)
        (h keyword List.mem_cons_self)
      rw [List.cons_append, printed, List.flatMap_cons, List.foldl_append, List.foldl_cons, hBlank,
        hWord]
      exact ih (fun other hOther => hRead other (List.mem_cons_of_mem _ hOther))
        (fun other hOther => h other (List.mem_cons_of_mem _ hOther))
        (behind_blank parts (settled max keyword))

/-- Between two quotes a text without quotes is taken as it is. -/
theorem foldl_inQuote {scan : Scan} {part : Part} (hPart : scan.part = some part)
    (hIn : part.inQuote = true) {text : CString} (hText : ch '"' ∉ text) :
    text.foldl Scan.step scan = ⟨scan.parts, some { part with text := part.text ++ text }⟩ := by
  obtain ⟨parts, scanned⟩ := scan
  obtain rfl : scanned = some part := hPart
  exact foldl_of_takes ⟨fun _ => hText, fun hOut => absurd hIn (by simp [hOut])⟩

/-- A quote that opens stands at the beginning of a value. -/
theorem step_quote_opens {scan : Scan} {part : Part}
    (h : (scan.step (ch '"')).part = some part) (hIn : part.inQuote = true) :
    scan.inQuote = false ∧ part.text = [] ∧ ∀ before ∈ scan.part, before.text = [] := by
  obtain ⟨parts, before⟩ := scan
  cases before with
  | none =>
      obtain rfl : _ = part := Option.some.inj h
      exact ⟨rfl, rfl, fun before hBefore => absurd hBefore (Option.not_mem_none before)⟩
  | some before =>
      have hRelation : relationOf (ch '"') = none := by decide
      simp only [step_some, Part.read, hRelation, not_blank_quote, Bool.false_eq_true, if_false,
        if_true] at h
      split at h
      · cases h
      · rename_i hOut
        split at h
        · rename_i hOpen
          obtain rfl := Option.some.inj h
          refine ⟨Bool.eq_false_iff.mpr hOut, hOpen.1, fun other hOther => ?_⟩
          obtain rfl := Option.some.inj hOther
          exact hOpen.1
        · obtain rfl := Option.some.inj h
          exact absurd hIn hOut

theorem any_addKeyword {parts : List Keyword} {p : Keyword → Bool} (h : parts.any p = true)
    (keyword : Keyword) : (addKeyword parts keyword).any p = true := by
  rw [addKeyword]
  split
  · rw [List.any_append, h]
    rfl
  · exact h

theorem any_foldl_addKeyword {parts : List Keyword} {p : Keyword → Bool} (h : parts.any p = true)
    (keywords : List Keyword) : (keywords.foldl addKeyword parts).any p = true := by
  induction keywords generalizing parts with
  | nil => exact h
  | cons keyword keywords ih => exact ih (any_addKeyword h keyword)

/-- A keyword that is left out has another one in its place. -/
theorem any_foldl_of_mem {keywords parts : List Keyword} {keyword : Keyword} {p : Keyword → Bool}
    (hMem : keyword ∈ keywords) (hKeyword : p keyword = true)
    (hLeft : ∀ others, keywordApplies others keyword = false → others.any p = true) :
    (keywords.foldl addKeyword parts).any p = true := by
  induction keywords generalizing parts with
  | nil => cases hMem
  | cons first keywords ih =>
      rcases List.mem_cons.mp hMem with rfl | hMem
      · have hAdded : (addKeyword parts keyword).any p = true := by
          rw [addKeyword]
          split
          · simp [hKeyword]
          · rename_i hNot
            exact hLeft parts (Bool.eq_false_iff.mpr hNot)
        exact any_foldl_addKeyword hAdded keywords
      · exact ih hMem

theorem settled_rows_ne {max : Int32} (hMax : max ≠ -2) {keyword : Keyword}
    (h : keyword.column = some (lit "rows")) : (settled max keyword).string ≠ lit "-2" := by
  rw [settled]
  split
  · exact showInt_ne_minus_two hMax
  · rename_i hNot
    exact fun hString => hNot ⟨h, hString⟩

/-- The relation of a keyword is no white space. -/
theorem exists_solid (max : Int32) {keywords : List Keyword} {keyword : Keyword}
    (hMem : keyword ∈ keywords) (hRead : keyword.Read) (hColumn : keyword.column ≠ none) :
    ∃ c ∈ printed max keywords, gAsciiIsspace c = false := by
  obtain ⟨column, hColumn⟩ := Option.ne_none_iff_exists'.mp hColumn
  have hRelation : keyword.relation ≠ .approx := by
    rw [ne_eq, hRead.relation, hColumn]
    exact nofun
  refine ⟨keyword.relation.symbol, List.mem_flatMap.mpr ⟨keyword, hMem, ?_⟩, ?_⟩
  · rw [word_of_column hRelation hColumn, appendRelation]
    apply List.mem_cons_of_mem
    split
    · exact List.mem_append_right _ List.mem_cons_self
    · exact List.mem_append_right _ List.mem_cons_self
  · apply not_isspace (not_blank_symbol hRelation)
    cases hKind : keyword.relation with
    | approx => exact absurd hKind hRelation
    | columnAbove => decide
    | columnApprox => decide
    | columnEqual => decide
    | columnBelow => decide
    | columnRegexp => decide

theorem dropWhile_ne_nil {text : CString} {c : UInt8} (hMem : c ∈ text)
    (h : gAsciiIsspace c = false) : text.dropWhile gAsciiIsspace ≠ [] := by
  intro hNil
  exact absurd (List.dropWhile_eq_nil_iff.mp hNil c hMem) (by simp [h])

theorem gStrstrip_ne_nil {text : CString} {c : UInt8} (hMem : c ∈ text)
    (h : gAsciiIsspace c = false) : gStrstrip text ≠ [] := by
  intro hNil
  have hBack : (text.dropWhile gAsciiIsspace).reverse.dropWhile gAsciiIsspace = [] :=
    List.reverse_eq_nil_iff.mp hNil
  obtain ⟨d, rest, hRest⟩ := List.exists_cons_of_ne_nil (dropWhile_ne_nil hMem h)
  have hSpace := List.dropWhile_eq_nil_iff.mp hBack d
    (List.mem_reverse.mpr (by rw [hRest]; exact List.mem_cons_self))
  have hSolid := List.head?_dropWhile_not gAsciiIsspace text
  rw [hRest] at hSolid
  simp [hSpace] at hSolid

theorem dropWhile_append_cons {front rest : CString} {c : UInt8} (h : gAsciiIsspace c = false) :
    (front ++ c :: rest).dropWhile gAsciiIsspace = front.dropWhile gAsciiIsspace ++ c :: rest := by
  rw [List.dropWhile_append]
  split
  · rename_i hEmpty
    rw [List.isEmpty_iff.mp hEmpty, List.dropWhile_cons_of_neg (by simp [h])]
    rfl
  · rfl

/-- What is printed for a quoted keyword ends with its string in quotes. -/
theorem word_quoted (max : Int32) {keyword : Keyword} (hRead : keyword.Read)
    (hQuoted : keyword.quoted = true)
    (hRows : ¬ (keyword.column = some (lit "rows") ∧ keyword.string = lit "-2")) :
    ∃ front, word max keyword = front ++ ch '"' :: (keyword.string ++ [ch '"']) := by
  cases hColumn : keyword.column with
  | none =>
      refine ⟨if keyword.equal then lit "=" else [], ?_⟩
      rw [word, hColumn, quoteIf, if_pos hQuoted]
      rfl
  | some column =>
      have hRelation : keyword.relation ≠ .approx := by
        rw [ne_eq, hRead.relation, hColumn]
        exact Option.some_ne_none column
      refine ⟨column ++ [keyword.relation.symbol], ?_⟩
      have hPlain : ¬ (column = lit "rows" ∧ keyword.string = lit "-2") :=
        fun hBoth => hRows ⟨hColumn.trans (congrArg some hBoth.1), hBoth.2⟩
      rw [word_of_column hRelation hColumn, appendRelation, if_neg hPlain, quoteIf, if_pos hQuoted]
      simp

/-- The keywords that a second reading can add: the rows are always printed. -/
def Added (keywords : List Keyword) : Prop :=
  ∀ keyword ∈ keywords, keyword = defaultKeyword (lit "first") (lit "1") ∨
    keyword = defaultKeyword (lit "sort") (lit "name")

namespace Added

variable {keywords : List Keyword} (h : Added keywords)
include h

/-- The keywords that are added are such as a filter gives. -/
theorem read : ∀ keyword ∈ keywords, keyword.Read := by
  intro keyword hKeyword
  rcases h keyword hKeyword with rfl | rfl
  · exact defaultKeyword_read (by decide) (by decide)
  · exact defaultKeyword_read (by decide) (by decide)

/-- And they can be printed. -/
theorem printable : ∀ keyword ∈ keywords, keyword.Printable := by
  intro keyword hKeyword
  rcases h keyword hKeyword with rfl | rfl
  · exact ⟨nofun, fun _ _ => rfl⟩
  · exact ⟨nofun, fun _ _ => rfl⟩

/-- Their rows are settled. -/
theorem map_settled (max : Int32) : keywords.map (settled max) = keywords := by
  apply (List.map_congr_left (g := id) fun keyword hKeyword => ?_).trans (List.map_id _)
  rcases h keyword hKeyword with rfl | rfl
  · rfl
  · rfl

theorem noQuote (max : Int32) : ch '"' ∉ printed max keywords := by
  intro hMem
  obtain ⟨keyword, hKeyword, hMem⟩ := List.mem_flatMap.mp hMem
  have hFirst : word max (defaultKeyword (lit "first") (lit "1")) = lit "first=1" := rfl
  have hSort : word max (defaultKeyword (lit "sort") (lit "name")) = lit "sort=name" := rfl
  rcases h keyword hKeyword with rfl | rfl
  · rw [hFirst] at hMem
    exact absurd hMem (by decide)
  · rw [hSort] at hMem
    exact absurd hMem (by decide)

/-- Behind the keywords the reader is in the value of the last one. -/
theorem foldl_printed_text (max : Int32) (hNonempty : keywords ≠ []) {scan : Scan}
    (hOut : scan.inQuote = false) :
    ∃ part, ((printed max keywords).foldl Scan.step scan).part = some part ∧ part.text ≠ [] := by
  obtain ⟨front, last, rfl⟩ : ∃ front last, keywords = front ++ [last] :=
    ⟨_, _, (List.dropLast_concat_getLast hNonempty).symm⟩
  rw [foldl_printed max h.read h.printable (step_blank hOut)]
  rcases h last (List.mem_append_right _ List.mem_cons_self) with rfl | rfl
  · exact ⟨_, rfl, nofun⟩
  · exact ⟨_, rfl, nofun⟩

end Added

theorem blank_not_mem_showInt (i : Int) : ch ' ' ∉ showInt i :=
  not_mem_showInt (by decide) (by decide) i

/-- A keyword that is settled keeps a value with a blank. -/
theorem eq_of_settled {max : Int32} {keyword other : Keyword} (h : settled max keyword = other)
    (hBlank : ch ' ' ∈ other.string) : keyword = other := by
  rw [settled] at h
  split at h
  · subst h
    exact absurd hBlank (blank_not_mem_showInt max.toInt)
  · exact h

namespace Added

variable {max : Int32} {keywords added : List Keyword}

theorem blank_mem (hNonempty : added ≠ []) : ch ' ' ∈ printed max added := by
  obtain ⟨first, rest, rfl⟩ := List.exists_cons_of_ne_nil hNonempty
  exact List.mem_cons_self

/-- The keywords that are added do not end in the quotes of one that is left out: there
is too little text for it. -/
theorem inQuote_applies (hAdded : Added added) (hRead : ∀ keyword ∈ keywords, keyword.Read)
    {scan : Scan} {part : Part}
    (hFold : ((printed max keywords).dropWhile gAsciiIsspace).foldl Scan.step {} = scan)
    (hPart : scan.part = some part) (hIn : part.inQuote = true)
    (hScan : scanFrom {} ((printed max keywords).dropWhile gAsciiIsspace ++ printed max added) =
      keywords.map (settled max)) :
    scan.parts ++ [⟨part.column, part.relation, part.text ++ printed max added, true, part.equal⟩] =
      keywords.map (settled max) := by
  rw [scanFrom, List.foldl_append, hFold, foldl_inQuote hPart hIn (hAdded.noQuote max)] at hScan
  simp only [Scan.done, Scan.finish, hIn] at hScan
  split at hScan
  · exact hScan
  · have hText := foldl_step_weight {} ((printed max keywords).dropWhile gAsciiIsspace)
    have hNone : ({} : Scan).weight = 0 := rfl
    have hSplit : textWeight (printed max keywords) =
        textWeight ((printed max keywords).takeWhile gAsciiIsspace) +
          textWeight ((printed max keywords).dropWhile gAsciiIsspace) := by
      rw [← textWeight_append, List.takeWhile_append_dropWhile]
    have hPrinted := (printed_weight max hRead).1
    have hOne : 1 ≤ part.weight := by
      rw [Part.weight, if_pos hIn]
      omega
    have hWeight : scan.weight = listWeight scan.parts + part.weight := by
      rw [Scan.weight, hPart]
    rw [hFold] at hText
    rw [← hScan] at hPrinted
    omega

/-- What stands in front of the keywords that are added leaves no quote open. -/
theorem not_inQuote (hAdded : Added added) (hNonempty : added ≠ [])
    (hRead : ∀ keyword ∈ keywords, keyword.Read)
    (hScan : scanFrom {} ((printed max keywords).dropWhile gAsciiIsspace ++ printed max added) =
      keywords.map (settled max)) :
    (((printed max keywords).dropWhile gAsciiIsspace).foldl Scan.step {}).inQuote = false := by
  by_contra hOpen
  obtain ⟨part, hPart, hIn⟩ := inQuote_eq_true.mp (eq_true_of_ne_false hOpen)
  have hLast := hAdded.inQuote_applies hRead rfl hPart hIn hScan
  obtain ⟨front, back, rfl, -, hBack⟩ := List.map_eq_append_iff.mp hLast.symm
  obtain ⟨last, rfl, hSettled⟩ := List.map_eq_singleton_iff.mp hBack
  have hBlank : ch ' ' ∈ part.text ++ printed max added :=
    List.mem_append_right _ (blank_mem hNonempty)
  have hKeyword := eq_of_settled hSettled hBlank
  have hLastRead := hRead last (List.mem_append_right _ List.mem_cons_self)
  have hValue : last.string = part.text ++ printed max added := congrArg Keyword.string hKeyword
  have hNotRows : ¬ (last.column = some (lit "rows") ∧ last.string = lit "-2") := by
    intro hRows
    rw [← hValue, hRows.2] at hBlank
    exact absurd hBlank (by decide)
  obtain ⟨before, hWord⟩ := word_quoted max hLastRead (congrArg Keyword.quoted hKeyword) hNotRows
  have hPrinted : printed max (front ++ [last]) =
      (printed max front ++ ch ' ' :: before) ++ ch '"' :: (last.string ++ [ch '"']) := by
    rw [printed, List.flatMap_append, List.flatMap_singleton, hWord, printed]
    simp
  have hSolid : gAsciiIsspace (ch '"') = false := by decide
  rw [hPrinted, dropWhile_append_cons hSolid, ← List.cons_append, ← List.append_assoc,
    List.foldl_append, List.foldl_cons, List.foldl_nil] at hPart
  -- the quote at the end of the last keyword is the one that opens
  obtain ⟨hOut, hNil, hEmpty⟩ := step_quote_opens hPart hIn
  have hString : last.string = printed max added := by
    rw [hValue, hNil]
    rfl
  rw [hString, List.foldl_append, List.foldl_cons] at hOut hEmpty
  generalize Scan.step _ _ = scan at hOut hEmpty
  cases hQuote : scan.inQuote with
  | true =>
      obtain ⟨held, hHeld, hIn'⟩ := inQuote_eq_true.mp hQuote
      rw [foldl_inQuote hHeld hIn' (hAdded.noQuote max)] at hOut
      exact absurd hOut (by simp [Scan.inQuote, hIn'])
  | false =>
      obtain ⟨value, hValue, hText⟩ := hAdded.foldl_printed_text max hNonempty hQuote
      exact hText (hEmpty value hValue)

/-- The keywords that are added were there already. -/
theorem present (hAdded : Added added) (hNonempty : added ≠ [])
    (hRead : ∀ keyword ∈ keywords, keyword.Read)
    (hScan : scanFrom {} ((printed max keywords).dropWhile gAsciiIsspace ++ printed max added) =
      keywords.map (settled max)) {keyword : Keyword} (hMem : keyword ∈ added)
    {p : Keyword → Bool} (hKeyword : p keyword = true)
    (hLeft : ∀ others, keywordApplies others keyword = false → others.any p = true) :
    (keywords.map (settled max)).any p = true := by
  have hOut := hAdded.not_inQuote hNonempty hRead hScan
  rw [scanFrom, List.foldl_append] at hScan
  change scanFrom _ (printed max added) = _ at hScan
  rw [scanFrom_printed max hAdded.read hAdded.printable (step_blank hOut) rfl,
    hAdded.map_settled max] at hScan
  rw [← hScan]
  exact any_foldl_of_mem hMem hKeyword hLeft

theorem of_map_settled (h : Added (added.map (settled max))) : Added added := by
  intro keyword hKeyword
  have hSettled := h (settled max keyword) (List.mem_map_of_mem hKeyword)
  have hColumn := (isSort_settled max keyword).1
  have hSame : settled max keyword = keyword := by
    rw [settled]
    apply if_neg
    intro hRows
    rw [hRows.1] at hColumn
    rcases hSettled with hSettled | hSettled
    · rw [hSettled] at hColumn
      exact absurd hColumn (by decide)
    · rw [hSettled] at hColumn
      exact absurd hColumn (by decide)
  rwa [hSame] at hSettled

/-- They are printed with no blank at the end. -/
theorem last_solid (hAdded : Added added) :
    ∀ c ∈ (printed max added).getLast?, gAsciiIsspace c = false := by
  intro c hc
  rcases List.eq_nil_or_concat' added with rfl | ⟨front, last, rfl⟩
  · cases hc
  · have hLast : last ∈ front ++ [last] := List.mem_append_right _ List.mem_cons_self
    rw [getLast?_printed max front (hAdded.read last hLast)] at hc
    have hFirst : word max (defaultKeyword (lit "first") (lit "1")) = lit "first=1" := rfl
    have hSort : word max (defaultKeyword (lit "sort") (lit "name")) = lit "sort=name" := rfl
    rcases hAdded last hLast with rfl | rfl
    · rw [hFirst] at hc
      obtain rfl := Option.some.inj hc
      decide
    · rw [hSort] at hc
      obtain rfl := Option.some.inj hc
      decide

end Added

theorem gStrstrip_append {front back : CString} {c : UInt8} (hMem : c ∈ front)
    (hSolid : gAsciiIsspace c = false) (hNonempty : back ≠ [])
    (hLast : ∀ d ∈ back.getLast?, gAsciiIsspace d = false) :
    gStrstrip (front ++ back) = front.dropWhile gAsciiIsspace ++ back := by
  have hDrop : (front ++ back).dropWhile gAsciiIsspace = front.dropWhile gAsciiIsspace ++ back := by
    rw [List.dropWhile_append, if_neg]
    intro hEmpty
    exact dropWhile_ne_nil hMem hSolid (List.isEmpty_iff.mp hEmpty)
  have hBack : ∀ d ∈ (front.dropWhile gAsciiIsspace ++ back).reverse.head?,
      gAsciiIsspace d = false := by
    intro d hd
    apply hLast d
    obtain ⟨rest, last, rfl⟩ : ∃ rest last, back = rest ++ [last] :=
      ⟨_, _, (List.dropLast_concat_getLast hNonempty).symm⟩
    simpa using hd
  rw [gStrstrip, hDrop, dropWhile_of_head? hBack, List.reverse_reverse]

/-- Behind the number of rows, the keywords that are added are these. -/
theorem added_defaults {parts : List Keyword}
    (hRows : parts.any (·.column = some (lit "rows")) = true) (empty : Bool) :
    Added (defaults parts empty) := by
  intro keyword hKeyword
  rw [defaults, hRows, if_pos rfl, List.append_nil] at hKeyword
  rcases List.mem_append.mp hKeyword with hFirst | hSort
  · split at hFirst
    · cases hFirst
    · exact .inl (List.mem_singleton.mp hFirst)
  · split at hSort
    · cases hSort
    · exact .inr (List.mem_singleton.mp hSort)

theorem gStrstrip_printed_ne_nil (max : Int32) {keywords : List Keyword}
    (hRead : ∀ keyword ∈ keywords, keyword.Read) (hTotal : Total keywords) :
    gStrstrip (printed max keywords) ≠ [] := by
  obtain ⟨keyword, hKeyword, hRows⟩ := List.any_eq_true.mp hTotal.rows
  obtain ⟨c, hMem, hSolid⟩ := exists_solid max hKeyword (hRead keyword hKeyword) fun hNone => by
    simp [hNone] at hRows
  exact gStrstrip_ne_nil hMem hSolid

/-- The rows are not added by the second reading: what is added then is never printed. -/
theorem rows_of_settled {max : Int32} (hMax : max ≠ -2) {keywords parts : List Keyword}
    (h : parts ++ defaults parts false = keywords.map (settled max)) :
    parts.any (·.column = some (lit "rows")) = true := by
  by_contra hNone
  have hDefault : defaultKeyword (lit "rows") (lit "-2") ∈ keywords.map (settled max) := by
    rw [← h, defaults, if_neg hNone]
    simp
  obtain ⟨keyword, -, hKeyword⟩ := List.mem_map.mp hDefault
  have hColumn : keyword.column = some (lit "rows") := by
    rw [← (isSort_settled max keyword).1, hKeyword]
    rfl
  exact settled_rows_ne hMax hColumn (by rw [hKeyword]; rfl)

/-- Stripping takes nothing from the keywords that are added. -/
theorem gStrstrip_printed_append {max : Int32} {keywords added : List Keyword}
    (hRead : ∀ keyword ∈ keywords, keyword.Read) (hAdded : Added added) (hNonempty : added ≠ [])
    (hRows : (keywords.map (settled max)).any (·.column = some (lit "rows")) = true) :
    gStrstrip (printed max (keywords ++ added)) =
      (printed max keywords).dropWhile gAsciiIsspace ++ printed max added := by
  rw [List.any_map] at hRows
  obtain ⟨keyword, hKeyword, hColumn⟩ := List.any_eq_true.mp hRows
  obtain ⟨c, hMem, hSolid⟩ := exists_solid max hKeyword (hRead keyword hKeyword)
    fun hNone => by simp [isSort_settled, hNone] at hColumn
  have hBlank : ch ' ' ∈ printed max added := Added.blank_mem hNonempty
  rw [printed, List.flatMap_append]
  exact gStrstrip_append hMem hSolid (List.ne_nil_of_mem hBlank) hAdded.last_solid

theorem any_first_of_not_applies (others : List Keyword)
    (h : keywordApplies others (defaultKeyword (lit "first") (lit "1")) = false) :
    others.any (·.column = some (lit "first")) = true := by
  by_contra hAbsent
  rw [keywordApplies_of_absent rfl (Bool.eq_false_iff.mpr hAbsent)] at h
  cases h

theorem any_sort_of_not_applies (others : List Keyword)
    (h : keywordApplies others (defaultKeyword (lit "sort") (lit "name")) = false) :
    others.any (isSort ·.column) = true := by
  rw [keywordApplies, if_pos ⟨rfl, rfl⟩] at h
  simpa using h

/-- A filter that is read again as it was is read without further defaults. -/
theorem scan_of_splitFilter {max : Int32} (hMax : max ≠ -2) {keywords : List Keyword}
    (hRead : ∀ keyword ∈ keywords, keyword.Read) (hTotal : Total keywords)
    (h : splitFilter (gStrstrip (printed max keywords)) = keywords.map (settled max)) :
    scanFrom {} (gStrstrip (printed max keywords)) = keywords.map (settled max) := by
  have hSome := gStrstrip_printed_ne_nil max hRead hTotal
  rw [splitFilter] at h
  generalize hText : gStrstrip (printed max keywords) = text at h hSome
  simp only [decide_eq_false hSome] at h
  have hRows := rows_of_settled hMax h
  have hAdded := added_defaults hRows false
  obtain ⟨front, added, rfl, hFront, hBack⟩ := List.map_eq_append_iff.mp h.symm
  have hAdded' : Added added := .of_map_settled (by rwa [hBack])
  rw [hAdded'.map_settled max] at hBack
  by_cases hNil : added = []
  · rw [hNil, List.append_nil, hFront]
  have hFrontRead (keyword : Keyword) (hKeyword : keyword ∈ front) : keyword.Read :=
    hRead keyword (List.mem_append_left _ hKeyword)
  have hScan := hFront.symm
  rw [← hText, gStrstrip_printed_append hFrontRead hAdded' hNil (by rwa [hFront])] at hScan
  have hFirst : (scanFrom {} text).any (·.column = some (lit "first")) = true := by
    by_contra hNone
    have hMem : defaultKeyword (lit "first") (lit "1") ∈ added := by
      rw [hBack, defaults, if_neg hNone]
      simp
    rw [← hFront] at hNone
    exact hNone (hAdded'.present hNil hFrontRead hScan hMem rfl any_first_of_not_applies)
  have hSort : (scanFrom {} text).any (isSort ·.column) = true := by
    by_contra hNone
    have hMem : defaultKeyword (lit "sort") (lit "name") ∈ added := by
      rw [hBack, defaults, if_neg hNone]
      simp
    rw [← hFront] at hNone
    exact hNone (hAdded'.present hNil hFrontRead hScan hMem rfl any_sort_of_not_applies)
  have hNone : defaults (scanFrom {} text) false = [] := Total.defaults_eq ⟨hFirst, hRows, hSort⟩ _
  exact absurd (hBack.trans hNone) hNil

/-- Cleaning a filter keeps its keywords, and changes nothing when it is done again,
exactly where every keyword can be printed and no form feed is stripped. -/
theorem manageCleanFilter_preserves_iff {max : Int32} (hMax : max ≠ -2) (filter : CString) :
    (splitFilter (manageCleanFilter max (some filter)) = (splitFilter filter).map (settled max) ∧
        manageCleanFilter max (some (manageCleanFilter max (some filter))) =
          manageCleanFilter max (some filter)) ↔
      Printable max (splitFilter filter) := by
  constructor
  · intro h
    have hRead := splitFilter_read filter
    have hSame := h.1
    rw [manageCleanFilter_eq] at hSame
    exact printable_of_scan hRead (scan_of_splitFilter hMax hRead (splitFilter_total filter) hSame)
  · intro h
    exact ⟨splitFilter_manageCleanFilter h, manageCleanFilter_idempotent hMax h⟩

theorem printable_quoted_name : (10 : Int32) ≠ -2 ∧
    Printable 10 (splitFilter (lit "name=\"a b\" ~x rows=5")) :=
  ⟨by decide, (manageCleanFilter_preserves_iff (by decide) _).mp
    ⟨by decide +kernel, by decide +kernel⟩⟩

/-- The sign in front of a keyword with a column is not printed. The column of this keyword is
empty and its text is `x=y`, so that what is printed begins with a sign again; it is read as the
column `x` with the sign, and cleaning a second time takes that one too. -/
theorem manageCleanFilter_equal_column :
    splitFilter (manageCleanFilter 10 (some (lit "==x=y"))) ≠
        (splitFilter (lit "==x=y")).map (settled 10) ∧
      manageCleanFilter 10 (some (manageCleanFilter 10 (some (lit "==x=y")))) ≠
        manageCleanFilter 10 (some (lit "==x=y")) := by
  decide +kernel

end Filters
