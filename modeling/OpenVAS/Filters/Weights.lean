import OpenVAS.Filters.Cleaning

/-! A filter that cannot be printed well is not read again as it was: the bytes of a
text are counted, and each keyword that is read takes its share of them. -/
namespace Filters

open CString

/-- Blanks count nothing, and a quote counts less than another byte. -/
def weight (c : UInt8) : Nat := if isBlank c then 0 else if c = ch '"' then 1 else 2

def textWeight (text : CString) : Nat := (text.map weight).sum

theorem textWeight_append (one two : CString) :
    textWeight (one ++ two) = textWeight one + textWeight two := by
  rw [textWeight, List.map_append, List.sum_append]
  rfl

theorem textWeight_cons (c : UInt8) (text : CString) :
    textWeight (c :: text) = weight c + textWeight text := by
  rw [textWeight, List.map_cons, List.sum_cons]
  rfl

theorem weight_relation {c : UInt8} {relation : Relation} (h : relationOf c = some relation) :
    weight c = 2 := by
  obtain ⟨hBlank, hQuote⟩ := not_blank_of_relation h
  rw [weight, hBlank, if_neg hQuote]
  rfl

/-- What a keyword takes with its column, its relation and its sign for an exact term. -/
def frontWeight (column : Option CString) (equal : Bool) : Nat :=
  (match column with
    | some column => textWeight column + 2
    | none => 0) + if equal then 2 else 0

def Keyword.weight (keyword : Keyword) : Nat :=
  frontWeight keyword.column keyword.equal + textWeight keyword.string +
    if keyword.quoted then 2 else 0

def Part.weight (part : Part) : Nat :=
  frontWeight part.column part.equal + textWeight part.text + if part.inQuote then 1 else 0

def listWeight (keywords : List Keyword) : Nat := (keywords.map Keyword.weight).sum

def Scan.weight (scan : Scan) : Nat :=
  listWeight scan.parts + (match scan.part with
    | some part => part.weight
    | none => 0)

theorem listWeight_append (one two : List Keyword) :
    listWeight (one ++ two) = listWeight one + listWeight two := by
  rw [listWeight, List.map_append, List.sum_append]
  rfl

/-- Adding a keyword adds its weight at most. -/
theorem listWeight_addKeyword (parts : List Keyword) (keyword : Keyword) :
    listWeight (addKeyword parts keyword) ≤ listWeight parts + keyword.weight := by
  rw [addKeyword]
  split
  · rw [listWeight_append]
    exact le_rfl
  · exact Nat.le_add_right _ _

theorem start_weight (c : UInt8) : Scan.weight ⟨[], start c⟩ = weight c := by
  rw [start]
  by_cases hEqual : c = ch '='
  · rw [if_pos hEqual, hEqual]
    rfl
  rw [if_neg hEqual, weight]
  by_cases hBlank : isBlank c = true
  · rw [if_pos hBlank, if_pos hBlank]
    rfl
  rw [if_neg hBlank, if_neg hBlank]
  by_cases hQuote : c = ch '"'
  · rw [if_pos hQuote, if_pos hQuote]
    rfl
  · have hTwo : weight c = 2 := by rw [weight, if_neg hBlank, if_neg hQuote]
    rw [if_neg hQuote, if_neg hQuote]
    change 0 + (0 + 0 + (weight c + 0) + 0) = 2
    omega

/-- A byte more is at most its weight more. -/
theorem read_weight (parts : List Keyword) (part : Part) (c : UInt8) :
    (part.read parts c).weight ≤ listWeight parts + part.weight + weight c := by
  have hMore : Scan.weight ⟨parts, some { part with text := part.text ++ [c] }⟩ =
      listWeight parts + part.weight + weight c := by
    simp only [Scan.weight, Part.weight, textWeight_append, textWeight_cons]
    have hNil : textWeight [] = 0 := rfl
    omega
  rw [Part.read]
  cases hRelation : relationOf c with
  | some relation =>
      simp only
      split
      · exact hMore.le
      · rename_i hFirst
        obtain ⟨hOut, hNone⟩ : part.inQuote = false ∧ part.column = none := by
          simpa using hFirst
        simp only [Scan.weight, Part.weight, hOut, hNone, weight_relation hRelation, frontWeight]
        have hNil : textWeight [] = 0 := rfl
        omega
  | none =>
      simp only
      split
      · split
        · exact hMore.le
        · rename_i hOut
          have hAdd := listWeight_addKeyword parts
            ⟨part.column, part.relation, part.text, false, part.equal⟩
          simp only [Scan.weight, finish_eq_addKeyword]
          simp only [Keyword.weight, Bool.false_eq_true, if_false] at hAdd
          simp only [Part.weight, if_neg hOut]
          omega
      · rename_i hBlank
        split
        · rename_i hQuote
          have hOne : weight c = 1 := by
            rw [weight, if_neg hBlank, if_pos hQuote]
          split
          · rename_i hIn
            have hAdd := listWeight_addKeyword parts
              ⟨part.column, part.relation, part.text, true, part.equal⟩
            simp only [Scan.weight, finish_eq_addKeyword]
            simp only [Keyword.weight] at hAdd
            simp only [Part.weight, hIn, hOne]
            simp only [if_true] at hAdd ⊢
            omega
          · rename_i hOut
            split
            · simp only [Scan.weight, Part.weight, if_neg hOut, hOne, if_true]
              omega
            · exact hMore.le
        · exact hMore.le

/-- A byte adds its weight at most. -/
theorem step_weight (scan : Scan) (c : UInt8) : (scan.step c).weight ≤ scan.weight + weight c := by
  rw [Scan.step]
  cases hPart : scan.part with
  | none =>
      have hStart := start_weight c
      simp only [Scan.weight, hPart] at hStart ⊢
      have hNil : listWeight [] = 0 := rfl
      omega
  | some part =>
      have hRead := read_weight scan.parts part c
      simp only [Scan.weight, hPart]
      exact hRead

/-- And a text its own. -/
theorem foldl_step_weight (scan : Scan) (text : CString) :
    (text.foldl Scan.step scan).weight ≤ scan.weight + textWeight text := by
  induction text generalizing scan with
  | nil => exact Nat.le_add_right _ _
  | cons c text ih =>
      have hStep := step_weight scan c
      have hRest := ih (scan.step c)
      rw [List.foldl_cons, textWeight_cons]
      omega

/-- The weight of all keywords behind the end. -/
theorem done_weight (scan : Scan) : listWeight scan.done ≤ scan.weight + 1 := by
  rw [Scan.done]
  cases hPart : scan.part with
  | none =>
      simp only [Scan.weight, hPart]
      omega
  | some part =>
      have hAdd := listWeight_addKeyword scan.parts
        ⟨part.column, part.relation, part.text, part.inQuote, part.equal⟩
      simp only [finish_eq_addKeyword, Scan.weight, hPart]
      simp only [Keyword.weight] at hAdd
      simp only [Part.weight]
      cases hIn : part.inQuote with
      | true =>
          simp only [hIn, if_true] at hAdd ⊢
          omega
      | false =>
          simp only [hIn] at hAdd ⊢
          simp only [Bool.false_eq_true, if_false] at hAdd ⊢
          omega

/-- The keywords of a text weigh hardly more than the text. -/
theorem scanFrom_weight (text : CString) : listWeight (scanFrom {} text) ≤ textWeight text + 1 := by
  have hDone := done_weight (text.foldl Scan.step {})
  have hText := foldl_step_weight {} text
  have hNone : ({} : Scan).weight = 0 := rfl
  rw [scanFrom]
  omega

theorem textWeight_quoteIf (quoted : Bool) (string : CString) :
    textWeight (quoteIf quoted string) = textWeight string + if quoted then 2 else 0 := by
  cases quoted with
  | true =>
      have hQuote : weight (ch '"') = 1 := by decide
      have hNil : textWeight [] = 0 := rfl
      simp only [quoteIf, if_true, List.cons_append, textWeight_cons, textWeight_append, hQuote]
      omega
  | false => rfl

/-- A keyword weighs at least what is printed of it, and more where it is not read again. -/
theorem word_weight (max : Int32) {keyword : Keyword} (hRead : keyword.Read) :
    textWeight (word max keyword) ≤ (settled max keyword).weight ∧
      (¬ keyword.Printable → textWeight (word max keyword) + 2 ≤ (settled max keyword).weight) := by
  cases hColumn : keyword.column with
  | some column =>
      have hRelation : keyword.relation ≠ .approx := by
        rw [ne_eq, hRead.relation, hColumn]
        exact Option.some_ne_none column
      have hSymbol := weight_relation (relationOf_symbol hRelation)
      rw [word_of_column hRelation hColumn, appendRelation, settled, hColumn]
      by_cases hRows : column = lit "rows" ∧ keyword.string = lit "-2"
      · rw [if_pos hRows, if_pos ⟨congrArg some hRows.1, hRows.2⟩, textWeight_append,
          textWeight_cons, hSymbol]
        simp only [Keyword.weight, frontWeight]
        refine ⟨by omega, fun hBad => ?_⟩
        cases hEqual : keyword.equal with
        | true =>
            simp only [if_true]
            omega
        | false =>
            cases hQuoted : keyword.quoted with
            | true =>
                simp only [if_true]
                omega
            | false => exact absurd ⟨fun h => absurd h (by simp [hEqual]), fun _ _ => hQuoted⟩ hBad
      · rw [if_neg hRows, if_neg fun hSame => hRows ⟨Option.some.inj hSame.1, hSame.2⟩,
          textWeight_append, textWeight_cons, hSymbol, textWeight_quoteIf]
        simp only [Keyword.weight, frontWeight, hColumn]
        refine ⟨by omega, fun hBad => ?_⟩
        cases hEqual : keyword.equal with
        | true =>
            simp only [if_true]
            omega
        | false =>
            refine absurd ⟨fun h => absurd h (by simp [hEqual]), fun hName hString => ?_⟩ hBad
            exact absurd ⟨Option.some.inj (hColumn.symm.trans hName), hString⟩ hRows
  | none =>
      have hPrintable : keyword.Printable :=
        ⟨fun _ => hColumn, fun hRows => absurd (hRows.symm.trans hColumn) (Option.some_ne_none _)⟩
      have hSettled : settled max keyword = keyword := by
        rw [settled, hColumn]
        exact if_neg fun hRows => Option.some_ne_none _ hRows.1.symm
      refine ⟨?_, fun hBad => absurd hPrintable hBad⟩
      rw [hSettled, word, hColumn]
      simp only [textWeight_append, textWeight_quoteIf, Keyword.weight, frontWeight, hColumn]
      have hSign : textWeight (if keyword.equal then lit "=" else []) =
          if keyword.equal then 2 else 0 := by
        cases keyword.equal with
        | true => decide
        | false => rfl
      omega

/-- Printing adds no weight, and takes some where a keyword is not printable. -/
theorem printed_weight (max : Int32) {keywords : List Keyword}
    (hRead : ∀ keyword ∈ keywords, keyword.Read) :
    textWeight (printed max keywords) ≤ listWeight (keywords.map (settled max)) ∧
      ((∃ keyword ∈ keywords, ¬ keyword.Printable) →
        textWeight (printed max keywords) + 2 ≤ listWeight (keywords.map (settled max))) := by
  induction keywords with
  | nil => exact ⟨le_rfl, nofun⟩
  | cons keyword keywords ih =>
      obtain ⟨hLe, hBad⟩ := ih fun other hOther => hRead other (List.mem_cons_of_mem _ hOther)
      obtain ⟨hWord, hWordBad⟩ := word_weight max (hRead keyword List.mem_cons_self)
      have hPrinted : textWeight (printed max (keyword :: keywords)) =
          textWeight (word max keyword) + textWeight (printed max keywords) := by
        have hBlank : weight (ch ' ') = 0 := by decide
        rw [printed, List.flatMap_cons, textWeight_append, textWeight_cons, hBlank, printed,
          Nat.zero_add]
      have hList : listWeight ((keyword :: keywords).map (settled max)) =
          (settled max keyword).weight + listWeight (keywords.map (settled max)) := by
        rw [listWeight, List.map_cons, List.map_cons, List.sum_cons, listWeight]
      rw [hPrinted, hList]
      refine ⟨by omega, fun hSome => ?_⟩
      obtain ⟨other, hOther, hOtherBad⟩ := hSome
      rcases List.mem_cons.mp hOther with rfl | hOther
      · have := hWordBad hOtherBad
        omega
      · have := hBad ⟨other, hOther, hOtherBad⟩
        omega

theorem textWeight_reverse (text : CString) : textWeight text.reverse = textWeight text := by
  rw [textWeight, List.map_reverse, List.sum_reverse, textWeight]

/-- What is stripped at the two ends of a text. -/
theorem textWeight_gStrstrip (text : CString) :
    textWeight text = textWeight (text.takeWhile gAsciiIsspace) + textWeight (gStrstrip text) +
      textWeight ((text.dropWhile gAsciiIsspace).reverse.takeWhile gAsciiIsspace) := by
  have hFront : textWeight text = textWeight (text.takeWhile gAsciiIsspace) +
      textWeight (text.dropWhile gAsciiIsspace) := by
    rw [← textWeight_append, List.takeWhile_append_dropWhile]
  have hBack : textWeight (text.dropWhile gAsciiIsspace) =
      textWeight ((text.dropWhile gAsciiIsspace).reverse.takeWhile gAsciiIsspace) +
        textWeight (gStrstrip text) := by
    rw [gStrstrip, textWeight_reverse, ← textWeight_append, List.takeWhile_append_dropWhile,
      textWeight_reverse]
  omega

theorem weight_le_of_mem {text : CString} {c : UInt8} (h : c ∈ text) :
    weight c ≤ textWeight text := by
  obtain ⟨front, back, rfl⟩ := List.append_of_mem h
  rw [textWeight_append, textWeight_cons]
  omega

theorem isspace_formFeed : gAsciiIsspace formFeed = true := by decide

/-- A form feed behind the blank in front is stripped. -/
theorem gStrstrip_weight_front {text : CString} :
    textWeight (gStrstrip (ch ' ' :: formFeed :: text)) + 2 ≤
      textWeight (ch ' ' :: formFeed :: text) := by
  have hStrip := textWeight_gStrstrip (ch ' ' :: formFeed :: text)
  have hBlank : gAsciiIsspace (ch ' ') = true := by decide
  have hMem : formFeed ∈ (ch ' ' :: formFeed :: text).takeWhile gAsciiIsspace := by
    rw [List.takeWhile_cons_of_pos hBlank, List.takeWhile_cons_of_pos isspace_formFeed]
    exact List.mem_cons_of_mem _ List.mem_cons_self
  have hWeight : weight formFeed = 2 := by decide
  have hTwo := weight_le_of_mem hMem
  omega

/-- Stripping takes the weight of a form feed. -/
theorem gStrstrip_weight_back {text : CString} :
    textWeight (gStrstrip (text ++ [formFeed])) + 2 ≤ textWeight (text ++ [formFeed]) := by
  have hStrip := textWeight_gStrstrip (text ++ [formFeed])
  have hWeight : weight formFeed = 2 := by decide
  rw [List.dropWhile_append] at hStrip
  split at hStrip
  · rename_i hNone
    have hAll : ∀ c ∈ text, gAsciiIsspace c = true :=
      List.dropWhile_eq_nil_iff.mp (List.isEmpty_iff.mp hNone)
    have hMem : formFeed ∈ (text ++ [formFeed]).takeWhile gAsciiIsspace := by
      rw [List.takeWhile_append_of_pos hAll, List.takeWhile_cons_of_pos isspace_formFeed]
      exact List.mem_append_right _ List.mem_cons_self
    have hTwo := weight_le_of_mem hMem
    omega
  · have hMem : formFeed ∈
        (text.dropWhile gAsciiIsspace ++ [formFeed]).reverse.takeWhile gAsciiIsspace := by
      rw [List.reverse_append, List.reverse_singleton, List.singleton_append,
        List.takeWhile_cons_of_pos isspace_formFeed]
      exact List.mem_cons_self
    have hTwo := weight_le_of_mem hMem
    omega

/-- Stripping adds no weight. -/
theorem gStrstrip_weight (text : CString) : textWeight (gStrstrip text) ≤ textWeight text := by
  have hStrip := textWeight_gStrstrip text
  omega

/-- Without defaults in the second reading, the weights leave no room for a loss. -/
theorem printable_of_scan {max : Int32} {keywords : List Keyword}
    (hRead : ∀ keyword ∈ keywords, keyword.Read)
    (h : scanFrom {} (gStrstrip (printed max keywords)) = keywords.map (settled max)) :
    Printable max keywords := by
  have hScan := scanFrom_weight (gStrstrip (printed max keywords))
  rw [h] at hScan
  obtain ⟨hLe, hBad⟩ := printed_weight max hRead
  have hStrip := gStrstrip_weight (printed max keywords)
  refine ⟨fun keyword hKeyword => ?_, fun keyword hKeyword hFeed => ?_,
    fun keyword hKeyword hFeed => ?_⟩
  · by_contra hNot
    have hMore := hBad ⟨keyword, hKeyword, hNot⟩
    omega
  · obtain ⟨rest, rfl⟩ := List.head?_eq_some_iff.mp hKeyword
    obtain ⟨tail, hWord⟩ := List.head?_eq_some_iff.mp hFeed
    have hPrinted : printed max (keyword :: rest) =
        ch ' ' :: formFeed :: (tail ++ printed max rest) := by
      rw [printed, List.flatMap_cons, hWord]
      rfl
    have hFront := @gStrstrip_weight_front (tail ++ printed max rest)
    rw [← hPrinted] at hFront
    omega
  · obtain ⟨front, rfl⟩ := List.getLast?_eq_some_iff.mp hKeyword
    obtain ⟨tail, hWord⟩ := List.getLast?_eq_some_iff.mp hFeed
    have hPrinted : printed max (front ++ [keyword]) =
        printed max front ++ ch ' ' :: tail ++ [formFeed] := by
      rw [printed, List.flatMap_append, List.flatMap_singleton, hWord, printed]
      simp
    have hBack := @gStrstrip_weight_back (printed max front ++ ch ' ' :: tail)
    rw [← hPrinted] at hBack
    omega

end Filters
