import OpenVAS.Filters.Basic

/-! What the keywords of a filter are like, and how a printed keyword is read again. -/
namespace Filters

open CString

/-- The byte of a relation. -/
def Relation.symbol : Relation → UInt8
  | .columnEqual => ch '='
  | .columnApprox => ch '~'
  | .columnAbove => ch '>'
  | .columnBelow => ch '<'
  | .columnRegexp => ch ':'
  | .approx => 0

theorem relationOf_symbol {relation : Relation} (h : relation ≠ .approx) :
    relationOf relation.symbol = some relation := by
  cases relation with
  | approx => exact absurd rfl h
  | columnAbove => rfl
  | columnApprox => rfl
  | columnEqual => rfl
  | columnBelow => rfl
  | columnRegexp => rfl

theorem relationOf_ne_approx {c : UInt8} {relation : Relation} (h : relationOf c = some relation) :
    relation ≠ .approx ∧ c = relation.symbol := by
  unfold relationOf at h
  split_ifs at h <;> cases h <;> exact ⟨nofun, by assumption⟩

/-- A text that is read as one word without quotes, up to a relation. -/
structure Name (equal : Bool) (text : CString) : Prop where
  noBlank : ∀ c ∈ text, isBlank c = false
  noQuote : text.head? ≠ some (ch '"')
  noRelation : equal = true → ∀ c ∈ text, relationOf c = none
  nonempty : equal = false → text ≠ [] ∧ text.head? ≠ some (ch '=') ∧
    ∀ c ∈ text.tail, relationOf c = none

/-- A text that is read as one value without quotes. -/
structure Value (text : CString) : Prop where
  noBlank : ∀ c ∈ text, isBlank c = false
  noQuote : text.head? ≠ some (ch '"')

theorem Name.value {equal : Bool} {text : CString} (h : Name equal text) : Value text :=
  ⟨h.noBlank, h.noQuote⟩

/-- What the reader can make of a word. -/
structure Keyword.Read (keyword : Keyword) : Prop where
  relation : keyword.relation = .approx ↔ keyword.column = none
  column : ∀ column ∈ keyword.column, Name keyword.equal column
  quoted : keyword.quoted = true → ch '"' ∉ keyword.string
  bare : keyword.quoted = false → Value keyword.string ∧
    (keyword.column = none → Name keyword.equal keyword.string)

/-- A part that the loop can have open. -/
structure Part.Ok (part : Part) : Prop where
  relation : part.relation = .approx ↔ part.column = none
  column : ∀ column ∈ part.column, Name part.equal column
  quoted : part.inQuote = true → ch '"' ∉ part.text
  bare : part.inQuote = false → Value part.text ∧
    (part.column = none → Name part.equal part.text)

/-- What the loop can have read. -/
structure Scan.Ok (scan : Scan) : Prop where
  parts : ∀ keyword ∈ scan.parts, keyword.Read
  part : ∀ part ∈ scan.part, part.Ok

/-- A part that is finished is a keyword that a filter gives. -/
theorem finish_read {parts : List Keyword} {part : Part} (hParts : ∀ keyword ∈ parts, keyword.Read)
    (hPart : part.Ok) : ∀ keyword ∈ Scan.finish parts part part.inQuote, keyword.Read := by
  intro keyword hKeyword
  rw [Scan.finish] at hKeyword
  split at hKeyword
  · rcases List.mem_append.mp hKeyword with hOld | hNew
    · exact hParts keyword hOld
    · obtain rfl := List.mem_singleton.mp hNew
      exact ⟨hPart.relation, hPart.column, hPart.quoted, hPart.bare⟩
  · exact hParts keyword hKeyword

theorem value_nil : Value [] := ⟨fun _ h => absurd h List.not_mem_nil, nofun⟩

theorem name_nil : Name true [] :=
  ⟨value_nil.noBlank, value_nil.noQuote, fun _ _ h => absurd h List.not_mem_nil, nofun⟩

/-- The part that a byte begins. -/
theorem start_ok {c : UInt8} {part : Part} (h : start c = some part) : part.Ok := by
  unfold start at h
  split_ifs at h with hEqual hBlank hQuote
  · obtain rfl := Option.some.inj h
    exact ⟨iff_of_true rfl rfl, nofun, nofun, fun _ => ⟨value_nil, fun _ => name_nil⟩⟩
  · obtain rfl := Option.some.inj h
    exact ⟨iff_of_true rfl rfl, nofun, fun _ => List.not_mem_nil, nofun⟩
  · obtain rfl := Option.some.inj h
    have hName : Name false [c] := by
      refine ⟨fun x hx => ?_, fun hx => hQuote (Option.some.inj hx), nofun,
        fun _ => ⟨nofun, fun hx => hEqual (Option.some.inj hx), fun x hx => ?_⟩⟩
      · rw [List.mem_singleton.mp hx]
        exact Bool.eq_false_iff.mpr hBlank
      · exact absurd hx List.not_mem_nil
    exact ⟨iff_of_true rfl rfl, nofun, nofun, fun _ => ⟨hName.value, fun _ => hName⟩⟩

theorem head?_append_singleton {text : CString} {c d : UInt8} (hText : text.head? ≠ some d)
    (hNil : text = [] → c ≠ d) : (text ++ [c]).head? ≠ some d := by
  cases text with
  | nil => exact fun h => hNil rfl (Option.some.inj h)
  | cons a text => exact hText

theorem Value.append {text : CString} {c : UInt8} (h : Value text) (hBlank : isBlank c = false)
    (hQuote : text = [] → c ≠ ch '"') : Value (text ++ [c]) := by
  refine ⟨fun x hx => ?_, head?_append_singleton h.noQuote hQuote⟩
  rcases List.mem_append.mp hx with hx | hx
  · exact h.noBlank x hx
  · rw [List.mem_singleton.mp hx]
    exact hBlank

theorem Name.append {equal : Bool} {text : CString} {c : UInt8} (h : Name equal text)
    (hBlank : isBlank c = false) (hQuote : text = [] → c ≠ ch '"') (hc : relationOf c = none) :
    Name equal (text ++ [c]) := by
  have hValue := h.value.append hBlank hQuote
  refine ⟨hValue.noBlank, hValue.noQuote, fun hEqual x hx => ?_, fun hPlain => ?_⟩
  · rcases List.mem_append.mp hx with hx | hx
    · exact h.noRelation hEqual x hx
    · rw [List.mem_singleton.mp hx]
      exact hc
  · obtain ⟨hNonempty, hHead, hTail⟩ := h.nonempty hPlain
    refine ⟨by simp, head?_append_singleton hHead fun hNil => absurd hNil hNonempty, ?_⟩
    intro x hx
    rw [List.tail_append_of_ne_nil hNonempty] at hx
    rcases List.mem_append.mp hx with hx | hx
    · exact hTail x hx
    · rw [List.mem_singleton.mp hx]
      exact hc

/-- A byte that only makes the text longer. -/
theorem Part.Ok.append {part : Part} (h : part.Ok) {c : UInt8}
    (hQuoted : part.inQuote = true → c ≠ ch '"')
    (hBare : part.inQuote = false → isBlank c = false ∧ (part.text = [] → c ≠ ch '"') ∧
      (part.column = none → relationOf c = none)) :
    { part with text := part.text ++ [c] }.Ok := by
  refine ⟨h.relation, h.column, fun hIn hMem => ?_, fun hOut => ?_⟩
  · rcases List.mem_append.mp hMem with hOld | hNew
    · exact h.quoted hIn hOld
    · exact hQuoted hIn (List.mem_singleton.mp hNew).symm
  · obtain ⟨hBlank, hQuote, hName⟩ := hBare hOut
    exact ⟨(h.bare hOut).1.append hBlank hQuote,
      fun hNone => ((h.bare hOut).2 hNone).append hBlank hQuote (hName hNone)⟩

theorem not_blank_of_relation {c : UInt8} {relation : Relation}
    (h : relationOf c = some relation) : isBlank c = false ∧ c ≠ ch '"' := by
  obtain ⟨hNe, rfl⟩ := relationOf_ne_approx h
  cases relation with
  | approx => exact absurd rfl hNe
  | columnAbove => decide
  | columnApprox => decide
  | columnEqual => decide
  | columnBelow => decide
  | columnRegexp => decide

theorem Scan.Ok.of_some {parts : List Keyword} {part : Part}
    (hParts : ∀ keyword ∈ parts, keyword.Read) (h : part.Ok) : Scan.Ok ⟨parts, some part⟩ := by
  refine ⟨hParts, fun next hNext => ?_⟩
  obtain rfl := Option.some.inj hNext
  exact h

/-- A byte inside of a part keeps it one that the loop can have open. -/
theorem read_ok {parts : List Keyword} {part : Part} (hParts : ∀ keyword ∈ parts, keyword.Read)
    (h : part.Ok) (c : UInt8) : (part.read parts c).Ok := by
  rw [Part.read]
  cases hRelation : relationOf c with
  | some relation =>
      obtain ⟨hBlank, hQuote⟩ := not_blank_of_relation hRelation
      simp only
      split
      · rename_i hMore
        refine .of_some hParts (h.append (fun _ => hQuote) fun hOut =>
          ⟨hBlank, fun _ => hQuote, fun hNone => ?_⟩)
        rw [hOut, hNone] at hMore
        simp at hMore
      · rename_i hFirst
        obtain ⟨hOut, hNone⟩ : part.inQuote = false ∧ part.column = none := by
          simpa using hFirst
        refine .of_some hParts ⟨iff_of_false (relationOf_ne_approx hRelation).1 nofun,
          fun column hColumn => ?_, fun _ => List.not_mem_nil, fun _ => ⟨value_nil, nofun⟩⟩
        obtain rfl := Option.some.inj hColumn
        exact (h.bare hOut).2 hNone
  | none =>
      simp only
      split
      · rename_i hBlank
        split
        · rename_i hIn
          refine .of_some hParts (h.append (fun _ hQuote => ?_) fun hOut => ?_)
          · rw [hQuote] at hBlank
            exact absurd hBlank (by decide)
          · exact absurd hIn (Bool.eq_false_iff.mp hOut)
        · rename_i hOut
          have hRead := finish_read hParts h
          rw [Bool.eq_false_iff.mpr hOut] at hRead
          exact ⟨hRead, nofun⟩
      · rename_i hBlank
        have hBlank := Bool.eq_false_iff.mpr hBlank
        split
        · split
          · rename_i hIn
            have hRead := finish_read hParts h
            rw [hIn] at hRead
            exact ⟨hRead, nofun⟩
          · rename_i hOut
            split
            · rename_i hOpen
              refine .of_some hParts ⟨h.relation, h.column, fun _ => ?_, nofun⟩
              rw [hOpen.1]
              exact List.not_mem_nil
            · rename_i hInside
              refine .of_some hParts (h.append (fun hIn => absurd hIn hOut)
                fun hOut => ⟨hBlank, fun hNil => ?_, fun _ => hRelation⟩)
              obtain ⟨hNone, hPlain⟩ : part.column = none ∧ part.equal = false := by
                simpa [hNil] using hInside
              exact absurd hNil (((h.bare hOut).2 hNone).nonempty hPlain).1
        · rename_i hQuote
          exact .of_some hParts (h.append (fun _ => hQuote) fun _ =>
            ⟨hBlank, fun _ => hQuote, fun _ => hRelation⟩)

theorem Scan.Ok.fresh : Scan.Ok {} := ⟨List.forall_mem_nil _, fun part h => absurd h (Option.not_mem_none part)⟩

theorem step_none (parts : List Keyword) (c : UInt8) :
    Scan.step ⟨parts, none⟩ c = ⟨parts, start c⟩ := rfl

theorem step_some (parts : List Keyword) (part : Part) (c : UInt8) :
    Scan.step ⟨parts, some part⟩ c = part.read parts c := rfl

/-- A byte keeps what the loop can have read. -/
theorem step_ok {scan : Scan} (h : scan.Ok) (c : UInt8) : (scan.step c).Ok := by
  rw [Scan.step]
  cases hPart : scan.part with
  | none => exact ⟨h.parts, fun part hStart => start_ok hStart⟩
  | some part => exact read_ok h.parts (h.part part hPart) c

/-- And so does a text, by induction on its bytes. -/
theorem foldl_step_ok {scan : Scan} (h : scan.Ok) (filter : CString) :
    (filter.foldl Scan.step scan).Ok := by
  induction filter generalizing scan with
  | nil => exact h
  | cons c filter ih => exact ih (step_ok h c)

/-- All keywords behind the end are such as a filter gives. -/
theorem Scan.Ok.done {scan : Scan} (h : scan.Ok) : ∀ keyword ∈ scan.done, keyword.Read := by
  rw [Scan.done]
  cases hPart : scan.part with
  | none => exact h.parts
  | some part => exact finish_read h.parts (h.part part hPart)

/-- Whether all bytes of a text are ordinary ones. -/
def isPlain (text : CString) : Bool :=
  text ≠ [] && text.all fun c => !isBlank c && relationOf c = none && c ≠ ch '"'

theorem isPlain_iff {text : CString} : isPlain text = true ↔ text ≠ [] ∧
    ∀ c ∈ text, isBlank c = false ∧ relationOf c = none ∧ c ≠ ch '"' := by
  simp [isPlain, and_assoc]

theorem name_of_isPlain {text : CString} (h : isPlain text = true) (equal : Bool) :
    Name equal text := by
  obtain ⟨hNonempty, hAll⟩ := isPlain_iff.mp h
  have hHead {c : UInt8} (hc : text.head? = some c) := hAll c (List.mem_of_mem_head? hc)
  refine ⟨fun c hc => (hAll c hc).1, fun hQuote => (hHead hQuote).2.2 rfl,
    fun _ c hc => (hAll c hc).2.1, fun _ => ⟨hNonempty, fun hEqual => ?_, fun c hc => ?_⟩⟩
  · exact absurd (hHead hEqual).2.1 (by decide)
  · exact (hAll c (List.mem_of_mem_tail hc)).2.1

/-- A keyword that is added reads like one of the filter. -/
theorem defaultKeyword_read {column string : CString} (hColumn : isPlain column = true)
    (hString : isPlain string = true) : (defaultKeyword column string).Read := by
  refine ⟨iff_of_false nofun nofun, fun name hName => ?_, nofun,
    fun _ => ⟨(name_of_isPlain hString false).value, nofun⟩⟩
  obtain rfl := Option.some.inj hName
  exact name_of_isPlain hColumn false

theorem mem_defaults {parts : List Keyword} {empty : Bool} {keyword : Keyword}
    (h : keyword ∈ defaults parts empty) :
    keyword = defaultKeyword (lit "first") (lit "1") ∨
      (∃ rows, (rows = lit "-1" ∨ rows = lit "-2") ∧
        keyword = defaultKeyword (lit "rows") rows) ∨
      keyword = defaultKeyword (lit "sort") (lit "name") := by
  rcases List.mem_append.mp h with h | h
  · rcases List.mem_append.mp h with h | h
    · split at h
      · cases h
      · exact .inl (List.mem_singleton.mp h)
    · split at h
      · cases h
      · refine .inr (.inl ⟨_, ?_, List.mem_singleton.mp h⟩)
        split
        · exact .inl rfl
        · exact .inr rfl
  · split at h
    · cases h
    · exact .inr (.inr (List.mem_singleton.mp h))

/-- Every keyword of a filter is one that the reader can make. -/
theorem splitFilter_read (filter : CString) : ∀ keyword ∈ splitFilter filter, keyword.Read := by
  intro keyword hKeyword
  rcases List.mem_append.mp hKeyword with hParsed | hDefault
  · exact (foldl_step_ok Scan.Ok.fresh filter).done keyword hParsed
  · rcases mem_defaults hDefault with rfl | ⟨rows, hRows, rfl⟩ | rfl
    · exact defaultKeyword_read (by decide) (by decide)
    · refine defaultKeyword_read (by decide) ?_
      rcases hRows with rfl | rfl
      · decide
      · decide
    · exact defaultKeyword_read (by decide) (by decide)

/-- A text that the part takes byte by byte. -/
structure Part.Takes (part : Part) (text : CString) : Prop where
  quoted : part.inQuote = true → ch '"' ∉ text
  bare : part.inQuote = false → (∀ c ∈ text, isBlank c = false) ∧
    (part.column = none → ∀ c ∈ text, relationOf c = none) ∧
    (part.text = [] → (part.column.isSome ∨ part.equal) → text.head? ≠ some (ch '"'))

theorem read_of_takes {parts : List Keyword} {part : Part} {c : UInt8} {text : CString}
    (h : part.Takes (c :: text)) :
    part.read parts c = ⟨parts, some { part with text := part.text ++ [c] }⟩ := by
  rw [Part.read]
  cases hIn : part.inQuote with
  | true =>
      have hQuote : c ≠ ch '"' := fun hEq => h.quoted hIn (hEq ▸ List.mem_cons_self)
      cases relationOf c with
      | some relation => simp
      | none => simp [hQuote]
  | false =>
      obtain ⟨hBlank, hName, hHead⟩ := h.bare hIn
      have hBlank := hBlank c List.mem_cons_self
      cases hRelation : relationOf c with
      | some relation =>
          cases hColumn : part.column with
          | some column => simp
          | none =>
              rw [hName hColumn c List.mem_cons_self] at hRelation
              cases hRelation
      | none =>
          by_cases hQuote : c = ch '"'
          · have hInside : ¬ (part.text = [] ∧ (part.column.isSome ∨ part.equal)) :=
              fun hOpen => hHead hOpen.1 hOpen.2 (congrArg some hQuote)
            subst hQuote
            simp only [hBlank, if_neg hInside, Bool.false_eq_true, if_false, if_true]
          · simp [hBlank, hQuote]

/-- A text without an end of the part is appended to it. -/
theorem foldl_of_takes {parts : List Keyword} {part : Part} {text : CString}
    (h : part.Takes text) :
    text.foldl Scan.step ⟨parts, some part⟩ =
      ⟨parts, some { part with text := part.text ++ text }⟩ := by
  induction text generalizing part with
  | nil => simp
  | cons c text ih =>
      rw [List.foldl_cons, step_some, read_of_takes h, ih ?_]
      · simp
      · refine ⟨fun hIn hMem => h.quoted hIn (List.mem_cons_of_mem _ hMem), fun hOut => ?_⟩
        obtain ⟨hBlank, hName, -⟩ := h.bare hOut
        refine ⟨fun x hx => hBlank x (List.mem_cons_of_mem _ hx),
          fun hNone x hx => hName hNone x (List.mem_cons_of_mem _ hx), fun hNil => ?_⟩
        exact absurd hNil (by simp)

/-- The keywords with one more, if it has an effect. -/
def addKeyword (parts : List Keyword) (keyword : Keyword) : List Keyword :=
  if keywordApplies parts keyword then parts ++ [keyword] else parts

/-- The part of a keyword without quotes at its end. -/
def Keyword.part (keyword : Keyword) : Part :=
  ⟨keyword.column, keyword.relation, keyword.equal, false, keyword.string⟩

/-- Where the reader stands behind a keyword. -/
def Scan.behind (parts : List Keyword) (keyword : Keyword) : Scan :=
  if keyword.quoted then ⟨addKeyword parts keyword, none⟩ else ⟨parts, some keyword.part⟩

theorem behind_done (parts : List Keyword) (keyword : Keyword) :
    (Scan.behind parts keyword).done = addKeyword parts keyword := by
  rw [Scan.behind]
  cases hQuoted : keyword.quoted with
  | true => rfl
  | false =>
      obtain ⟨column, relation, string, quoted, equal⟩ := keyword
      obtain rfl := hQuoted
      rfl

theorem behind_blank (parts : List Keyword) (keyword : Keyword) :
    (Scan.behind parts keyword).step (ch ' ') = ⟨addKeyword parts keyword, none⟩ := by
  rw [Scan.behind]
  cases hQuoted : keyword.quoted with
  | true => rfl
  | false =>
      obtain ⟨column, relation, string, quoted, equal⟩ := keyword
      obtain rfl := hQuoted
      rfl

/-- A value is read behind a relation, or behind the sign of an exact term. -/
theorem foldl_quoteIf (parts : List Keyword) {column : Option CString} {relation : Relation}
    {equal quoted : Bool} {string : CString} (hOpen : column.isSome ∨ equal)
    (hQuoted : quoted = true → ch '"' ∉ string)
    (hBare : quoted = false → Value string ∧ (column = none → ∀ c ∈ string, relationOf c = none)) :
    (quoteIf quoted string).foldl Scan.step ⟨parts, some ⟨column, relation, equal, false, []⟩⟩ =
      Scan.behind parts ⟨column, relation, string, quoted, equal⟩ := by
  cases quoted with
  | true =>
      have hStart : Scan.step ⟨parts, some ⟨column, relation, equal, false, []⟩⟩ (ch '"') =
          ⟨parts, some ⟨column, relation, equal, true, []⟩⟩ := by
        have hRelation : relationOf (ch '"') = none := by decide
        have hBlank : isBlank (ch '"') = false := by decide
        simp only [step_some, Part.read, hRelation, hBlank, hOpen, Bool.false_eq_true, if_false, if_true,
          and_self]
      have hTakes : Part.Takes ⟨column, relation, equal, true, []⟩ string :=
        ⟨fun _ => hQuoted rfl, nofun⟩
      change (ch '"' :: (string ++ [ch '"'])).foldl Scan.step _ = _
      rw [List.foldl_cons, hStart, List.foldl_append, foldl_of_takes hTakes]
      rfl
  | false =>
      obtain ⟨hValue, hRelation⟩ := hBare rfl
      have hTakes : Part.Takes ⟨column, relation, equal, false, []⟩ string :=
        ⟨nofun, fun _ => ⟨hValue.noBlank, hRelation, fun _ _ => hValue.noQuote⟩⟩
      exact foldl_of_takes hTakes

/-- A name is read from between two keywords. -/
theorem foldl_name (parts : List Keyword) {name : CString} (h : Name false name) :
    name.foldl Scan.step ⟨parts, none⟩ = ⟨parts, some { text := name }⟩ := by
  obtain ⟨hNonempty, hEqual, hRelation⟩ := h.nonempty rfl
  obtain ⟨c, rest, rfl⟩ := List.exists_cons_of_ne_nil hNonempty
  have hNotEqual : c ≠ ch '=' := fun hEq => hEqual (congrArg some hEq)
  have hNotQuote : c ≠ ch '"' := fun hEq => h.noQuote (congrArg some hEq)
  have hStart : start c = some { text := [c] } := by
    rw [start, if_neg hNotEqual, h.noBlank c List.mem_cons_self, if_neg hNotQuote]
    rfl
  have hTakes : Part.Takes { text := [c] } rest :=
    ⟨nofun, fun _ => ⟨fun x hx => h.noBlank x (List.mem_cons_of_mem _ hx), fun _ => hRelation,
      nofun⟩⟩
  rw [List.foldl_cons, step_none, hStart, foldl_of_takes hTakes]
  rfl

/-- The byte of a relation turns what was read into the column. -/
theorem step_relation (parts : List Keyword) {name : CString} {equal : Bool} {relation : Relation}
    (h : relation ≠ .approx) :
    Scan.step ⟨parts, some ⟨none, .approx, equal, false, name⟩⟩ relation.symbol =
      ⟨parts, some ⟨some name, relation, equal, false, []⟩⟩ := by
  rw [step_some, Part.read, relationOf_symbol h]
  rfl

/-- The keyword that is printed: the rows per page stand in the place of -2. -/
def settled (max : Int32) (keyword : Keyword) : Keyword :=
  if keyword.column = some (lit "rows") ∧ keyword.string = lit "-2" then
    { keyword with string := showInt max.toInt }
  else keyword

/-- What a keyword needs to be read again from what is printed of it. -/
structure Keyword.Printable (keyword : Keyword) : Prop where
  equal : keyword.equal = true → keyword.column = none
  rows : keyword.column = some (lit "rows") → keyword.string = lit "-2" → keyword.quoted = false

theorem word_of_column {max : Int32} {keyword : Keyword} {column : CString}
    (hRelation : keyword.relation ≠ .approx) (hColumn : keyword.column = some column) :
    word max keyword = appendRelation max column keyword keyword.relation.symbol := by
  rw [word, hColumn]
  cases hKind : keyword.relation with
  | approx => exact absurd hKind hRelation
  | columnAbove => rfl
  | columnApprox => rfl
  | columnEqual => rfl
  | columnBelow => rfl
  | columnRegexp => rfl

theorem value_showInt (i : Int) : Value (showInt i) := by
  refine ⟨fun c hc => ?_, fun hHead => ?_⟩
  · cases hBlank : isBlank c with
    | false => rfl
    | true =>
        simp only [isBlank, Bool.or_eq_true, decide_eq_true_eq] at hBlank
        rcases hBlank with ((rfl | rfl) | rfl) | rfl <;>
          exact absurd hc (not_mem_showInt (by decide) (by decide) i)
  · exact absurd (List.mem_of_mem_head? hHead) (not_mem_showInt (by decide) (by decide) i)

end Filters
