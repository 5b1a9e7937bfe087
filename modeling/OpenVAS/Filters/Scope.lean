import OpenVAS.Filters.Clause
import OpenVAS.Filters.Reading
import Mathlib.Data.List.Induction

/-! The scope of the operator words of a filter. They are meant for the next term; the loop
clears them on most of its paths, and where it does not, a word lingers until a later
term uses it. -/
namespace Filters

open CString
open Sql (quote)

/-! Kinds of keywords. -/

def isAnd (keyword : Keyword) : Bool := kind keyword = .and

def isNot (keyword : Keyword) : Bool := kind keyword = .not

def isRe (keyword : Keyword) : Bool := kind keyword = .re

/-- Everything that is neither an operator word nor ignored. -/
def isTerm (keyword : Keyword) : Bool :=
  !(kind keyword = .nothing || isAnd keyword || isNot keyword || isRe keyword)

/-- Whether the second half of the loop adds a condition for a keyword. -/
def hasCondition (listing : Listing) (keyword : Keyword) : Bool :=
  match keyword.column with
  | none => true
  | some column =>
      match columnEffect listing keyword column with
      | .condition _ => true
      | _ => false

/-- Whether the second half of the loop skips a keyword as an owner. -/
def isOwner (listing : Listing) (keyword : Keyword) : Bool :=
  match keyword.column with
  | none => false
  | some column =>
      match columnEffect listing keyword column with
      | .owner => true
      | _ => false

/-- The terms for which a condition is added. -/
def addsCondition (listing : Listing) (keyword : Keyword) : Bool :=
  kind keyword = .tag || (kind keyword = .term && hasCondition listing keyword)

/-- The terms that clear the words `and` and `not`. -/
def clearsJoin (listing : Listing) (keyword : Keyword) : Bool :=
  kind keyword = .tag || (kind keyword = .term && !isOwner listing keyword)

/-- The terms that clear the words `re` and `regexp`. -/
def clearsRe (listing : Listing) (keyword : Keyword) : Bool :=
  (kind keyword = .tag || kind keyword = .term) && hasCondition listing keyword

/-- Whether a word stands in front with nothing behind it that clears it. -/
def lingers (word clears : Keyword → Bool) (before : List Keyword) : Bool :=
  before.foldl (fun lingering keyword => word keyword || (lingering && !clears keyword)) false

/-- A word lingers behind a keyword if the keyword is the word, or does not clear it. -/
theorem lingers_append (word clears : Keyword → Bool) (before : List Keyword) (keyword : Keyword) :
    lingers word clears (before ++ [keyword]) =
      (word keyword || (lingers word clears before && !clears keyword)) := by
  rw [lingers, List.foldl_append]
  rfl

/-- With more that clears, less lingers. -/
theorem lingers_mono {word clears clears' : Keyword → Bool}
    (h : ∀ keyword, clears keyword = true → clears' keyword = true) {before : List Keyword}
    (hLingers : lingers word clears' before = true) : lingers word clears before = true := by
  induction before using List.reverseRecOn with
  | nil => exact hLingers
  | append_singleton before keyword ih =>
      rw [lingers_append, Bool.or_eq_true, Bool.and_eq_true, Bool.not_eq_true'] at hLingers ⊢
      rcases hLingers with hWord | ⟨hBefore, hKept⟩
      · exact .inl hWord
      · refine .inr ⟨ih hBefore, ?_⟩
        by_contra hClears
        rw [h keyword (Bool.eq_true_of_not_eq_false hClears)] at hKept
        cases hKept

/-- The operators that stand between the last term in front and the next one. -/
def scopedOps (before : List Keyword) : Operators where
  lastWasAnd := lingers isAnd isTerm before
  lastWasNot := lingers isNot isTerm before
  lastWasRe := lingers isRe isTerm before

/-- What is added to the clause for each term depends only on the operator words between it
and the term before it. -/
def OperatorsScoped (listing : Listing) (keywords : List Keyword) : Prop :=
  ∀ before term after, keywords = before ++ term :: after → isTerm term = true →
    (filterStep listing (filterState listing before) term).clause =
      (filterStep listing { filterState listing before with ops := scopedOps before } term).clause

/-! The loop. -/

section Step

variable {listing : Listing} {keyword : Keyword} (state : State)

/-- What a term leaves of the words: those that its condition has not used. -/
theorem ops_term (hRead : keyword.Read) :
    (state.term listing keyword).ops.lastWasAnd =
        (state.ops.lastWasAnd && isOwner listing keyword) ∧
      (state.term listing keyword).ops.lastWasNot =
        (state.ops.lastWasNot && isOwner listing keyword) ∧
      (state.term listing keyword).ops.lastWasRe =
        (state.ops.lastWasRe && !hasCondition listing keyword) ∧
      (state.term listing keyword).firstKeyword =
        (state.firstKeyword && !hasCondition listing keyword) := by
  rw [State.term, isOwner, hasCondition]
  cases hColumn : keyword.column with
  | none => simp [State.add, noOperators]
  | some column =>
      have hRelation : keyword.relation ≠ .approx := fun h => by
        simp [hRead.relation.mp h] at hColumn
      simp only [if_neg hRelation]
      cases columnEffect listing keyword column with
      | unknown => simp [State.dropJoin]
      | condition text => simp [State.add, noOperators]
      | owner => simp

theorem flags_sort (reverse : Bool) (string : CString) :
    (state.sort listing reverse string).ops = state.ops ∧
      (state.sort listing reverse string).firstKeyword = state.firstKeyword := by
  rw [State.sort]
  split
  · exact ⟨rfl, rfl⟩
  · split
    · exact ⟨rfl, rfl⟩
    · exact ⟨rfl, rfl⟩

/-- What one keyword makes of the flags. -/
theorem flags_filterStep (hRead : keyword.Read) :
    (filterStep listing state keyword).ops.lastWasAnd =
        (isAnd keyword || (state.ops.lastWasAnd && !clearsJoin listing keyword)) ∧
      (filterStep listing state keyword).ops.lastWasNot =
        (isNot keyword || (state.ops.lastWasNot && !clearsJoin listing keyword)) ∧
      (filterStep listing state keyword).ops.lastWasRe =
        (isRe keyword || (state.ops.lastWasRe && !clearsRe listing keyword)) ∧
      (filterStep listing state keyword).firstKeyword =
        (state.firstKeyword && !addsCondition listing keyword) := by
  cases hKind : kind keyword with
  | nothing => simp [filterStep, isAnd, isNot, isRe, clearsJoin, clearsRe, addsCondition, hKind]
  | and => simp [filterStep, isAnd, isNot, isRe, clearsJoin, clearsRe, addsCondition, hKind]
  | not => simp [filterStep, isAnd, isNot, isRe, clearsJoin, clearsRe, addsCondition, hKind]
  | re => simp [filterStep, isAnd, isNot, isRe, clearsJoin, clearsRe, addsCondition, hKind]
  | sort reverse =>
      simp [filterStep, isAnd, isNot, isRe, clearsJoin, clearsRe, addsCondition, hKind, flags_sort]
  | first => simp [filterStep, isAnd, isNot, isRe, clearsJoin, clearsRe, addsCondition, hKind]
  | rows => simp [filterStep, isAnd, isNot, isRe, clearsJoin, clearsRe, addsCondition, hKind]
  | permission => simp [filterStep, isAnd, isNot, isRe, clearsJoin, clearsRe, addsCondition, hKind]
  | tag =>
      obtain ⟨hAnd, hNot, hRe, hFirst⟩ := @ops_term listing keyword (state.tag listing keyword) hRead
      have hTagged : (state.tag listing keyword).ops = ⟨false, false, state.ops.lastWasRe⟩ ∧
          (state.tag listing keyword).firstKeyword = false := ⟨rfl, rfl⟩
      simp [filterStep, isAnd, isNot, isRe, clearsJoin, clearsRe, addsCondition, hKind, hAnd, hNot,
        hRe, hFirst, hTagged]
  | term =>
      obtain ⟨hAnd, hNot, hRe, hFirst⟩ := @ops_term listing keyword state hRead
      simp [filterStep, isAnd, isNot, isRe, clearsJoin, clearsRe, addsCondition, hKind, hAnd, hNot,
        hRe, hFirst]

/-- The state behind one more keyword. -/
theorem filterState_append (before : List Keyword) :
    filterState listing (before ++ [keyword]) =
      filterStep listing (filterState listing before) keyword := by
  rw [filterState, List.foldl_append]
  rfl

/-- The flags behind some keywords. -/
theorem flags_filterState {before : List Keyword} (hRead : ∀ keyword ∈ before, keyword.Read) :
    (filterState listing before).ops =
        ⟨lingers isAnd (clearsJoin listing) before, lingers isNot (clearsJoin listing) before,
          lingers isRe (clearsRe listing) before⟩ ∧
      (filterState listing before).firstKeyword = !before.any (addsCondition listing) := by
  induction before using List.reverseRecOn with
  | nil => exact ⟨rfl, rfl⟩
  | append_singleton before keyword ih =>
      obtain ⟨hOps, hFirst⟩ := ih fun k hk => hRead k (List.mem_append_left _ hk)
      obtain ⟨hAnd, hNot, hRe, hFirst'⟩ := @flags_filterStep listing keyword (filterState listing before)
        (hRead keyword (List.mem_append_right _ (List.mem_singleton_self keyword)))
      rw [filterState_append]
      constructor
      · rw [lingers_append, lingers_append, lingers_append]
        rw [hOps] at hAnd hNot hRe
        rw [← hAnd, ← hNot, ← hRe]
      · rw [hFirst', hFirst, List.any_append, List.any_cons, List.any_nil, Bool.or_false, Bool.not_or]

end Step

/-! The text of one keyword. -/

/-- The terms whose text depends on the words `not`. -/
def readsNot (listing : Listing) (keyword : Keyword) : Bool :=
  addsCondition listing keyword && (keyword.column.isSome || !listing.columns.isEmpty)

/-- The terms whose text depends on the words `re` and `regexp`. -/
def readsRe (listing : Listing) (keyword : Keyword) : Bool :=
  kind keyword = .term && keyword.column = none && !keyword.equal && !listing.columns.isEmpty

/-- What the second half of the loop appends. -/
def termText (listing : Listing) (firstKeyword : Bool) (ops : Operators) (keyword : Keyword) :
    CString :=
  match keyword.column with
  | none => anywhereText listing firstKeyword ops keyword ++ lit ")"
  | some column =>
      match columnEffect listing keyword column with
      | .condition text => getJoin firstKeyword ops.lastWasAnd ops.lastWasNot ++ (text ++ lit ")")
      | _ => []

/-- What a keyword appends. -/
def stepText (listing : Listing) (firstKeyword : Bool) (ops : Operators) (keyword : Keyword) :
    CString :=
  match kind keyword with
  | .tag =>
      getJoin firstKeyword ops.lastWasAnd ops.lastWasNot ++
        (tagCondition listing keyword ++ termText listing false noOperators keyword)
  | .term => termText listing firstKeyword ops keyword
  | _ => []

section Text

variable {listing : Listing} {keyword : Keyword}

/-- What a term appends to the clause. -/
theorem clause_term (state : State) (hRead : keyword.Read) :
    (state.term listing keyword).clause =
      state.clause ++ termText listing state.firstKeyword state.ops keyword := by
  rw [State.term, termText]
  cases hColumn : keyword.column with
  | none => exact List.append_assoc _ _ _
  | some column =>
      have hRelation : keyword.relation ≠ .approx := fun h => by
        simp [hRead.relation.mp h] at hColumn
      simp only [if_neg hRelation]
      cases columnEffect listing keyword column with
      | unknown => exact (List.append_nil _).symm
      | condition text => simp only [State.add, List.append_assoc]
      | owner => exact (List.append_nil _).symm

theorem column_of_kind_tag (h : kind keyword = .tag) : ∃ column, keyword.column = some column := by
  cases hColumn : keyword.column with
  | some column => exact ⟨column, rfl⟩
  | none =>
      rw [kind, hColumn] at h
      simp only at h
      split_ifs at h

/-- A term with a column never looks at the words for regular expressions. -/
theorem termText_of_column {column : CString} (hColumn : keyword.column = some column)
    (firstKeyword : Bool) (ops ops' : Operators) (hAnd : ops.lastWasAnd = ops'.lastWasAnd)
    (hNot : ops.lastWasNot = ops'.lastWasNot) :
    termText listing firstKeyword ops keyword = termText listing firstKeyword ops' keyword := by
  simp only [termText, hColumn, hAnd, hNot]

/-- What any keyword appends to the clause. -/
theorem clause_filterStep (state : State) (hRead : keyword.Read) :
    (filterStep listing state keyword).clause =
      state.clause ++ stepText listing state.firstKeyword state.ops keyword := by
  cases hKind : kind keyword with
  | tag =>
      obtain ⟨column, hColumn⟩ := column_of_kind_tag hKind
      have hRelation : keyword.relation ≠ .approx := fun h => by
        simp [hRead.relation.mp h] at hColumn
      have hTerm : termText listing false (state.tag listing keyword).ops keyword =
          termText listing false noOperators keyword := termText_of_column hColumn _ _ _ rfl rfl
      simp only [filterStep, stepText, hKind]
      rw [clause_term _ hRead]
      simp only [State.tag, if_neg hRelation] at hTerm ⊢
      rw [hTerm, List.append_assoc, List.append_assoc]
  | term =>
      simp only [filterStep, stepText, hKind]
      exact clause_term state hRead
  | sort reverse =>
      simp only [filterStep, stepText, hKind, List.append_nil]
      rw [State.sort]
      split
      · rfl
      · split
        · rfl
        · rfl
  | nothing => simp only [filterStep, stepText, hKind, List.append_nil]
  | and => simp only [filterStep, stepText, hKind, List.append_nil]
  | not => simp only [filterStep, stepText, hKind, List.append_nil]
  | re => simp only [filterStep, stepText, hKind, List.append_nil]
  | first => simp only [filterStep, stepText, hKind, List.append_nil]
  | rows => simp only [filterStep, stepText, hKind, List.append_nil]
  | permission => simp only [filterStep, stepText, hKind, List.append_nil]

/-! Texts tell their operators. -/

/-- Which of the words the join depends on. -/
theorem getJoin_eq_iff (firstKeyword lastWasAnd lastWasNot lastWasAnd' lastWasNot' : Bool) :
    getJoin firstKeyword lastWasAnd lastWasNot = getJoin firstKeyword lastWasAnd' lastWasNot' ↔
      (firstKeyword = false → lastWasAnd = lastWasAnd') ∧ lastWasNot = lastWasNot' := by
  revert firstKeyword lastWasAnd lastWasNot lastWasAnd' lastWasNot'
  decide

theorem comparison_head (symbol : CString) (value : KeywordValue) (column string : CString) :
    (comparison symbol value column string).head? = some (ch 'C') := by
  cases value with
  | string => rfl
  | integer n => rfl
  | double printed => rfl

/-- The test of a column begins with a parenthesis exactly when it is negated. -/
theorem columnTest_head (lastWasNot lastWasRe : Bool) (column : CString) :
    (columnTest listing lastWasNot lastWasRe keyword column).head? =
      some (if lastWasNot then ch '(' else ch 'C') := by
  cases lastWasNot with
  | true =>
      cases hEqual : keyword.equal with
      | true => simp only [columnTest, hEqual]; rfl
      | false => simp only [columnTest, hEqual]; rfl
  | false =>
      cases hEqual : keyword.equal with
      | true =>
          simp only [columnTest, hEqual]
          exact comparison_head _ _ _ _
      | false => simp only [columnTest, hEqual]; rfl

theorem pattern_head (lastWasRe : Bool) (string : CString) :
    (pattern lastWasRe string).head? = some (if lastWasRe then ch 'R' else ch 'L') := by
  cases lastWasRe with
  | true => rfl
  | false => rfl

/-- Where the pattern stands in the test of a column. -/
theorem columnTest_eq_pattern (hEqual : keyword.equal = false) (lastWasNot : Bool)
    (column : CString) :
    ∃ front back, ∀ lastWasRe, columnTest listing lastWasNot lastWasRe keyword column =
      front ++ (pattern lastWasRe (quote keyword.string) ++ back) := by
  cases lastWasNot with
  | true =>
      refine ⟨lit "(" ++ quote column ++ lit " IS NULL OR " ++
        (lit "CAST (" ++ quote column ++ lit " AS TEXT) NOT "), lit ")", fun lastWasRe => ?_⟩
      simp [columnTest, hEqual, List.append_assoc]
  | false =>
      refine ⟨lit "CAST (" ++ quote column ++ lit " AS TEXT) ", [], fun lastWasRe => ?_⟩
      simp [columnTest, hEqual, List.append_assoc]

theorem columnTest_of_equal (hEqual : keyword.equal = true) (lastWasNot lastWasRe lastWasRe' : Bool) :
    columnTest listing lastWasNot lastWasRe keyword =
      columnTest listing lastWasNot lastWasRe' keyword := by
  funext column
  simp only [columnTest, hEqual, if_true]

/-- The tests of all columns. -/
def tests (listing : Listing) (lastWasNot lastWasRe : Bool) (keyword : Keyword) : CString :=
  (if lastWasNot then lit " AND " else lit " OR ").intercalate
    (listing.columns.map (columnTest listing lastWasNot lastWasRe keyword))

theorem exists_intercalate_cons (separator x : CString) (xs : List CString) :
    ∃ rest, separator.intercalate (x :: xs) = x ++ rest := by
  cases xs with
  | nil => exact ⟨[], by rw [List.intercalate_singleton, List.append_nil]⟩
  | cons y ys => exact ⟨_, by rw [List.intercalate_cons_cons, List.append_assoc]⟩

theorem head_append_of_head {xs ys : CString} {c : UInt8} (h : xs.head? = some c) :
    (xs ++ ys).head? = some c := by
  rw [List.head?_append, h]
  rfl

/-- Which of the words the tests of all columns depend on. -/
theorem tests_eq_iff (lastWasNot lastWasRe lastWasNot' lastWasRe' : Bool) :
    tests listing lastWasNot lastWasRe keyword = tests listing lastWasNot' lastWasRe' keyword ↔
      (listing.columns.isEmpty = false → lastWasNot = lastWasNot') ∧
        (keyword.equal = false → listing.columns.isEmpty = false → lastWasRe = lastWasRe') := by
  cases hColumns : listing.columns with
  | nil => simp [tests, hColumns]
  | cons column columns =>
      constructor
      · intro h
        rw [tests, tests, hColumns, List.map_cons, List.map_cons] at h
        obtain ⟨rest, hRest⟩ := exists_intercalate_cons
          (if lastWasNot then lit " AND " else lit " OR ")
          (columnTest listing lastWasNot lastWasRe keyword column)
          (columns.map (columnTest listing lastWasNot lastWasRe keyword))
        obtain ⟨rest', hRest'⟩ := exists_intercalate_cons
          (if lastWasNot' then lit " AND " else lit " OR ")
          (columnTest listing lastWasNot' lastWasRe' keyword column)
          (columns.map (columnTest listing lastWasNot' lastWasRe' keyword))
        rw [hRest, hRest'] at h
        have hHead := congrArg List.head? h
        rw [head_append_of_head (columnTest_head lastWasNot lastWasRe column),
          head_append_of_head (columnTest_head lastWasNot' lastWasRe' column)] at hHead
        have hNot : lastWasNot = lastWasNot' := by
          revert hHead
          clear h hRest hRest'
          revert lastWasNot lastWasNot'
          decide
        refine ⟨fun _ => hNot, fun hEqual _ => ?_⟩
        subst hNot
        obtain ⟨front, back, hPattern⟩ := @columnTest_eq_pattern listing keyword hEqual lastWasNot column
        rw [hPattern, hPattern, List.append_assoc, List.append_assoc, List.append_assoc,
          List.append_assoc] at h
        have hRe := congrArg List.head? (List.append_cancel_left h)
        rw [head_append_of_head (pattern_head lastWasRe _),
          head_append_of_head (pattern_head lastWasRe' _)] at hRe
        revert hRe
        clear h hRest hRest' hPattern
        revert lastWasRe lastWasRe'
        decide
      · rintro ⟨hNot, hRe⟩
        obtain rfl := hNot rfl
        cases hEqual : keyword.equal with
        | true => rw [tests, tests, columnTest_of_equal hEqual lastWasNot lastWasRe lastWasRe']
        | false => rw [hRe hEqual rfl]

/-- Which of the words the condition of a term without a column depends on. -/
theorem anywhereText_eq_iff (firstKeyword : Bool) (ops ops' : Operators) :
    anywhereText listing firstKeyword ops keyword = anywhereText listing firstKeyword ops' keyword ↔
      (firstKeyword = false → ops.lastWasAnd = ops'.lastWasAnd) ∧
        (listing.columns.isEmpty = false → ops.lastWasNot = ops'.lastWasNot) ∧
        (keyword.equal = false → listing.columns.isEmpty = false →
          ops.lastWasRe = ops'.lastWasRe) := by
  rw [← tests_eq_iff]
  obtain ⟨a, n, r⟩ := ops
  obtain ⟨a', n', r'⟩ := ops'
  simp only [anywhereText, List.append_assoc]
  cases firstKeyword with
  | true => exact ⟨fun h => ⟨nofun, List.append_cancel_left h⟩, fun h => congrArg (lit "(" ++ ·) h.2⟩
  | false =>
      constructor
      · intro h
        have hAnd : a = a' := by
          cases a with
          | true =>
              cases a' with
              | true => rfl
              | false =>
                  have hHead : some (ch 'A') = some (ch 'O') := congrArg (fun text => text[1]?) h
                  exact absurd hHead (by decide)
          | false =>
              cases a' with
              | true =>
                  have hHead : some (ch 'O') = some (ch 'A') := congrArg (fun text => text[1]?) h
                  exact absurd hHead (by decide)
              | false => rfl
        subst hAnd
        exact ⟨fun _ => rfl, List.append_cancel_left (List.append_cancel_left h)⟩
      · rintro ⟨hAnd, hTests⟩
        obtain rfl := hAnd rfl
        exact congrArg (fun text => _ ++ (lit "(" ++ text)) hTests

/-- Which of the words the condition of a term depends on. -/
theorem termText_eq_iff (hKind : kind keyword = .term) (firstKeyword : Bool) (ops ops' : Operators) :
    termText listing firstKeyword ops keyword = termText listing firstKeyword ops' keyword ↔
      (addsCondition listing keyword = true → firstKeyword = false →
        ops.lastWasAnd = ops'.lastWasAnd) ∧
      (readsNot listing keyword = true → ops.lastWasNot = ops'.lastWasNot) ∧
      (readsRe listing keyword = true → ops.lastWasRe = ops'.lastWasRe) := by
  simp only [addsCondition, readsNot, readsRe, hKind]
  cases hColumn : keyword.column with
  | none =>
      rw [show termText listing firstKeyword ops keyword = anywhereText listing firstKeyword ops keyword ++ lit ")" by
        simp only [termText, hColumn], show termText listing firstKeyword ops' keyword = anywhereText listing firstKeyword ops' keyword ++ lit ")" by
        simp only [termText, hColumn], List.append_left_inj, anywhereText_eq_iff]
      simp [hasCondition, hColumn]
  | some column =>
      simp only [termText, hasCondition, hColumn]
      cases columnEffect listing keyword column with
      | unknown => simp
      | owner => simp
      | condition text => simp [getJoin_eq_iff]

/-- The text of a keyword depends on the words it reads, and on no others. -/
theorem stepText_eq_iff (firstKeyword : Bool) (ops ops' : Operators) :
    stepText listing firstKeyword ops keyword = stepText listing firstKeyword ops' keyword ↔
      (addsCondition listing keyword = true → firstKeyword = false →
        ops.lastWasAnd = ops'.lastWasAnd) ∧
      (readsNot listing keyword = true → ops.lastWasNot = ops'.lastWasNot) ∧
      (readsRe listing keyword = true → ops.lastWasRe = ops'.lastWasRe) := by
  cases hKind : kind keyword with
  | term =>
      simp only [stepText, hKind]
      exact termText_eq_iff hKind firstKeyword ops ops'
  | tag =>
      obtain ⟨column, hColumn⟩ := column_of_kind_tag hKind
      simp only [stepText, addsCondition, readsNot, readsRe, hKind, hColumn]
      simp [getJoin_eq_iff]
  | nothing => simp [stepText, addsCondition, readsNot, readsRe, hKind]
  | and => simp [stepText, addsCondition, readsNot, readsRe, hKind]
  | not => simp [stepText, addsCondition, readsNot, readsRe, hKind]
  | re => simp [stepText, addsCondition, readsNot, readsRe, hKind]
  | sort reverse => simp [stepText, addsCondition, readsNot, readsRe, hKind]
  | first => simp [stepText, addsCondition, readsNot, readsRe, hKind]
  | rows => simp [stepText, addsCondition, readsNot, readsRe, hKind]
  | permission => simp [stepText, addsCondition, readsNot, readsRe, hKind]

end Text

/-! The whole filter. -/

/-- The words that a term uses also stand between it and the term in front of it. The word
`and` says nothing where no condition has been added. -/
def WordsAdjacent (listing : Listing) (before : List Keyword) (term : Keyword) : Prop :=
  (addsCondition listing term = true → before.any (addsCondition listing) = true →
    lingers isAnd (clearsJoin listing) before = true → lingers isAnd isTerm before = true) ∧
  (readsNot listing term = true →
    lingers isNot (clearsJoin listing) before = true → lingers isNot isTerm before = true) ∧
  (readsRe listing term = true →
    lingers isRe (clearsRe listing) before = true → lingers isRe isTerm before = true)

/-- No word lingers behind a term until a later term uses it. -/
def NothingLingers (listing : Listing) (keywords : List Keyword) : Prop :=
  ∀ before term after, keywords = before ++ term :: after → WordsAdjacent listing before term

theorem isTerm_of_clearsJoin {listing : Listing} (keyword : Keyword)
    (h : clearsJoin listing keyword = true) : isTerm keyword = true := by
  cases hKind : kind keyword <;> simp_all [clearsJoin, isTerm, isAnd, isNot, isRe]

theorem isTerm_of_clearsRe {listing : Listing} (keyword : Keyword)
    (h : clearsRe listing keyword = true) : isTerm keyword = true := by
  cases hKind : kind keyword <;> simp_all [clearsRe, isTerm, isAnd, isNot, isRe]

/-- What stands directly in front of a term also lingers there. -/
theorem lingers_eq_iff {word clears : Keyword → Bool}
    (hClears : ∀ keyword, clears keyword = true → isTerm keyword = true) (before : List Keyword) :
    lingers word clears before = lingers word isTerm before ↔
      (lingers word clears before = true → lingers word isTerm before = true) := by
  constructor
  · intro h hActual
    rwa [← h]
  · intro h
    exact Bool.eq_iff_iff.mpr ⟨h, lingers_mono hClears⟩

/-- One term is scoped when the words that it uses are in front of it. -/
theorem clause_scoped_iff {listing : Listing} {before : List Keyword} {term : Keyword}
    (hBefore : ∀ keyword ∈ before, keyword.Read) (hTerm : term.Read) :
    (filterStep listing (filterState listing before) term).clause =
        (filterStep listing
          { filterState listing before with ops := scopedOps before } term).clause ↔
      WordsAdjacent listing before term := by
  obtain ⟨hOps, hFirst⟩ := @flags_filterState listing before hBefore
  rw [clause_filterStep _ hTerm, clause_filterStep _ hTerm, List.append_cancel_left_eq,
    stepText_eq_iff, hOps, hFirst, Bool.not_eq_false']
  simp only [scopedOps]
  rw [lingers_eq_iff isTerm_of_clearsJoin, lingers_eq_iff isTerm_of_clearsJoin,
    lingers_eq_iff isTerm_of_clearsRe]
  exact Iff.rfl

/-- Words and texts that are ignored use no words. -/
theorem wordsAdjacent_of_not_isTerm {listing : Listing} {before : List Keyword} {term : Keyword}
    (h : isTerm term = false) : WordsAdjacent listing before term := by
  cases hKind : kind term with
  | nothing | and | not | re => simp [WordsAdjacent, addsCondition, readsNot, readsRe, hKind]
  | sort | first | rows | permission | tag | term =>
      simp [isTerm, isAnd, isNot, isRe, hKind] at h

/-- The terms of a filter use exactly the operator words directly in front of them when no
word lingers. -/
theorem operatorsScoped_iff (listing : Listing) (filter : Option CString) :
    OperatorsScoped listing (filterKeywords filter) ↔
      NothingLingers listing (filterKeywords filter) := by
  have hScoped : ∀ before term after, filterKeywords filter = before ++ term :: after →
      ((filterStep listing (filterState listing before) term).clause =
          (filterStep listing
            { filterState listing before with ops := scopedOps before } term).clause ↔
        WordsAdjacent listing before term) := by
    intro before term after hKeywords
    have hRead : ∀ keyword ∈ before ++ term :: after, keyword.Read := by
      rw [← hKeywords]
      exact splitFilter_read _
    exact clause_scoped_iff (fun keyword hKeyword => hRead keyword (List.mem_append_left _ hKeyword))
      (hRead term (List.mem_append_right _ List.mem_cons_self))
  constructor
  · intro h before term after hKeywords
    cases hIsTerm : isTerm term with
    | true => exact (hScoped before term after hKeywords).mp (h before term after hKeywords hIsTerm)
    | false => exact wordsAdjacent_of_not_isTerm hIsTerm
  · intro h before term after hKeywords _
    exact (hScoped before term after hKeywords).mpr (h before term after hKeywords)

/-- Resources with a name and an owner, and keywords without numbers. -/
def ownedListing : Listing where
  type := lit "target"
  columns := [lit "name", lit "_owner"]
  trash := false
  value _ := .string
  scansDouble _ := false

/-- An owner is no condition, and the word in front of it negates the next term. -/
theorem not_operatorsScoped_owner :
    (filterClause ownedListing 10 (some (lit "not owner=admin web"))).clause =
        (filterClause ownedListing 10 (some (lit "not web"))).clause ∧
      ¬ OperatorsScoped ownedListing (filterKeywords (some (lit "not owner=admin web"))) := by
  constructor
  · decide +kernel
  · intro h
    have hKeywords : filterKeywords (some (lit "not owner=admin web")) =
        [⟨none, .approx, lit "not", false, false⟩,
          ⟨some (lit "owner"), .columnEqual, lit "admin", false, false⟩] ++
        ⟨none, .approx, lit "web", false, false⟩ ::
          (filterKeywords (some (lit "not owner=admin web"))).drop 3 := by
      decide +kernel
    exact absurd (h _ _ _ hKeywords (by decide +kernel)) (by decide +kernel)

end Filters
