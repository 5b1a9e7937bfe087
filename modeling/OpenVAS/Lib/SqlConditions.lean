import OpenVAS.Lib.SqlTokens

/-! Conditions of statements: how their words are read by precedence. Only a part of the
language is read here; what is outside of it has no meaning. -/
namespace Sql

open CString

inductive Comparison where
  | equal
  | notEqual
  | less
  | greater
  | like
  | regexp
  deriving DecidableEq

structure Name where
  quoted : Bool
  text : CString
  deriving DecidableEq

/-- What a sub-select reads: one column, or all of them, of one table. -/
structure Source where
  distinct : Bool
  column : Option Name
  table : Name
  deriving DecidableEq

/-- Expressions as they are written, with their parentheses. -/
inductive Expr where
  | column (table : Option Name) (name : Name)
  | literal (string : CString)
  | number (negative : Bool) (digits : CString)
  | null
  | paren (a : Expr)
  | not (a : Expr)
  | and (a b : Expr)
  | or (a b : Expr)
  | compare (comparison : Comparison) (negated : Bool) (a b : Expr)
  | isNull (a : Expr)
  | isIn (a : Expr) (source : Source) (condition : Expr)
  | cast (a : Expr) (type : Name)
  | select (source : Source) (condition : Expr)
  | existsRow (source : Source) (condition : Expr)
  deriving DecidableEq

/-! Words. -/

/-- The words that are no names. -/
def reserved : List CString :=
  [lit "SELECT", lit "DISTINCT", lit "FROM", lit "WHERE", lit "AND", lit "OR", lit "NOT", lit "IN",
    lit "IS", lit "NULL", lit "EXISTS", lit "CAST", lit "AS", lit "LIKE", lit "REGEXP"]

def isKeyword (keyword : CString) : Token → Bool
  | .word text => strcaseeq text keyword
  | _ => false

def isReserved (token : Token) : Bool := reserved.any (isKeyword · token)

def isSign (sign : CString) (token : Token) : Bool := token = .sign sign

def nameOf (token : Token) : Option Name :=
  match token with
  | .name text => some ⟨true, text⟩
  | .word text => if isReserved token then none else some ⟨false, text⟩
  | _ => none

/-- One word of a kind. -/
def expect (p : Token → Bool) : List Token → Option (List Token)
  | [] => none
  | token :: rest => if p token then some rest else none

def expectName : List Token → Option (Name × List Token)
  | [] => none
  | token :: rest => (nameOf token).map (·, rest)

/-- Digits, a fraction and an exponent. -/
def isNumber (text : CString) : Bool :=
  let fraction := text.dropWhile isdigit
  let exponent := if fraction.head? = some (ch '.') then fraction.tail.dropWhile isdigit else fraction
  let digits :=
    if exponent.head?.any fun c => c = ch 'e' || c = ch 'E' then
      if exponent.tail.head?.any fun c => c = ch '+' || c = ch '-' then exponent.tail.tail
      else exponent.tail
    else exponent
  text.head?.any isdigit && (exponent = [] || (digits ≠ exponent && digits ≠ [] && digits.all isdigit))

def expectNumber : List Token → Option (CString × List Token)
  | .number text :: rest => if isNumber text then some (text, rest) else none
  | _ => none

/-- The operator of a comparison. -/
def comparisonOf (token : Token) : Option Comparison :=
  if isSign (lit "=") token || isSign (lit "==") token then some .equal
  else if isSign (lit "!=") token || isSign (lit "<>") token then some .notEqual
  else if isSign (lit "<") token then some .less
  else if isSign (lit ">") token then some .greater
  else if isKeyword (lit "LIKE") token then some .like
  else if isKeyword (lit "REGEXP") token then some .regexp
  else none

/-- The comparisons that can have a NOT in front. -/
def Comparison.isMatch (comparison : Comparison) : Bool :=
  comparison = .like || comparison = .regexp

@[grind] def expectComparison : List Token → Option ((Comparison × Bool) × List Token)
  | [] => none
  | token :: rest =>
      if isKeyword (lit "NOT") token then
        match rest with
        | [] => none
        | token :: rest =>
            match comparisonOf token with
            | some comparison =>
                if comparison.isMatch then some ((comparison, true), rest) else none
            | none => none
      else (comparisonOf token).map fun comparison => ((comparison, false), rest)

/-- The words of a sub-select up to its condition. -/
@[grind] def expectSource (words : List Token) : Option (Source × List Token) :=
  (expect (isKeyword (lit "SELECT")) words).bind fun words =>
    let distinct := (expect (isKeyword (lit "DISTINCT")) words).isSome
    let words := (expect (isKeyword (lit "DISTINCT")) words).getD words
    let column : Option (Option Name × List Token) :=
      match expect (isSign (lit "*")) words with
      | some words => some (none, words)
      | none => (expectName words).map fun (name, words) => ((some name : Option Name), words)
    column.bind fun (column, words) =>
      (expect (isKeyword (lit "FROM")) words).bind fun words =>
        (expectName words).bind fun (table, words) =>
          (expect (isKeyword (lit "WHERE")) words).map fun words => (⟨distinct, column, table⟩, words)

/-! Reading. -/

/-- What is read binds as tight as the level. -/
inductive Level where
  | primary
  | comparison
  | not
  | and
  | or
  deriving DecidableEq

def Level.rank : Level → Nat
  | .primary => 0
  | .comparison => 1
  | .not => 2
  | .and => 3
  | .or => 4

/-- The first expression of some words, and what is left. -/
@[grind] def parse : Nat → Level → List Token → Option (Expr × List Token)
  | 0, _, _ => none
  | fuel + 1, .or, words =>
      (parse fuel .and words).bind fun (a, rest) =>
        match expect (isKeyword (lit "OR")) rest with
        | none => some (a, rest)
        | some rest => (parse fuel .or rest).map fun (b, rest) => (.or a b, rest)
  | fuel + 1, .and, words =>
      (parse fuel .not words).bind fun (a, rest) =>
        match expect (isKeyword (lit "AND")) rest with
        | none => some (a, rest)
        | some rest => (parse fuel .and rest).map fun (b, rest) => (.and a b, rest)
  | fuel + 1, .not, words =>
      match expect (isKeyword (lit "NOT")) words with
      | none => parse fuel .comparison words
      | some rest => (parse fuel .not rest).map fun (a, rest) => (.not a, rest)
  | fuel + 1, .comparison, words =>
      (parse fuel .primary words).bind fun (a, rest) =>
        match expect (isKeyword (lit "IS")) rest with
        | some rest => (expect (isKeyword (lit "NULL")) rest).map fun rest => (.isNull a, rest)
        | none =>
            match expect (isKeyword (lit "IN")) rest with
            | some rest =>
                (expect (isSign (lit "(")) rest).bind fun rest =>
                  (expectSource rest).bind fun (source, rest) =>
                    (parse fuel .or rest).bind fun (condition, rest) =>
                      (expect (isSign (lit ")")) rest).map fun rest =>
                        (.isIn a source condition, rest)
            | none =>
                match expectComparison rest with
                | none => some (a, rest)
                | some ((comparison, negated), rest) =>
                    (parse fuel .primary rest).map fun (b, rest) =>
                      (.compare comparison negated a b, rest)
  | _ + 1, .primary, [] => none
  | _ + 1, .primary, .literal text :: rest => some (.literal text, rest)
  | fuel + 1, .primary, token :: rest =>
      if isSign (lit "(") token then
        match expectSource rest with
        | some (source, rest) =>
            (parse fuel .or rest).bind fun (condition, rest) =>
              (expect (isSign (lit ")")) rest).map fun rest => (.select source condition, rest)
        | none =>
            (parse fuel .or rest).bind fun (a, rest) =>
              (expect (isSign (lit ")")) rest).map fun rest => (.paren a, rest)
      else if isKeyword (lit "EXISTS") token then
        (expect (isSign (lit "(")) rest).bind fun rest =>
          (expectSource rest).bind fun (source, rest) =>
            (parse fuel .or rest).bind fun (condition, rest) =>
              (expect (isSign (lit ")")) rest).map fun rest => (.existsRow source condition, rest)
      else if isKeyword (lit "CAST") token then
        (expect (isSign (lit "(")) rest).bind fun rest =>
          (parse fuel .or rest).bind fun (a, rest) =>
            (expect (isKeyword (lit "AS")) rest).bind fun rest =>
              (expectName rest).bind fun (type, rest) =>
                (expect (isSign (lit ")")) rest).map fun rest => (.cast a type, rest)
      else if isKeyword (lit "NULL") token then some (.null, rest)
      else if isSign (lit "-") token then
        (expectNumber rest).map fun (digits, rest) => (.number true digits, rest)
      else
        match expectNumber (token :: rest) with
        | some (digits, rest) => some (.number false digits, rest)
        | none =>
            (nameOf token).bind fun name =>
              match expect (isSign (lit ".")) rest with
              | none => some (.column none name, rest)
              | some rest => (expectName rest).map fun (column, rest) =>
                  (.column (some name) column, rest)

/-- The condition that a text is, when all of it is one. -/
def condition (text : CString) : Option Expr :=
  match parse (5 * (tokens text).length + 5) .or (tokens text) with
  | some (e, []) => some e
  | _ => none

/-! Writing. -/

def Name.word (name : Name) : Token := if name.quoted then .name name.text else .word name.text

def Comparison.word : Comparison → Token
  | .equal => .sign (lit "=")
  | .notEqual => .sign (lit "!=")
  | .less => .sign (lit "<")
  | .greater => .sign (lit ">")
  | .like => .word (lit "LIKE")
  | .regexp => .word (lit "REGEXP")

@[grind] def Source.words (source : Source) : List Token :=
  .word (lit "SELECT") :: (if source.distinct then [.word (lit "DISTINCT")] else []) ++
    [source.column.elim (.sign (lit "*")) Name.word, .word (lit "FROM"), source.table.word,
      .word (lit "WHERE")]

/-- The words of an expression. -/
@[grind] def Expr.words : Expr → List Token
  | .column none name => [name.word]
  | .column (some table) name => [table.word, .sign (lit "."), name.word]
  | .literal string => [.literal string]
  | .number negative digits => (if negative then [.sign (lit "-")] else []) ++ [.number digits]
  | .null => [.word (lit "NULL")]
  | .paren a => .sign (lit "(") :: a.words ++ [.sign (lit ")")]
  | .not a => .word (lit "NOT") :: a.words
  | .and a b => a.words ++ .word (lit "AND") :: b.words
  | .or a b => a.words ++ .word (lit "OR") :: b.words
  | .compare comparison negated a b =>
      a.words ++ (if negated then [.word (lit "NOT")] else []) ++ comparison.word :: b.words
  | .isNull a => a.words ++ [.word (lit "IS"), .word (lit "NULL")]
  | .isIn a source condition =>
      a.words ++ .word (lit "IN") :: .sign (lit "(") :: source.words ++ condition.words ++
        [.sign (lit ")")]
  | .cast a type =>
      .word (lit "CAST") :: .sign (lit "(") :: a.words ++
        [.word (lit "AS"), type.word, .sign (lit ")")]
  | .select source condition =>
      .sign (lit "(") :: source.words ++ condition.words ++ [.sign (lit ")")]
  | .existsRow source condition =>
      .word (lit "EXISTS") :: .sign (lit "(") :: source.words ++ condition.words ++ [.sign (lit ")")]

@[grind] def Expr.level : Expr → Level
  | .not _ => .not
  | .and _ _ => .and
  | .or _ _ => .or
  | .compare .. | .isNull _ | .isIn .. => .comparison
  | _ => .primary

/-- A name that is read as one. -/
def Name.fits (name : Name) : Bool := name.quoted || !isReserved (.word name.text)

def Source.fits (source : Source) : Bool := source.column.all Name.fits && source.table.fits

/-- Expressions are written so that precedence does not take them apart. -/
@[grind] def Expr.fits : Expr → Bool
  | .column table name => table.all Name.fits && name.fits
  | .literal _ => true
  | .number _ digits => isNumber digits
  | .null => true
  | .paren a => a.fits
  | .not a => a.fits && a.level.rank ≤ Level.not.rank
  | .and a b => a.fits && b.fits && a.level.rank ≤ Level.not.rank && b.level.rank ≤ Level.and.rank
  | .or a b => a.fits && b.fits && a.level.rank ≤ Level.and.rank
  | .compare comparison negated a b =>
      a.fits && b.fits && a.level = .primary && b.level = .primary &&
        (!negated || comparison.isMatch)
  | .isNull a => a.fits && a.level = .primary
  | .isIn a source condition => a.fits && a.level = .primary && source.fits && condition.fits
  | .cast a type => a.fits && type.fits
  | .select source condition => source.fits && condition.fits
  | .existsRow source condition => source.fits && condition.fits

/-- Expressions joined by OR. -/
@[grind] def anyOf : Expr → List Expr → Expr
  | first, [] => first
  | first, next :: rest => .or first (anyOf next rest)

theorem words_anyOf (first : Expr) (rest : List Expr) :
    (anyOf first rest).words = first.words ++ rest.flatMap fun e => word "OR" :: e.words := by
  induction rest generalizing first with
  | nil => rw [anyOf, List.flatMap_nil, List.append_nil]
  | cons next rest ih =>
      rw [anyOf, Expr.words, ih, List.flatMap_cons]
      rfl

section Fitting

variable {a b : Expr} (ha : a.fits = true) (hb : b.fits = true)
include ha hb

theorem Expr.fits_and (hLevel : decide (a.level.rank ≤ Level.not.rank) = true)
    (hLevel' : decide (b.level.rank ≤ Level.and.rank) = true) : (Expr.and a b).fits = true := by
  simp only [Expr.fits, ha, hb, hLevel, hLevel', Bool.and_self]

theorem Expr.fits_or (hLevel : decide (a.level.rank ≤ Level.and.rank) = true) :
    (Expr.or a b).fits = true := by
  simp only [Expr.fits, ha, hb, hLevel, Bool.and_self]

theorem Expr.fits_equal (hLevel : decide (a.level = .primary) = true)
    (hLevel' : decide (b.level = .primary) = true) :
    (Expr.compare .equal false a b).fits = true := by
  simp only [Expr.fits, ha, hb, hLevel, hLevel', Bool.and_self, Bool.not_false, Bool.true_or]

end Fitting

theorem fits_anyOf {first : Expr} {rest : List Expr}
    (h : ∀ e ∈ first :: rest, e.fits = true ∧ decide (e.level.rank ≤ Level.and.rank) = true) :
    (anyOf first rest).fits = true := by
  induction rest generalizing first with
  | nil => exact (h first List.mem_cons_self).1
  | cons next rest ih =>
      obtain ⟨hFits, hLevel⟩ := h first List.mem_cons_self
      exact Expr.fits_or hFits (ih fun e he => h e (List.mem_cons_of_mem _ he)) hLevel

/-! The reader finds the expressions that are written. -/

theorem Level.rank_le_or (level : Level) : level.rank ≤ Level.or.rank := by
  cases level <;> decide

/-- The words that go on behind a primary expression. -/
def goesOn (token : Token) : Bool :=
  isKeyword (lit "IS") token || isKeyword (lit "IN") token || isKeyword (lit "NOT") token ||
    (comparisonOf token).isSome

/-- The words that would be added to what is read at a level. -/
def Level.continues : Level → Token → Bool
  | .primary, token => isSign (lit ".") token
  | .comparison, token | .not, token => isSign (lit ".") token || goesOn token
  | .and, token => isSign (lit ".") token || goesOn token || isKeyword (lit "AND") token
  | .or, token =>
      isSign (lit ".") token || goesOn token || isKeyword (lit "AND") token ||
        isKeyword (lit "OR") token

def Level.stops (level : Level) (rest : List Token) : Bool := rest.head?.all (!level.continues ·)

/-- Some words are an expression of a level, whatever follows that does not continue it. -/
def ReadsAs (level : Level) (words : List Token) (e : Expr) : Prop :=
  ∀ fuel rest, 5 * words.length + level.rank < fuel → level.stops rest = true →
    parse fuel level (words ++ rest) = some (e, rest)

section Rules

variable {level : Level} {words words' rest : List Token} {a b e : Expr}

theorem Level.stops_cons {token : Token} (h : level.continues token = false) :
    level.stops (token :: rest) = true := by
  simp [Level.stops, h]

theorem expect_of_stops {p : Token → Bool} (h : ∀ token, p token = true → level.continues token = true)
    (hStops : level.stops rest = true) : expect p rest = none := by
  cases rest with
  | nil => rfl
  | cons token rest =>
      rw [expect, if_neg]
      intro hToken
      simp [Level.stops, h token hToken] at hStops

theorem expectComparison_of_stops (hStops : Level.comparison.stops rest = true) :
    expectComparison rest = none := by
  cases rest with
  | nil => rfl
  | cons token rest =>
      simp only [Level.stops, Level.continues, goesOn, List.head?_cons, Option.all_some,
        Bool.not_eq_true', Bool.or_eq_false_iff, Option.isSome_eq_false_iff,
        Option.isNone_iff_eq_none] at hStops
      obtain ⟨-, ⟨-, hNot⟩, hNone⟩ := hStops
      simp only [expectComparison, hNot, hNone]
      rfl

theorem Level.stops_mono {level' : Level} (h : level.rank ≤ level'.rank)
    (hStops : level'.stops rest = true) : level.stops rest = true := by
  cases rest with
  | nil => rfl
  | cons token rest =>
      cases level <;> cases level' <;>
        simp_all [Level.rank, Level.stops, Level.continues]

theorem ReadsAs.comparison (h : ReadsAs .primary words e) : ReadsAs .comparison words e := by
  intro fuel rest hFuel hStops
  obtain ⟨fuel, rfl⟩ := Nat.exists_eq_succ_of_ne_zero (Nat.ne_of_gt (Nat.zero_lt_of_lt hFuel))
  rw [parse, h fuel rest (by simp only [Level.rank] at hFuel ⊢; omega)
    (Level.stops_mono (by decide) hStops)]
  have hIs : expect (isKeyword (lit "IS")) rest = none :=
    expect_of_stops (fun token hToken => by simp [Level.continues, goesOn, hToken]) hStops
  have hIn : expect (isKeyword (lit "IN")) rest = none :=
    expect_of_stops (fun token hToken => by simp [Level.continues, goesOn, hToken]) hStops
  simp only [Option.bind_some, hIs, hIn, expectComparison_of_stops hStops]

/-- A word that begins no expression. -/
theorem parse_primary_none {token : Token} (hReserved : isReserved token = true)
    (hExists : isKeyword (lit "EXISTS") token = false) (hCast : isKeyword (lit "CAST") token = false)
    (hNull : isKeyword (lit "NULL") token = false) (fuel : Nat) :
    parse fuel .primary (token :: rest) = none := by
  cases fuel with
  | zero => rfl
  | succ fuel =>
      cases token with
      | word text =>
          have hName : nameOf (.word text) = none := if_pos hReserved
          simp [parse, isSign, hExists, hCast, hNull, expectNumber, hName]
      | _ => simp [isReserved, isKeyword] at hReserved

/-- The words that begin no expression in spite of being behind none. -/
theorem parse_comparison_not {token : Token} (h : isKeyword (lit "NOT") token = true) (fuel : Nat) :
    parse fuel .comparison (token :: rest) = none := by
  cases token with
  | word text =>
      have hText : text.map tolower = (lit "NOT").map tolower := of_decide_eq_true h
      cases fuel with
      | zero => rfl
      | succ fuel =>
          rw [parse, parse_primary_none]
          · rfl
          all_goals
            simp only [isReserved, reserved, isKeyword, strcaseeq, hText]
            decide
  | _ => cases h

theorem parse_select {token : Token} (h : isKeyword (lit "SELECT") token = true) (fuel : Nat)
    (level : Level) : parse fuel level (token :: rest) = none := by
  cases token with
  | word text =>
      have hText : text.map tolower = (lit "SELECT").map tolower := of_decide_eq_true h
      have hNot : expect (isKeyword (lit "NOT")) (.word text :: rest) = none := by
        simp only [expect, isKeyword, strcaseeq, hText]
        rfl
      have hPrimary (fuel : Nat) : parse fuel .primary (.word text :: rest) = none := by
        apply parse_primary_none
        all_goals
          simp only [isReserved, reserved, isKeyword, strcaseeq, hText]
          decide
      induction fuel generalizing level with
      | zero => rfl
      | succ fuel ih =>
          cases level with
          | primary => exact hPrimary _
          | comparison => rw [parse, hPrimary, Option.bind_none]
          | not => rw [parse, hNot, ih]
          | and => rw [parse, ih, Option.bind_none]
          | or => rw [parse, ih, Option.bind_none]
  | _ => cases h

theorem ReadsAs.not (h : ReadsAs .comparison words e) : ReadsAs .not words e := by
  intro fuel rest hFuel hStops
  obtain ⟨fuel, rfl⟩ := Nat.exists_eq_succ_of_ne_zero (Nat.ne_of_gt (Nat.zero_lt_of_lt hFuel))
  have hRead := h fuel rest (by simp only [Level.rank] at hFuel ⊢; omega) hStops
  rw [parse]
  cases hWords : words ++ rest with
  | nil => rw [expect, ← hWords, hRead]
  | cons token others =>
      rw [hWords] at hRead
      cases hNot : isKeyword (lit "NOT") token with
      | true =>
          rw [parse_comparison_not hNot] at hRead
          cases hRead
      | false => simp only [expect, hNot, Bool.false_eq_true, if_false, hRead]

theorem ReadsAs.and (h : ReadsAs .not words e) : ReadsAs .and words e := by
  intro fuel rest hFuel hStops
  obtain ⟨fuel, rfl⟩ := Nat.exists_eq_succ_of_ne_zero (Nat.ne_of_gt (Nat.zero_lt_of_lt hFuel))
  have hNone : expect (isKeyword (lit "AND")) rest = none :=
    expect_of_stops (fun token hToken => by simp [Level.continues, hToken]) hStops
  rw [parse, h fuel rest (by simp only [Level.rank] at hFuel ⊢; omega)
    (Level.stops_mono (by decide) hStops)]
  simp only [Option.bind_some, hNone]

theorem ReadsAs.or (h : ReadsAs .and words e) : ReadsAs .or words e := by
  intro fuel rest hFuel hStops
  obtain ⟨fuel, rfl⟩ := Nat.exists_eq_succ_of_ne_zero (Nat.ne_of_gt (Nat.zero_lt_of_lt hFuel))
  have hNone : expect (isKeyword (lit "OR")) rest = none :=
    expect_of_stops (fun token hToken => by simp [Level.continues, hToken]) hStops
  rw [parse, h fuel rest (by simp only [Level.rank] at hFuel ⊢; omega)
    (Level.stops_mono (by decide) hStops)]
  simp only [Option.bind_some, hNone]

/-- What is read at a level is read at the wider ones. -/
theorem ReadsAs.mono {level' : Level} (hLevel : level.rank ≤ level'.rank) (h : ReadsAs level words e) :
    ReadsAs level' words e := by
  cases level <;> cases level' <;> simp only [Level.rank] at hLevel <;>
    first
    | exact h
    | exact h.comparison
    | exact h.not
    | exact h.and
    | exact h.or
    | exact h.comparison.not
    | exact h.comparison.not.and
    | exact h.comparison.not.and.or
    | exact h.not.and
    | exact h.not.and.or
    | exact h.and.or
    | omega

/-! The rule for each expression. -/

theorem expect_cons {p : Token → Bool} {token : Token} (h : p token = true) :
    expect p (token :: rest) = some rest := if_pos h

theorem expectName_word {name : Name} (h : name.fits = true) :
    expectName (name.word :: rest) = some (name, rest) := by
  obtain ⟨quoted, text⟩ := name
  cases quoted with
  | true => rfl
  | false =>
      have hName : isReserved (.word text) = false := by simpa [Name.fits] using h
      simp [expectName, Name.word, nameOf, hName]

theorem isKeyword_name {name : Name} (h : name.fits = true) {keyword : CString}
    (hKeyword : keyword ∈ reserved) : isKeyword keyword name.word = false := by
  obtain ⟨quoted, text⟩ := name
  cases quoted with
  | true => rfl
  | false =>
      have hName : isReserved (.word text) = false := by simpa [Name.fits] using h
      rw [isReserved, List.any_eq_false] at hName
      simpa [Name.word] using hName keyword hKeyword

@[simp]
theorem isKeyword_self (keyword : CString) : isKeyword keyword (.word keyword) = true :=
  decide_eq_true rfl

@[simp]
theorem isKeyword_sign (keyword sign : CString) : isKeyword keyword (.sign sign) = false := rfl

@[simp]
theorem isSign_self (sign : CString) : isSign sign (.sign sign) = true := decide_eq_true rfl

@[simp]
theorem isSign_name (name : Name) (sign : CString) : isSign sign name.word = false := by
  obtain ⟨quoted, text⟩ := name
  cases quoted <;> rfl

theorem expect_none {p : Token → Bool} {token : Token} (h : p token = false) :
    expect p (token :: rest) = none := if_neg (Bool.eq_false_iff.mp h)

theorem expectSource_words {source : Source} (h : source.fits = true) :
    expectSource (source.words ++ rest) = some (source, rest) := by
  obtain ⟨distinct, column, table⟩ := source
  obtain ⟨hColumn, hTable⟩ : column.all Name.fits = true ∧ table.fits = true := by
    simpa [Source.fits] using h
  cases column with
  | none =>
      cases distinct <;>
        simp [expectSource, Source.words, expect, expectName_word hTable]
  | some name =>
      have hDistinct := isKeyword_name hColumn (show lit "DISTINCT" ∈ reserved by decide)
      cases distinct <;>
        simp [expectSource, Source.words, expect, hDistinct, expectName_word hColumn,
          expectName_word hTable]

theorem expectComparison_word (comparison : Comparison) {negated : Bool}
    (h : negated = true → comparison.isMatch = true) :
    expectComparison ((if negated then [.word (lit "NOT")] else []) ++ comparison.word :: rest) =
      some ((comparison, negated), rest) := by
  cases negated with
  | true =>
      cases comparison with
      | like => rfl
      | regexp => rfl
      | _ => cases h rfl
  | false => cases comparison <;> rfl

/-- No operator is a dot, or one of the words for which a comparison looks first. -/
theorem operator_head (comparison : Comparison) (negated : Bool) (p : Token → Bool)
    (hNot : p (.word (lit "NOT")) = false) (hWord : p comparison.word = false) :
    expect p ((if negated then [.word (lit "NOT")] else []) ++ comparison.word :: rest) = none := by
  cases negated with
  | true => exact expect_none hNot
  | false => exact expect_none hWord

section Operands

variable (ha : ReadsAs .primary words a) (hb : ReadsAs .primary words' b)
include ha

theorem reads_isNull :
    ReadsAs .comparison (words ++ [.word (lit "IS"), .word (lit "NULL")]) (.isNull a) := by
  intro fuel rest hFuel hStops
  obtain ⟨fuel, rfl⟩ := Nat.exists_eq_succ_of_ne_zero (Nat.ne_of_gt (Nat.zero_lt_of_lt hFuel))
  have hRead := ha fuel (.word (lit "IS") :: .word (lit "NULL") :: rest)
    (by simp [Level.rank] at hFuel ⊢; omega) (Level.stops_cons (by decide))
  rw [List.append_assoc, parse]
  simp [hRead, expect]

theorem reads_isIn {source : Source} (hSource : source.fits = true)
    (hCondition : ReadsAs .or words' b) :
    ReadsAs .comparison
      (words ++ .word (lit "IN") :: .sign (lit "(") :: source.words ++ words' ++ [.sign (lit ")")])
      (.isIn a source b) := by
  intro fuel rest hFuel hStops
  obtain ⟨fuel, rfl⟩ := Nat.exists_eq_succ_of_ne_zero (Nat.ne_of_gt (Nat.zero_lt_of_lt hFuel))
  have hRead := ha fuel (.word (lit "IN") :: .sign (lit "(") :: (source.words ++
    (words' ++ .sign (lit ")") :: rest))) (by simp [Level.rank] at hFuel ⊢; omega)
    (Level.stops_cons (by decide))
  have hInner := hCondition fuel (.sign (lit ")") :: rest) (by simp [Level.rank] at hFuel ⊢; omega)
    (Level.stops_cons (by decide))
  have hIs : isKeyword (lit "IS") (.word (lit "IN")) = false := by decide
  rw [parse]
  simp [hRead, hInner, expect, hIs, expectSource_words hSource]

include hb

theorem reads_compare (comparison : Comparison) {negated : Bool}
    (hMatch : negated = true → comparison.isMatch = true) :
    ReadsAs .comparison
      (words ++ (if negated then [.word (lit "NOT")] else []) ++ comparison.word :: words')
      (.compare comparison negated a b) := by
  intro fuel rest hFuel hStops
  obtain ⟨fuel, rfl⟩ := Nat.exists_eq_succ_of_ne_zero (Nat.ne_of_gt (Nat.zero_lt_of_lt hFuel))
  have hFirst := ha fuel ((if negated then [.word (lit "NOT")] else []) ++ comparison.word ::
    (words' ++ rest)) (by simp [Level.rank] at hFuel ⊢; omega)
    (by cases negated <;> cases comparison <;> rfl)
  have hSecond := hb fuel rest (by simp [Level.rank] at hFuel ⊢; omega)
    (Level.stops_mono (by decide) hStops)
  have hIs : expect (isKeyword (lit "IS")) ((if negated then [.word (lit "NOT")] else []) ++
      comparison.word :: (words' ++ rest)) = none :=
    operator_head comparison negated _ (by decide) (by cases comparison <;> decide)
  have hIn : expect (isKeyword (lit "IN")) ((if negated then [.word (lit "NOT")] else []) ++
      comparison.word :: (words' ++ rest)) = none :=
    operator_head comparison negated _ (by decide) (by cases comparison <;> decide)
  rw [List.append_assoc, List.append_assoc, List.cons_append, parse, hFirst]
  simp only [Option.bind_some, hIs, hIn, expectComparison_word comparison hMatch, hSecond,
    Option.map_some]

end Operands

theorem reads_not (ha : ReadsAs .not words a) : ReadsAs .not (.word (lit "NOT") :: words) (.not a) := by
  intro fuel rest hFuel hStops
  obtain ⟨fuel, rfl⟩ := Nat.exists_eq_succ_of_ne_zero (Nat.ne_of_gt (Nat.zero_lt_of_lt hFuel))
  have hRead := ha fuel rest (by simp [Level.rank] at hFuel ⊢; omega) hStops
  rw [List.cons_append, parse, expect_cons (isKeyword_self _)]
  simp only [hRead, Option.map_some]

theorem reads_and (ha : ReadsAs .not words a) (hb : ReadsAs .and words' b) :
    ReadsAs .and (words ++ .word (lit "AND") :: words') (.and a b) := by
  intro fuel rest hFuel hStops
  obtain ⟨fuel, rfl⟩ := Nat.exists_eq_succ_of_ne_zero (Nat.ne_of_gt (Nat.zero_lt_of_lt hFuel))
  have hFirst := ha fuel (.word (lit "AND") :: (words' ++ rest))
    (by simp [Level.rank] at hFuel ⊢; omega) (Level.stops_cons (by decide))
  have hSecond := hb fuel rest (by simp [Level.rank] at hFuel ⊢; omega) hStops
  rw [List.append_assoc, List.cons_append, parse, hFirst]
  simp only [Option.bind_some, expect_cons (isKeyword_self _), hSecond, Option.map_some]

theorem reads_or (ha : ReadsAs .and words a) (hb : ReadsAs .or words' b) :
    ReadsAs .or (words ++ .word (lit "OR") :: words') (.or a b) := by
  intro fuel rest hFuel hStops
  obtain ⟨fuel, rfl⟩ := Nat.exists_eq_succ_of_ne_zero (Nat.ne_of_gt (Nat.zero_lt_of_lt hFuel))
  have hFirst := ha fuel (.word (lit "OR") :: (words' ++ rest))
    (by simp [Level.rank] at hFuel ⊢; omega) (Level.stops_cons (by decide))
  have hSecond := hb fuel rest (by simp [Level.rank] at hFuel ⊢; omega) hStops
  rw [List.append_assoc, List.cons_append, parse, hFirst]
  simp only [Option.bind_some, expect_cons (isKeyword_self _), hSecond, Option.map_some]

/-! Primary expressions. -/

theorem reads_paren (ha : ReadsAs .or words a) :
    ReadsAs .primary (.sign (lit "(") :: words ++ [.sign (lit ")")]) (.paren a) := by
  intro fuel rest hFuel hStops
  obtain ⟨fuel, rfl⟩ := Nat.exists_eq_succ_of_ne_zero (Nat.ne_of_gt (Nat.zero_lt_of_lt hFuel))
  have hRead := ha fuel (.sign (lit ")") :: rest) (by simp [Level.rank] at hFuel ⊢; omega)
    (Level.stops_cons (by decide))
  have hSource : expectSource (words ++ .sign (lit ")") :: rest) = none := by
    cases hWords : words ++ .sign (lit ")") :: rest with
    | nil => rfl
    | cons token others =>
        cases hSelect : isKeyword (lit "SELECT") token with
        | true =>
            rw [hWords, parse_select hSelect] at hRead
            cases hRead
        | false => simp [expectSource, expect, hSelect]
  simp [parse, hSource, hRead, expect]

theorem reads_select {source : Source} (hSource : source.fits = true) (ha : ReadsAs .or words a) :
    ReadsAs .primary (.sign (lit "(") :: source.words ++ words ++ [.sign (lit ")")])
      (.select source a) := by
  intro fuel rest hFuel hStops
  obtain ⟨fuel, rfl⟩ := Nat.exists_eq_succ_of_ne_zero (Nat.ne_of_gt (Nat.zero_lt_of_lt hFuel))
  have hRead := ha fuel (.sign (lit ")") :: rest) (by simp [Level.rank] at hFuel ⊢; omega)
    (Level.stops_cons (by decide))
  simp [parse, expectSource_words hSource, hRead, expect]

theorem reads_existsRow {source : Source} (hSource : source.fits = true) (ha : ReadsAs .or words a) :
    ReadsAs .primary
      (.word (lit "EXISTS") :: .sign (lit "(") :: source.words ++ words ++ [.sign (lit ")")])
      (.existsRow source a) := by
  intro fuel rest hFuel hStops
  obtain ⟨fuel, rfl⟩ := Nat.exists_eq_succ_of_ne_zero (Nat.ne_of_gt (Nat.zero_lt_of_lt hFuel))
  have hRead := ha fuel (.sign (lit ")") :: rest) (by simp [Level.rank] at hFuel ⊢; omega)
    (Level.stops_cons (by decide))
  have hSign : isSign (lit "(") (.word (lit "EXISTS")) = false := rfl
  simp [parse, expectSource_words hSource, hRead, expect, hSign]

theorem reads_cast {type : Name} (hType : type.fits = true) (ha : ReadsAs .or words a) :
    ReadsAs .primary
      (.word (lit "CAST") :: .sign (lit "(") :: words ++
        [.word (lit "AS"), type.word, .sign (lit ")")])
      (.cast a type) := by
  intro fuel rest hFuel hStops
  obtain ⟨fuel, rfl⟩ := Nat.exists_eq_succ_of_ne_zero (Nat.ne_of_gt (Nat.zero_lt_of_lt hFuel))
  have hRead := ha fuel (.word (lit "AS") :: type.word :: .sign (lit ")") :: rest)
    (by simp [Level.rank] at hFuel ⊢; omega) (Level.stops_cons (by decide))
  have hSign : isSign (lit "(") (.word (lit "CAST")) = false := rfl
  have hExists : isKeyword (lit "EXISTS") (.word (lit "CAST")) = false := by decide
  simp [parse, hRead, expect, hSign, hExists, expectName_word hType]

theorem reads_text (string : CString) : ReadsAs .primary [.literal string] (.literal string) := by
  intro fuel rest hFuel hStops
  obtain ⟨fuel, rfl⟩ := Nat.exists_eq_succ_of_ne_zero (Nat.ne_of_gt (Nat.zero_lt_of_lt hFuel))
  rfl

theorem reads_null : ReadsAs .primary [.word (lit "NULL")] .null := by
  intro fuel rest hFuel hStops
  obtain ⟨fuel, rfl⟩ := Nat.exists_eq_succ_of_ne_zero (Nat.ne_of_gt (Nat.zero_lt_of_lt hFuel))
  have hSign : isSign (lit "(") (.word (lit "NULL")) = false := rfl
  have hExists : isKeyword (lit "EXISTS") (.word (lit "NULL")) = false := by decide
  have hCast : isKeyword (lit "CAST") (.word (lit "NULL")) = false := by decide
  simp [parse, hSign, hExists, hCast]

theorem reads_number {digits : CString} (hDigits : isNumber digits = true) (negative : Bool) :
    ReadsAs .primary ((if negative then [.sign (lit "-")] else []) ++ [.number digits])
      (.number negative digits) := by
  intro fuel rest hFuel hStops
  obtain ⟨fuel, rfl⟩ := Nat.exists_eq_succ_of_ne_zero (Nat.ne_of_gt (Nat.zero_lt_of_lt hFuel))
  have hOpen : isSign (lit "(") (.sign (lit "-")) = false := by decide
  have hSign (sign : CString) : isSign sign (.number digits) = false := rfl
  have hWord (keyword : CString) : isKeyword keyword (.number digits) = false := rfl
  cases negative <;> simp [parse, hOpen, hSign, hWord, expectNumber, hDigits]

theorem parse_name {name : Name} (hName : name.fits = true) (fuel : Nat) :
    parse (fuel + 1) .primary (name.word :: rest) =
      match expect (isSign (lit ".")) rest with
      | none => some (.column none name, rest)
      | some rest => (expectName rest).map fun (column, rest) => (.column (some name) column, rest) := by
  obtain ⟨quoted, text⟩ := name
  cases quoted with
  | true => rfl
  | false =>
      have hNot (keyword : CString) (hKeyword : keyword ∈ reserved) :
          isKeyword keyword (.word text) = false := isKeyword_name hName hKeyword
      have hNameOf : nameOf (.word text) = some ⟨false, text⟩ := by
        have hReserved : isReserved (.word text) = false := by simpa [Name.fits] using hName
        simp [nameOf, hReserved]
      have hSign (sign : CString) : isSign sign (.word text) = false := rfl
      simp [parse, Name.word, hSign, expectNumber, hNameOf, hNot (lit "EXISTS") (by decide),
        hNot (lit "CAST") (by decide), hNot (lit "NULL") (by decide)]

theorem reads_column {name : Name} (hName : name.fits = true) :
    ReadsAs .primary [name.word] (.column none name) := by
  intro fuel rest hFuel hStops
  obtain ⟨fuel, rfl⟩ := Nat.exists_eq_succ_of_ne_zero (Nat.ne_of_gt (Nat.zero_lt_of_lt hFuel))
  have hDot : expect (isSign (lit ".")) rest = none :=
    expect_of_stops (fun token hToken => by simp [Level.continues, hToken]) hStops
  rw [List.singleton_append, parse_name hName, hDot]

theorem reads_tableColumn {table name : Name} (hTable : table.fits = true) (hName : name.fits = true) :
    ReadsAs .primary [table.word, .sign (lit "."), name.word] (.column (some table) name) := by
  intro fuel rest hFuel hStops
  obtain ⟨fuel, rfl⟩ := Nat.exists_eq_succ_of_ne_zero (Nat.ne_of_gt (Nat.zero_lt_of_lt hFuel))
  rw [List.cons_append, parse_name hTable, List.cons_append, expect_cons (isSign_self _)]
  simp [expectName_word hName]

end Rules

/-- The words of an expression are read as the expression. -/
theorem Expr.reads {e : Expr} (h : e.fits = true) : ReadsAs e.level e.words e := by
  induction e with
  | column table name =>
      cases table with
      | none => exact reads_column (by simpa [Expr.fits] using h)
      | some table =>
          obtain ⟨hTable, hName⟩ : table.fits = true ∧ name.fits = true := by
            simpa [Expr.fits] using h
          exact reads_tableColumn hTable hName
  | literal string => exact reads_text string
  | number negative digits => exact reads_number h negative
  | null => exact reads_null
  | paren a ih => exact reads_paren ((ih h).mono (Level.rank_le_or _))
  | not a ih =>
      obtain ⟨ha, hLevel⟩ : a.fits = true ∧ a.level.rank ≤ Level.not.rank := by
        simpa [Expr.fits] using h
      exact reads_not ((ih ha).mono hLevel)
  | and a b iha ihb =>
      obtain ⟨⟨⟨ha, hb⟩, hLevel⟩, hLevel'⟩ : ((a.fits = true ∧ b.fits = true) ∧
          a.level.rank ≤ Level.not.rank) ∧ b.level.rank ≤ Level.and.rank := by
        simpa [Expr.fits] using h
      exact reads_and ((iha ha).mono hLevel) ((ihb hb).mono hLevel')
  | or a b iha ihb =>
      obtain ⟨⟨ha, hb⟩, hLevel⟩ : (a.fits = true ∧ b.fits = true) ∧
          a.level.rank ≤ Level.and.rank := by
        simpa [Expr.fits] using h
      exact reads_or ((iha ha).mono hLevel) ((ihb hb).mono (Level.rank_le_or _))
  | compare comparison negated a b iha ihb =>
      obtain ⟨⟨⟨⟨ha, hb⟩, hLevel⟩, hLevel'⟩, hMatch⟩ : (((a.fits = true ∧ b.fits = true) ∧
          a.level = .primary) ∧ b.level = .primary) ∧
            (negated = false ∨ comparison.isMatch = true) := by
        simpa [Expr.fits] using h
      refine reads_compare (hLevel ▸ iha ha) (hLevel' ▸ ihb hb) comparison fun hNegated => ?_
      rcases hMatch with hNot | hMatch
      · rw [hNegated] at hNot
        cases hNot
      · exact hMatch
  | isNull a ih =>
      obtain ⟨ha, hLevel⟩ : a.fits = true ∧ a.level = .primary := by simpa [Expr.fits] using h
      exact reads_isNull (hLevel ▸ ih ha)
  | isIn a source condition iha ihb =>
      obtain ⟨⟨⟨ha, hLevel⟩, hSource⟩, hb⟩ : ((a.fits = true ∧ a.level = .primary) ∧
          source.fits = true) ∧ condition.fits = true := by
        simpa [Expr.fits] using h
      exact reads_isIn (hLevel ▸ iha ha) hSource ((ihb hb).mono (Level.rank_le_or _))
  | cast a type ih =>
      obtain ⟨ha, hType⟩ : a.fits = true ∧ type.fits = true := by simpa [Expr.fits] using h
      exact reads_cast hType ((ih ha).mono (Level.rank_le_or _))
  | select source condition ih =>
      obtain ⟨hSource, hCondition⟩ : source.fits = true ∧ condition.fits = true := by
        simpa [Expr.fits] using h
      exact reads_select hSource ((ih hCondition).mono (Level.rank_le_or _))
  | existsRow source condition ih =>
      obtain ⟨hSource, hCondition⟩ : source.fits = true ∧ condition.fits = true := by
        simpa [Expr.fits] using h
      exact reads_existsRow hSource ((ih hCondition).mono (Level.rank_le_or _))

/-- A text with the words of an expression is that condition. -/
theorem condition_words {text : CString} {e : Expr} (hFits : e.fits = true)
    (hWords : tokens text = e.words) : condition text = some e := by
  have hOr : ReadsAs .or e.words e := (Expr.reads hFits).mono (Level.rank_le_or _)
  have hRead := hOr (5 * e.words.length + 5) [] (by simp [Level.rank]) rfl
  rw [List.append_nil] at hRead
  rw [condition, hWords, hRead]

end Sql
