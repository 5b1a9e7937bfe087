import OpenVAS.Lib.SqlConditions

/-! What a condition says about a row of a database, with the three truth values of SQL. -/
namespace Sql

open CString

/-- What the database does with values. Only equality of numbers and of texts is fixed here. -/
structure Dialect where
  /-- Compares values that are not null. -/
  compare : Comparison → Value → Value → Bool
  /-- Whether a text counts as a number other than zero. -/
  truth : CString → Bool
  cast : Value → CString → Value
  number : Bool → CString → Value
  compare_numbers : ∀ m n, compare .equal (.number m) (.number n) = decide (m = n)
  compare_texts : ∀ s t, compare .equal (.text s) (.text t) = decide (s = t)
  number_digit : ∀ c, isdigit c = true → number false [c] = .number (digitsValue [c])

/-- Values that are compared byte for byte, and no numbers in texts. -/
def Dialect.plain : Dialect where
  compare _ one two := one = two
  truth _ := false
  cast value _ := value
  number negative digits :=
    .number (if negative then -digitsValue digits else digitsValue digits)
  compare_numbers m n := by simp
  compare_texts s t := by simp
  number_digit _ _ := rfl

/-- The name of a table and its columns. -/
structure Header where
  name : CString
  columns : List CString
  deriving DecidableEq

/-- A table. -/
structure Relation where
  header : Header
  rows : List (List Value)

/-- Where a column stands in the rows of a table, if the name refers to one. -/
def Header.position (header : Header) (table : Option Name) (name : Name) : Option Nat :=
  if table.all fun table => strcaseeq table.text header.name then
    header.columns.findIdx? (strcaseeq name.text)
  else none

/-- The rows that names can refer to, from the inside. -/
abbrev Scopes := List (Header × List Value)

def lookup (scopes : Scopes) (table : Option Name) (name : Name) : Option Value :=
  scopes.findSome? fun scope =>
    (scope.1.position table name).map fun position => scope.2.getD position .null

def findRelation (database : List Relation) (name : CString) : Option Relation :=
  database.find? fun relation => strcaseeq name relation.header.name

/-! Truth values. -/

@[grind] def ofTruth : Option Bool → Value
  | none => .null
  | some truth => .number (if truth then 1 else 0)

@[grind] def truthOf (dialect : Dialect) : Value → Option Bool
  | .null => none
  | .text string => some (dialect.truth string)
  | .number n => some (n ≠ 0)

@[grind] def bothTrue : Option Bool → Option Bool → Option Bool
  | some false, _ | _, some false => some false
  | some true, some true => some true
  | _, _ => none

@[grind] def eitherTrue : Option Bool → Option Bool → Option Bool
  | some true, _ | _, some true => some true
  | some false, some false => some false
  | _, _ => none

/-- A comparison, which is unknown for missing values. -/
def comparedAs (dialect : Dialect) (comparison : Comparison) : Value → Value → Option Bool
  | .null, _ | _, .null => none
  | one, two => some (dialect.compare comparison one two)

/-- Whether a value is among others, which is unknown when a missing value is. -/
@[grind] def isAmong (dialect : Dialect) (value : Value) (values : List Value) : Option Bool :=
  values.foldr (fun other => eitherTrue (comparedAs dialect .equal value other)) (some false)

/-! Expressions. -/

/-- The rows of a sub-select that meet its condition, and the column that is read of them. -/
@[grind] def selectedValues (database : List Relation) (scopes : Scopes) (source : Source)
    (meets : Scopes → Bool) : List Value :=
  match findRelation database source.table.text with
  | none => []
  | some relation =>
      let inner := (relation.rows.map fun row => (relation.header, row) :: scopes).filter meets
      inner.map fun scopes => (source.column.bind (lookup scopes none)).getD .null

@[grind] def eval (dialect : Dialect) (database : List Relation) : Scopes → Expr → Value
  | scopes, .column table name => (lookup scopes table name).getD .null
  | _, .literal string => .text string
  | _, .number negative digits => dialect.number negative digits
  | _, .null => .null
  | scopes, .paren a => eval dialect database scopes a
  | scopes, .not a => ofTruth ((truthOf dialect (eval dialect database scopes a)).map (!·))
  | scopes, .and a b =>
      ofTruth (bothTrue (truthOf dialect (eval dialect database scopes a))
        (truthOf dialect (eval dialect database scopes b)))
  | scopes, .or a b =>
      ofTruth (eitherTrue (truthOf dialect (eval dialect database scopes a))
        (truthOf dialect (eval dialect database scopes b)))
  | scopes, .compare comparison negated a b =>
      ofTruth ((comparedAs dialect comparison (eval dialect database scopes a)
        (eval dialect database scopes b)).map (xor negated))
  | scopes, .isNull a => ofTruth (some (eval dialect database scopes a = .null))
  | scopes, .isIn a source condition =>
      ofTruth (isAmong dialect (eval dialect database scopes a)
        (selectedValues database scopes source fun scopes =>
          truthOf dialect (eval dialect database scopes condition) = some true))
  | scopes, .cast a type =>
      match eval dialect database scopes a with
      | .null => .null
      | value => dialect.cast value type.text
  | scopes, .select source condition =>
      (selectedValues database scopes source fun scopes =>
        truthOf dialect (eval dialect database scopes condition) = some true).headD .null
  | scopes, .existsRow source condition =>
      ofTruth (some (selectedValues database scopes source fun scopes =>
        truthOf dialect (eval dialect database scopes condition) = some true).isEmpty.not)

/-- Whether a row meets a condition. -/
@[grind] def meets (dialect : Dialect) (database : List Relation) (scopes : Scopes) (e : Expr) : Bool :=
  truthOf dialect (eval dialect database scopes e) = some true

section Rules

variable {dialect : Dialect} {database : List Relation} {scopes : Scopes} {a b e : Expr}

@[simp]
theorem truthOf_ofTruth (truth : Option Bool) : truthOf dialect (ofTruth truth) = truth := by
  cases truth with
  | none => rfl
  | some truth => cases truth <;> rfl

@[simp]
theorem meets_paren : meets dialect database scopes (.paren a) = meets dialect database scopes a := rfl

@[simp]
theorem meets_and : meets dialect database scopes (.and a b) =
    (meets dialect database scopes a && meets dialect database scopes b) := by
  simp only [meets, eval, truthOf_ofTruth]
  cases truthOf dialect (eval dialect database scopes a) with
  | none =>
      cases truthOf dialect (eval dialect database scopes b) with
      | none => rfl
      | some two => cases two <;> rfl
  | some one =>
      cases truthOf dialect (eval dialect database scopes b) with
      | none => cases one <;> rfl
      | some two => cases one <;> cases two <;> rfl

@[simp]
theorem meets_or : meets dialect database scopes (.or a b) =
    (meets dialect database scopes a || meets dialect database scopes b) := by
  simp only [meets, eval, truthOf_ofTruth]
  cases truthOf dialect (eval dialect database scopes a) with
  | none =>
      cases truthOf dialect (eval dialect database scopes b) with
      | none => rfl
      | some two => cases two <;> rfl
  | some one =>
      cases truthOf dialect (eval dialect database scopes b) with
      | none => cases one <;> rfl
      | some two => cases one <;> cases two <;> rfl

theorem meets_anyOf (first : Expr) (rest : List Expr) :
    meets dialect database scopes (anyOf first rest) =
      (first :: rest).any (meets dialect database scopes) := by
  induction rest generalizing first with
  | nil => rw [anyOf, List.any_cons, List.any_nil, Bool.or_false]
  | cons next rest ih =>
      rw [anyOf, meets_or, ih]
      rfl

@[simp]
theorem meets_isNull : meets dialect database scopes (.isNull a) =
    decide (eval dialect database scopes a = .null) := by
  simp [meets, eval]

@[simp]
theorem meets_equal : meets dialect database scopes (.compare .equal false a b) =
    decide (comparedAs dialect .equal (eval dialect database scopes a)
      (eval dialect database scopes b) = some true) := by
  simp [meets, eval]

theorem isAmong_eq_true {value : Value} {values : List Value} :
    isAmong dialect value values = some true ↔
      ∃ other ∈ values, comparedAs dialect .equal value other = some true := by
  induction values with
  | nil => simp [isAmong]
  | cons other values ih =>
      rw [isAmong, List.foldr_cons, ← isAmong, List.exists_mem_cons_iff, ← ih]
      cases comparedAs dialect .equal value other with
      | none =>
          cases isAmong dialect value values with
          | none => simp [eitherTrue]
          | some two => cases two <;> simp [eitherTrue]
      | some one =>
          cases isAmong dialect value values with
          | none => cases one <;> simp [eitherTrue]
          | some two => cases one <;> cases two <;> simp [eitherTrue]

section Selects

variable {source : Source} {relation : Relation}
  (hRelation : findRelation database source.table.text = some relation)
include hRelation

theorem meets_existsRow : meets dialect database scopes (.existsRow source e) =
    relation.rows.any fun row => meets dialect database ((relation.header, row) :: scopes) e := by
  rw [Bool.eq_iff_iff]
  simp [meets, eval, selectedValues, hRelation]

theorem meets_isIn {name : Name} (hColumn : source.column = some name) :
    meets dialect database scopes (.isIn a source e) = true ↔
      ∃ row ∈ relation.rows, meets dialect database ((relation.header, row) :: scopes) e = true ∧
        comparedAs dialect .equal (eval dialect database scopes a)
          ((lookup ((relation.header, row) :: scopes) none name).getD .null) = some true := by
  simp only [meets, eval, truthOf_ofTruth, decide_eq_true_eq, isAmong_eq_true, selectedValues,
    hRelation, hColumn]
  simp [and_assoc]

theorem eval_select {name : Name} (hColumn : source.column = some name) :
    eval dialect database scopes (.select source e) =
      ((relation.rows.find? fun row =>
        meets dialect database ((relation.header, row) :: scopes) e).bind fun row =>
          lookup ((relation.header, row) :: scopes) none name).getD .null := by
  simp only [eval, selectedValues, hRelation, hColumn, List.headD_eq_head?_getD, List.head?_map,
    List.head?_filter, List.find?_map, Option.map_map, Option.bind_some]
  have hFind : (relation.rows.find? ((fun scopes =>
      decide (truthOf dialect (eval dialect database scopes e) = some true)) ∘
        fun row => (relation.header, row) :: scopes)) =
      relation.rows.find? fun row => meets dialect database ((relation.header, row) :: scopes) e := rfl
  rw [hFind]
  cases relation.rows.find? fun row => meets dialect database ((relation.header, row) :: scopes) e with
  | none => rfl
  | some row => rfl

end Selects

end Rules

/-- Whether all names of an expression are known. -/
@[grind] def resolves (database : List Relation) : List Header → Expr → Bool
  | headers, .column table name => headers.any fun header => (header.position table name).isSome
  | _, .literal _ | _, .number .. | _, .null => true
  | headers, .paren a | headers, .not a | headers, .isNull a | headers, .cast a _ =>
      resolves database headers a
  | headers, .and a b | headers, .or a b | headers, .compare _ _ a b =>
      resolves database headers a && resolves database headers b
  | headers, .isIn a source condition =>
      resolves database headers a &&
        (findRelation database source.table.text).any fun relation =>
          source.column.all (fun name =>
            (relation.header :: headers).any fun header => (header.position none name).isSome) &&
          resolves database (relation.header :: headers) condition
  | headers, .select source condition | headers, .existsRow source condition =>
      (findRelation database source.table.text).any fun relation =>
        source.column.all (fun name =>
          (relation.header :: headers).any fun header => (header.position none name).isSome) &&
        resolves database (relation.header :: headers) condition

theorem resolves_anyOf {database : List Relation} {headers : List Header} (first : Expr)
    (rest : List Expr) :
    resolves database headers (anyOf first rest) = (first :: rest).all (resolves database headers) := by
  induction rest generalizing first with
  | nil => rw [anyOf, List.all_cons, List.all_nil, Bool.and_true]
  | cons next rest ih =>
      rw [anyOf, resolves, ih]
      rfl

/-- Whether a statement with the condition finds a row; it fails where the text is no condition
or a name is not known. -/
def finds (dialect : Dialect) (database : List Relation) (header : Header) (row : List Value)
    (text : CString) : Option Bool :=
  (condition text).bind fun e =>
    if resolves database [header] e then some (meets dialect database [(header, row)] e) else none

end Sql
