import OpenVAS.Filters.Basic
import OpenVAS.Lib.Sql

/-! The condition that `filter_clause` of `manage_sql.c` makes of a filter. It takes the
keywords one after the other, remembers the operator words, and appends a text for each
term. -/
namespace Filters

open CString
open Sql (quote)

/-- What `parse_keyword` finds in the string of a keyword; a double is given as `%f` prints it. -/
inductive KeywordValue where
  | string
  | integer (value : Int32)
  | double (printed : CString)

/-- What a clause is made for: the type of the resources, their columns, and whether they are
in the trashcan. `value` is `parse_keyword`, which reads the clock for dates, and
`scansDouble` tells whether `sscanf` reads a number at the start of a text. -/
structure Listing where
  type : CString
  columns : List CString
  trash : Bool
  value : Keyword → KeywordValue
  scansDouble : CString → Bool

/-- The operator words that are waiting for a term. -/
structure Operators where
  lastWasAnd : Bool
  lastWasNot : Bool
  lastWasRe : Bool
  deriving DecidableEq

def noOperators : Operators := ⟨false, false, false⟩

/-- The word that joins a condition to the one before. -/
def getJoin (first lastWasAnd lastWasNot : Bool) : CString :=
  if first then
    if lastWasNot then lit "NOT " else []
  else if lastWasAnd then
    if lastWasNot then lit " AND NOT " else lit " AND "
  else if lastWasNot then lit " OR NOT "
  else lit " OR "

/-- The name under which a column is in the vector, which may have an underscore in front. -/
def vectorFindFilter (vector : List CString) (string : CString) : Option CString :=
  if string ∈ vector then some string
  else if ch '_' :: string ∈ vector then some (ch '_' :: string)
  else none

def validType (type : CString) : Bool :=
  [lit "agent", lit "alert", lit "config", lit "filter", lit "group", lit "info",
    lit "lsc_credential", lit "note", lit "override", lit "permission", lit "port_list",
    lit "report", lit "report_format", lit "result", lit "role", lit "schedule", lit "slave",
    lit "tag", lit "target", lit "task", lit "user"].any (strcaseeq type)

/-! Kinds of keywords. -/

/-- What the loop takes a keyword for. -/
inductive Kind where
  | nothing
  | and
  | not
  | re
  | sort (reverse : Bool)
  | first
  | rows
  | permission
  | tag
  | term
  deriving DecidableEq

/-- What a keyword is to the clause. -/
def kind (keyword : Keyword) : Kind :=
  match keyword.column with
  | none =>
      if keyword.string = [] then .nothing
      else if strcaseeq keyword.string (lit "or") then .nothing
      else if strcaseeq keyword.string (lit "and") then .and
      else if strcaseeq keyword.string (lit "not") then .not
      else if strcaseeq keyword.string (lit "re") then .re
      else if strcaseeq keyword.string (lit "regexp") then .re
      else .term
  | some column =>
      if strcaseeq column (lit "sort") then .sort false
      else if strcaseeq column (lit "sort-reverse") then .sort true
      else if strcaseeq column (lit "first") then .first
      else if strcaseeq column (lit "rows") then .rows
      else if strcaseeq column (lit "permission") then .permission
      else if strcaseeq column (lit "tag") then .tag
      else .term

/-! Texts of terms. -/

/-- Name and value of a tag, which are cut at the first `=`. -/
def tagSplit (quotedKeyword : CString) : CString × Option CString :=
  match strchr quotedKeyword (ch '=') with
  | none => (quotedKeyword, none)
  | some i => (quotedKeyword.take i, some (quotedKeyword.drop (i + 1)))

/-- The part of a tag's condition that ties it to the resource. -/
def tagResource (type : CString) : CString :=
  if strcaseeq type (lit "allinfo") then
    lit "   AND tags.resource_uuid         = allinfo.uuid   AND tags.resource_type         = allinfo.type"
  else
    lit "   AND tags.resource_uuid = " ++ type ++ lit "s.uuid   AND tags.resource_type = '" ++ type ++
      lit "'"

/-- The condition on the tags of a row. -/
def tagCondition (listing : Listing) (keyword : Keyword) : CString :=
  let tag := tagSplit (quote keyword.string)
  let tagName := tag.1
  let tagValue := tag.2.getD []
  let exists' := lit "(EXISTS  (SELECT * FROM tags   WHERE tags.name "
  let active := lit "   AND tags.active != 0" ++ tagResource listing.type
  match keyword.relation with
  | .columnEqual | .columnAbove | .columnBelow =>
      let value :=
        if tag.2.isSome then
          if listing.scansDouble tagValue then lit "AND CAST (tags.value AS NUMBER) = " ++ tagValue
          else lit "AND CAST (tags.value AS TEXT) = '" ++ tagValue ++ lit "'"
        else []
      exists' ++ lit "= '" ++ tagName ++ lit "'" ++ active ++ lit "   " ++ value ++ lit "))"
  | .columnApprox =>
      exists' ++ lit "LIKE '%%" ++ tagName ++ lit "%%'" ++ active ++
        lit "   AND tags.value LIKE '%%" ++ tagValue ++ lit "%%'))"
  | .columnRegexp =>
      exists' ++ lit "REGEXP '" ++ tagName ++ lit "'" ++ active ++
        lit "   AND tags.value       REGEXP '" ++ tagValue ++ lit "'))"
  | .approx => []

/-- The type in the name of a column that refers to a resource. -/
def idType (column : CString) : Option CString :=
  let length := column.length - 3
  if 3 < column.length ∧ column.drop length = lit "_id" ∧ !strcaseeq column (lit "nvt_id") then
    some (column.take length)
  else none

def referenceCondition (type typeTerm quotedKeyword : CString) : CString :=
  let column := type ++ lit "s." ++ typeTerm
  if quotedKeyword ≠ [] then
    lit "(((SELECT ROWID FROM " ++ typeTerm ++ lit "s     WHERE " ++ typeTerm ++ lit "s.uuid = '" ++
      quotedKeyword ++ lit "')     = " ++ column ++ lit "     OR " ++ column ++
      lit " IS NULL     OR " ++ column ++ lit " = 0)"
  else lit "((" ++ column ++ lit " IS NULL   OR " ++ column ++ lit " = 0)"

/-- A comparison of a column with the value of a keyword. -/
def comparison (symbol : CString) (value : KeywordValue) (quotedColumn quotedKeyword : CString) :
    CString :=
  match value with
  | .integer n =>
      lit "CAST (" ++ quotedColumn ++ lit " AS NUMERIC) " ++ symbol ++ ch ' ' :: showInt n.toInt
  | .double printed =>
      lit "CAST (" ++ quotedColumn ++ lit " AS NUMERIC) " ++ symbol ++ ch ' ' :: printed
  | .string =>
      lit "CAST (" ++ quotedColumn ++ lit " AS TEXT) " ++ symbol ++ lit " '" ++ quotedKeyword ++
        lit "'"

def isString : KeywordValue → Bool
  | .string => true
  | _ => false

/-- The condition on a column, if the listing has it. -/
def columnCondition (listing : Listing) (keyword : Keyword) (found : CString) : CString :=
  let quotedKeyword := quote keyword.string
  let quotedColumn := quote found
  let value := listing.value keyword
  match keyword.relation with
  | .columnEqual =>
      if isString value ∧ quotedKeyword = [] then
        lit "((" ++ quotedColumn ++ lit " IS NULL OR CAST (" ++ quotedColumn ++ lit " AS TEXT) = '" ++
          quotedKeyword ++ lit "')"
      else lit "(" ++ comparison (lit "=") value quotedColumn quotedKeyword
  | .columnApprox =>
      lit "(CAST (" ++ quotedColumn ++ lit " AS TEXT) LIKE '%%" ++ quotedKeyword ++ lit "%%'"
  | .columnAbove => lit "(" ++ comparison (lit ">") value quotedColumn quotedKeyword
  | .columnBelow => lit "(" ++ comparison (lit "<") value quotedColumn quotedKeyword
  | .columnRegexp =>
      lit "(CAST (" ++ quotedColumn ++ lit " AS TEXT) REGEXP '" ++ quotedKeyword ++ lit "'"
  | .approx => []

/-- What a keyword with a column comes to: the column is not known, a condition is added, or
the keyword is skipped because owners are filtered elsewhere. -/
inductive Effect where
  | unknown
  | condition (text : CString)
  | owner

def columnEffect (listing : Listing) (keyword : Keyword) (column : CString) : Effect :=
  match vectorFindFilter listing.columns column with
  | none => .unknown
  | some found =>
      if keyword.relation = .columnEqual then
        match idType column with
        | some typeTerm =>
            if validType typeTerm then
              .condition (referenceCondition listing.type typeTerm (quote keyword.string))
            else .unknown
        | none =>
            if column ≠ lit "owner" then .condition (columnCondition listing keyword found)
            else .owner
      else .condition (columnCondition listing keyword found)

/-- How a keyword without a column is matched. -/
def pattern (lastWasRe : Bool) (quotedKeyword : CString) : CString :=
  if lastWasRe then lit "REGEXP '" ++ quotedKeyword ++ lit "'"
  else lit "LIKE '%%" ++ quotedKeyword ++ lit "%%'"

/-- The test of one column for a keyword without a column. -/
def columnTest (listing : Listing) (lastWasNot lastWasRe : Bool) (keyword : Keyword)
    (column : CString) : CString :=
  let quotedKeyword := quote keyword.string
  let quotedColumn := quote column
  let isNull := lit "(" ++ quotedColumn ++ lit " IS NULL OR "
  if keyword.equal then
    if lastWasNot then
      isNull ++ comparison (lit "!=") (listing.value keyword) quotedColumn quotedKeyword ++ lit ")"
    else comparison (lit "=") (listing.value keyword) quotedColumn quotedKeyword
  else if lastWasNot then
    isNull ++ lit "CAST (" ++ quotedColumn ++ lit " AS TEXT) NOT " ++ pattern lastWasRe quotedKeyword ++
      lit ")"
  else lit "CAST (" ++ quotedColumn ++ lit " AS TEXT) " ++ pattern lastWasRe quotedKeyword

/-- The text for a keyword without a column, up to the closing parenthesis. -/
def anywhereText (listing : Listing) (firstKeyword : Bool) (ops : Operators) (keyword : Keyword) :
    CString :=
  (if firstKeyword then [] else if ops.lastWasAnd then lit " AND " else lit " OR ") ++ lit "(" ++
    (if ops.lastWasNot then lit " AND " else lit " OR ").intercalate
      (listing.columns.map (columnTest listing ops.lastWasNot ops.lastWasRe keyword))

/-! The loop. -/

/-- The variables of the loop, and what the pointers for the answer point to. -/
structure State where
  clause : CString
  order : CString
  firstKeyword : Bool
  firstOrder : Bool
  ops : Operators
  first : Option Int32
  max : Int32
  permissions : List CString
  ownerFilter : Option CString

/-- In front of the first keyword. -/
def State.start : State where
  clause := []
  order := []
  firstKeyword := true
  firstOrder := true
  ops := noOperators
  first := none
  max := -1
  permissions := []
  ownerFilter := none

/-- The words of the first sorting term. -/
def orderBy (listing : Listing) (string direction : CString) : CString :=
  let type := listing.type
  if string = lit "role" then lit " ORDER BY role COLLATE collate_role" ++ direction
  else if type = lit "slave" ∧ string = lit "port" then
    lit " ORDER BY CAST (port AS INTEGER)" ++ direction
  else if (type = lit "task" ∨ type = lit "report") ∧ string = lit "status" then
    lit " ORDER BY status_text" ++ direction
  else if type = lit "task" ∧ string = lit "threat" then
    lit " ORDER BY " ++ string ++ lit " COLLATE collate_threat" ++ direction
  else if [lit "severity", lit "cvss", lit "cvss_base", lit "max_cvss"].any (string = ·) then
    lit " ORDER BY CASE " ++ string ++ lit " WHEN '' THEN NULL ELSE CAST (" ++ string ++
      lit " AS REAL) END" ++ direction
  else if (type ≠ lit "note" ∧ type ≠ lit "override") ∨ (string ≠ lit "nvt" ∧ string ≠ lit "name") then
    lit " ORDER BY " ++ string ++ lit " COLLATE NOCASE" ++ direction
  else
    lit " ORDER BY nvt" ++ direction ++ lit ", " ++ type ++ lit "s" ++
      (if listing.trash then lit "_trash" else []) ++ lit ".text COLLATE NOCASE" ++ direction

def State.sort (listing : Listing) (reverse : Bool) (string : CString) (state : State) : State :=
  let direction := if reverse then lit " DESC" else lit " ASC"
  if string ≠ lit "ROWID" ∧ vectorFindFilter listing.columns string = none then state
  else if state.firstOrder then
    { state with order := state.order ++ orderBy listing string direction, firstOrder := false }
  else { state with order := state.order ++ lit ", " ++ string ++ direction }

/-- Appends a term; all operators are used up. -/
def State.add (text : CString) (state : State) : State :=
  { state with
    clause := state.clause ++ text ++ lit ")"
    firstKeyword := false
    ops := noOperators }

/-- The operators behind a term without a condition and behind a tag. -/
def State.dropJoin (state : State) : State :=
  { state with ops := { state.ops with lastWasAnd := false, lastWasNot := false } }

def State.tag (listing : Listing) (keyword : Keyword) (state : State) : State :=
  let join := getJoin state.firstKeyword state.ops.lastWasAnd state.ops.lastWasNot
  let text := if keyword.relation = .approx then [] else join ++ tagCondition listing keyword
  { state.dropJoin with clause := state.clause ++ text, firstKeyword := false }

/-- The second half of the loop. The reader gives a relation to exactly the keywords
with a column. -/
def State.term (listing : Listing) (keyword : Keyword) (state : State) : State :=
  let anywhere := state.add (anywhereText listing state.firstKeyword state.ops keyword)
  match keyword.column with
  | none => anywhere
  | some column =>
      if keyword.relation = .approx then anywhere
      else
        match columnEffect listing keyword column with
        | .unknown => state.dropJoin
        | .condition text =>
            state.add (getJoin state.firstKeyword state.ops.lastWasAnd state.ops.lastWasNot ++ text)
        | .owner => { state with ownerFilter := some (state.ownerFilter.getD keyword.string) }

/-- What a keyword adds to the clause, and what it leaves for the next. -/
def filterStep (listing : Listing) (state : State) (keyword : Keyword) : State :=
  match kind keyword with
  | .nothing => state
  | .and => { state with ops := { state.ops with lastWasAnd := true } }
  | .not => { state with ops := { state.ops with lastWasNot := true } }
  | .re => { state with ops := { state.ops with lastWasRe := true } }
  | .sort reverse => state.sort listing reverse keyword.string
  | .first =>
      let first := atoi keyword.string - 1
      { state with first := some (if first < 0 then 0 else first) }
  | .rows => { state with max := atoi keyword.string }
  | .permission => { state with permissions := state.permissions ++ [keyword.string] }
  | .tag => (state.tag listing keyword).term listing keyword
  | .term => state.term listing keyword

/-- The keywords of a filter, which may be missing. -/
def filterKeywords (filter : Option CString) : List Keyword :=
  splitFilter ((filter.getD []).dropWhile isspace)

/-- The state behind the loop. -/
def filterState (listing : Listing) (keywords : List Keyword) : State :=
  keywords.foldl (filterStep listing) State.start

/-- What `filter_clause` answers. -/
structure FilterClause where
  clause : Option CString
  order : CString
  first : Option Int32
  max : Int32
  permissions : List CString
  ownerFilter : Option CString

/-- `rowsPerPage` is the setting that stands for the number -2 of rows. -/
def filterClause (listing : Listing) (rowsPerPage : Int32) (filter : Option CString) :
    FilterClause :=
  let state := filterState listing (filterKeywords filter)
  { clause := if state.clause = [] then none else some state.clause
    order := state.order
    first := state.first
    max := if state.max = -2 then rowsPerPage else if state.max < 1 then -1 else state.max
    permissions := state.permissions
    ownerFilter := state.ownerFilter }

end Filters
