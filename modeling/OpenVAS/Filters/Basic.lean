import OpenVAS.Lib.CString

/-! Filters of the manager: `split_filter` reads a filter into keywords, one byte after
the other, and `manage_clean_filter_remove` prints the keywords again. -/
namespace Filters

open CString

/-- `keyword_relation_t`. -/
inductive Relation where
  | approx
  | columnAbove
  | columnApprox
  | columnEqual
  | columnBelow
  | columnRegexp
  deriving DecidableEq, Repr

structure Keyword where
  column : Option CString
  relation : Relation
  string : CString
  quoted : Bool
  equal : Bool
  deriving DecidableEq, Repr

/-- Whether the column gives an order. -/
def isSort (column : Option CString) : Bool :=
  column = some (lit "sort") || column = some (lit "sort-reverse")

/-- Whether a keyword has an effect behind the others. -/
def keywordApplies (parts : List Keyword) (keyword : Keyword) : Bool :=
  if isSort keyword.column ∧ keyword.relation = .columnEqual then
    !parts.any fun item => isSort item.column
  else
    [lit "first", lit "rows", lit "apply_overrides"].all fun column =>
      keyword.column ≠ some column || !parts.any fun item => item.column = some column

/-- The keyword that is being read. `text` is what stands between `current_part` and the
read position. -/
structure Part where
  column : Option CString := none
  relation : Relation := .approx
  equal : Bool := false
  inQuote : Bool := false
  text : CString := []
  deriving DecidableEq, Repr

/-- The keywords so far, and the one that is being read unless the reader is between
two. -/
structure Scan where
  parts : List Keyword := []
  part : Option Part := none
  deriving DecidableEq, Repr

def isBlank (c : UInt8) : Bool := c = ch ' ' || c = ch '\t' || c = ch '\n' || c = ch '\r'

/-- The relation that a byte stands for in front of the string of a keyword. -/
def relationOf (c : UInt8) : Option Relation :=
  if c = ch '=' then some .columnEqual
  else if c = ch '~' then some .columnApprox
  else if c = ch '>' then some .columnAbove
  else if c = ch '<' then some .columnBelow
  else if c = ch ':' then some .columnRegexp
  else none

/-- Adds the keyword that was read, if it has an effect. -/
def Scan.finish (parts : List Keyword) (part : Part) (quoted : Bool) : List Keyword :=
  let keyword : Keyword := ⟨part.column, part.relation, part.text, quoted, part.equal⟩
  if keywordApplies parts keyword then parts ++ [keyword] else parts

/-- A byte between two keywords. -/
def start (c : UInt8) : Option Part :=
  if c = ch '=' then some { equal := true }
  else if isBlank c then none
  else if c = ch '"' then some { inQuote := true }
  else some { text := [c] }

/-- A byte in a keyword. -/
def Part.read (parts : List Keyword) (part : Part) (c : UInt8) : Scan :=
  let more : Scan := ⟨parts, some { part with text := part.text ++ [c] }⟩
  match relationOf c with
  | some relation =>
      if part.inQuote ∨ part.column.isSome then more
      else ⟨parts, some { part with column := some part.text, relation, text := [] }⟩
  | none =>
      if isBlank c then
        if part.inQuote then more else ⟨Scan.finish parts part false, none⟩
      else if c = ch '"' then
        if part.inQuote then ⟨Scan.finish parts part true, none⟩
        else if part.text = [] ∧ (part.column.isSome ∨ part.equal) then
          ⟨parts, some { part with inQuote := true }⟩
        else more
      else more

/-- One byte of the filter, inside of a part or between two. -/
def Scan.step (scan : Scan) (c : UInt8) : Scan :=
  match scan.part with
  | none => ⟨scan.parts, start c⟩
  | some part => part.read scan.parts c

/-- The keywords at the end of the filter. -/
def Scan.done (scan : Scan) : List Keyword :=
  match scan.part with
  | none => scan.parts
  | some part => Scan.finish scan.parts part part.inQuote

/-- The keywords once the filter is read to its end. -/
def scanFrom (scan : Scan) (filter : CString) : List Keyword := (filter.foldl Scan.step scan).done

def defaultKeyword (column string : CString) : Keyword :=
  ⟨some column, .columnEqual, string, false, false⟩

/-- The keywords for what the filter does not say. -/
def defaults (parts : List Keyword) (empty : Bool) : List Keyword :=
  (if parts.any (·.column = some (lit "first")) then []
    else [defaultKeyword (lit "first") (lit "1")]) ++
  (if parts.any (·.column = some (lit "rows")) then []
    else [defaultKeyword (lit "rows") (if empty then lit "-1" else lit "-2")]) ++
  (if parts.any (isSort ·.column) then [] else [defaultKeyword (lit "sort") (lit "name")])

/-- The keywords of a filter, with the ones that are added. -/
def splitFilter (filter : CString) : List Keyword :=
  let parts := scanFrom {} filter
  parts ++ defaults parts (filter = [])

/-- A value, in quotes where it had them. -/
def quoteIf (quoted : Bool) (string : CString) : CString :=
  if quoted then ch '"' :: string ++ [ch '"'] else string

/-- `max` is the rows per page setting. -/
def appendRelation (max : Int32) (column : CString) (keyword : Keyword) (relation : UInt8) :
    CString :=
  if column = lit "rows" ∧ keyword.string = lit "-2" then column ++ relation :: showInt max.toInt
  else column ++ relation :: quoteIf keyword.quoted keyword.string

/-- What is printed for a keyword, behind a blank. -/
def word (max : Int32) (keyword : Keyword) : CString :=
  match keyword.column with
  | some column =>
      match keyword.relation with
      | .columnEqual => appendRelation max column keyword (ch '=')
      | .columnApprox => appendRelation max column keyword (ch '~')
      | .columnAbove => appendRelation max column keyword (ch '>')
      | .columnBelow => appendRelation max column keyword (ch '<')
      | .columnRegexp => appendRelation max column keyword (ch ':')
      | .approx => quoteIf keyword.quoted keyword.string
  | none => (if keyword.equal then lit "=" else []) ++ quoteIf keyword.quoted keyword.string

/-- Whether the keyword is one that is to be left out. -/
def removes (column : Option CString) (keyword : Keyword) : Bool :=
  match keyword.column, column with
  | some name, some column =>
      column ≠ [] && (strcaseeq name column ||
        name.head? = some (ch '_') && strcaseeq (name.drop 1) column)
  | _, _ => false

/-- The filter is printed back, without the keywords of a column. -/
def manageCleanFilterRemove (max : Int32) (filter column : Option CString) : CString :=
  match filter with
  | none => []
  | some filter =>
      gStrstrip (((splitFilter filter).filter (!removes column ·)).flatMap fun keyword =>
        ch ' ' :: word max keyword)

/-- The filter is printed back. -/
def manageCleanFilter (max : Int32) (filter : Option CString) : CString :=
  manageCleanFilterRemove max filter none

end Filters
