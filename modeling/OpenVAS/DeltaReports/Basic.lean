import Mathlib.Algebra.Order.Field.Rat
import OpenVAS.Lib.CString
import OpenVAS.Lib.Merge

/-! Delta reports: the comparison of the results of two reports, the two loops of
`print_report_xml` that list and count them, and the counts that it prints. -/
namespace DeltaReports

open CString

/-- What the result iterator gives for a result. -/
structure Result where
  result : Nat
  host : CString
  port : CString
  nvt : CString
  type : CString
  severity : ℚ
  level : CString
  descr : CString
  deriving DecidableEq

/-! The order of results. -/

/-- Up to three digits, and the rest of the text. -/
def scanDigits (s : CString) : Option (CString × CString) :=
  let digits := (s.takeWhile isdigit).take 3
  if digits = [] then none else some (digits, s.drop digits.length)

def scanDot : CString → Option CString
  | [] => none
  | c :: s => if c = ch '.' then some s else none

/-- Four numbers between dots, and where the last one begins. -/
structure Address where
  a : CString
  b : CString
  c : CString
  d : CString
  dot : Nat

def scanAddress (s : CString) : Option Address := do
  let (a, s₁) ← scanDigits s
  let s₁ ← scanDot s₁
  let (b, s₂) ← scanDigits s₁
  let s₂ ← scanDot s₂
  let (c, s₃) ← scanDigits s₂
  let s₃ ← scanDot s₃
  let (d, _) ← scanDigits s₃
  return { a, b, c, d, dot := s.length - s₃.length }

def collateIpCompare (oneArg twoArg : CString) : Int :=
  let one := atoi oneArg
  let two := atoi twoArg
  if one = two then 0 else if one < two then -1 else 1

/-- The first comparison that decides. -/
def firstOf : List Int → Int
  | [] => 0
  | ret :: rets => if ret ≠ 0 then ret else firstOf rets

/-- The order of hosts. The terminator behind the last number is stored at an index that the
text behind it can take out of the array. -/
def collateIp (one two : CString) : Option Int :=
  match scanAddress one, scanAddress two with
  | some ip₁, some ip₂ =>
      let ret := firstOf
        [collateIpCompare ip₁.a ip₂.a, collateIpCompare ip₁.b ip₂.b, collateIpCompare ip₁.c ip₂.c]
      if ret ≠ 0 then some ret
      else if one.length - ip₁.dot < 4 ∧ two.length - ip₂.dot < 4 then
        some (collateIpCompare (ip₁.d.take (one.length - ip₁.dot))
          (ip₂.d.take (two.length - ip₂.dot)))
      else none
  | _, _ => some (strncmp (min one.length two.length) one two)

/-- The classes of messages, highest first. -/
def messageTypes : List CString :=
  [lit "Security Hole", lit "Security Warning", lit "Security Note", lit "Log Message",
    lit "Debug Message"]

/-- One class after the other; a text is of a class when the class starts with it. -/
def collateTypes (one two : CString) : List CString → Int
  | [] => strncmp (min one.length two.length) one two
  | type :: types =>
      if strncmp one.length one type = 0 then
        if strncmp two.length two type = 0 then 0 else 1
      else if strncmp two.length two type = 0 then -1
      else collateTypes one two types

def collateMessageType (one two : CString) : Int := collateTypes one two messageTypes

/-- Higher severities first. Negative ones are not compared. -/
def severityCmp (severity deltaSeverity : ℚ) : Int :=
  if severity ≥ 0 ∧ deltaSeverity ≥ 0 then
    if severity > deltaSeverity then -1 else if severity < deltaSeverity then 1 else 0
  else 0

/-- The order of two results behind their hosts. -/
def resultCmpRest (sortOrder : Int) (sortField : CString) (x y : Result) : Int :=
  if sortOrder = 0 then
    if sortField = lit "port" then
      firstOf [-strcmp x.port y.port, severityCmp x.severity y.severity,
        -collateMessageType x.type y.type, strcmp x.nvt y.nvt]
    else
      firstOf [severityCmp x.severity y.severity, -collateMessageType x.type y.type,
        strcmp x.port y.port, strcmp x.nvt y.nvt]
  else
    if sortField = lit "port" then
      firstOf [strcmp x.port y.port, severityCmp x.severity y.severity,
        -collateMessageType x.type y.type, strcmp x.nvt y.nvt]
    else
      firstOf [-severityCmp x.severity y.severity, collateMessageType x.type y.type,
        strcmp x.port y.port, strcmp x.nvt y.nvt]

/-- The sort order of two results. -/
def resultCmp (sortOrder : Int) (sortField : Option CString) (x y : Result) : Option Int :=
  let sortField := sortField.getD (lit "type")
  if sortField = lit "ROWID" then
    if sortOrder = 0 then some (if x.result < y.result then 1 else 0)
    else some (if x.result > y.result then 1 else 0)
  else
    match collateIp x.host y.host with
    | none => none
    | some ret => some (if ret ≠ 0 then ret else resultCmpRest sortOrder sortField x y)

inductive CompareResults where
  | changed
  | gone
  | new
  | same
  deriving DecidableEq

def compareResults (sortOrder : Int) (sortField : Option CString) (x y : Result) :
    Option CompareResults :=
  match resultCmp sortOrder sortField x y with
  | none => none
  | some ret =>
      if ret > 0 then some .new
      else if ret < 0 then some .gone
      else if strcmp x.descr y.descr ≠ 0 then some .changed
      else some .same

/-! Counts. -/

/-- The counts of results that pass the filter. -/
@[ext] structure Counts where
  filtered : Int
  debugs : Int
  holes : Int
  infos : Int
  logs : Int
  warnings : Int
  falsePositives : Int
  deriving DecidableEq

def Counts.zero : Counts := ⟨0, 0, 0, 0, 0, 0, 0⟩

/-- Results of a level are added to the counts, or taken away. -/
def Counts.add (counts : Counts) (n : Int) (level : CString) : Counts :=
  let counts := { counts with filtered := counts.filtered + n }
  if level = lit "High" then { counts with holes := counts.holes + n }
  else if level = lit "Medium" then { counts with warnings := counts.warnings + n }
  else if level = lit "Low" then { counts with infos := counts.infos + n }
  else if level = lit "Log" then { counts with logs := counts.logs + n }
  else if level = lit "False Positive" then
    { counts with falsePositives := counts.falsePositives + n }
  else counts

/-- What `report_counts_id_filt` and `report_scan_result_count` answer for the first report. It
is assumed here that they count the results that its iterator has, which they are asked for
under the same filter, each by its level. -/
def reportCounts (results : List Result) : Counts :=
  results.foldl (fun counts x => counts.add 1 x.level) .zero

/-- What `RESULT_COUNT` says, by the levels of the filter. -/
def resultCount (levels : CString) (counts : Counts) : Counts where
  filtered := counts.filtered
  debugs := if (strchr levels (ch 'd')).isSome then counts.debugs else 0
  holes := if (strchr levels (ch 'h')).isSome then counts.holes else 0
  infos := if (strchr levels (ch 'l')).isSome then counts.infos else 0
  logs := if (strchr levels (ch 'g')).isSome then counts.logs else 0
  warnings := if (strchr levels (ch 'm')).isSome then counts.warnings else 0
  falsePositives := if (strchr levels (ch 'f')).isSome then counts.falsePositives else 0

/-! Pages. -/

/-- How many results to skip, and how many to list. -/
structure Page where
  firstResult : Int
  maxResults : Int
  deriving DecidableEq

/-- A result of the delta report. -/
inductive Entry where
  | changed (x y : Result)
  | gone (x : Result)
  | new (y : Result)
  | same (x y : Result)
  deriving DecidableEq

/-- The states that the report is asked for. -/
def wanted (deltaStates : CString) : CompareResults → Bool
  | .changed => (strchr deltaStates (ch 'c')).isSome
  | .gone => (strchr deltaStates (ch 'g')).isSome
  | .new => (strchr deltaStates (ch 'n')).isSome
  | .same => (strchr deltaStates (ch 's')).isSome

/-- What `compare_and_buffer_results` says, and the page after it. -/
structure Compared where
  state : CompareResults
  used : Bool
  wouldUse : Bool
  page : Page

def entry (x y : Result) : CompareResults → Entry
  | .changed => .changed x y
  | .gone => .gone x
  | .new => .new y
  | .same => .same x y

/-- The result is buffered where it is used. -/
def compareAndBufferResults (compare : Result → Result → Option CompareResults)
    (wanted : CompareResults → Bool) (page : Page) (x y : Result) : Option Compared :=
  match compare x y with
  | none => none
  | some state =>
      if wanted state then
        if page.firstResult ≠ 0 then
          some { state, used := false, wouldUse := true,
                 page := { page with firstResult := page.firstResult - 1 } }
        else
          some { state, used := true, wouldUse := true,
                 page := { page with maxResults := page.maxResults - 1 } }
      else some { state, used := false, wouldUse := false, page }

/-- What is left of both reports behind a loop, and what was listed. -/
structure Progress where
  results : List Result
  deltaResults : List Result
  page : Page
  counts : Counts
  listed : List Entry

/-- Extra results in the second report, on the page. -/
def extraNew (page : Page) (counts : Counts) : List Result → Page × Counts × List Entry
  | [] => (page, counts, [])
  | y :: ys =>
      if page.firstResult ≠ 0 then
        extraNew { page with firstResult := page.firstResult - 1 } counts ys
      else
        let counts := counts.add 1 y.level
        let page := { page with maxResults := page.maxResults - 1 }
        if page.maxResults = 0 then (page, counts, [.new y])
        else
          let (page, counts, listed) := extraNew page counts ys
          (page, counts, .new y :: listed)

/-- Extra results in the first report, on the page. -/
def extraGone (page : Page) : List Result → Page × List Entry
  | [] => (page, [])
  | x :: xs =>
      if page.firstResult ≠ 0 then
        extraGone { page with firstResult := page.firstResult - 1 } xs
      else
        let page := { page with maxResults := page.maxResults - 1 }
        if page.maxResults = 0 then (page, [.gone x])
        else
          let (page, listed) := extraGone page xs
          (page, .gone x :: listed)

/-- Extra results in the first report that nobody asked for. -/
def dropExtra (counts : Counts) (xs : List Result) : Counts :=
  xs.foldl (fun counts x => counts.add (-1) x.level) counts

def Progress.list (used : Bool) (item : Entry) (progress : Progress) : Progress :=
  if used then { progress with listed := item :: progress.listed } else progress

section

variable (compare : Result → Result → Option CompareResults) (wanted : CompareResults → Bool)

/-- The counts after two results were compared on the page. -/
def comparedCounts (compared : Compared) (x y : Result) (counts : Counts) : Counts :=
  match compared.state with
  | .new => if compared.wouldUse then counts.add 1 y.level else counts
  | _ => if compared.wouldUse then counts else counts.add (-1) x.level

/-- The loop that compares the results until the page is full. -/
def compareLoop (page : Page) (counts : Counts) (xs ys : List Result) : Option Progress :=
  if page.maxResults = 0 then some ⟨xs, ys, page, counts, []⟩
  else
    match xs, ys with
    | [], [] => some ⟨[], [], page, counts, []⟩
    | [], y :: ys =>
        if wanted .new then
          let (page, counts, listed) := extraNew page counts (y :: ys)
          some ⟨[], [], page, counts, listed⟩
        else some ⟨[], [], page, counts, []⟩
    | x :: xs, [] =>
        if wanted .gone then
          let (page, listed) := extraGone page (x :: xs)
          some ⟨[], [], page, counts, listed⟩
        else some ⟨[], [], page, dropExtra counts (x :: xs), []⟩
    | x :: xs, y :: ys =>
        match compareAndBufferResults compare wanted page x y with
        | none => none
        | some compared =>
            let counts := comparedCounts compared x y counts
            let list := Progress.list compared.used (entry x y compared.state)
            match compared.state with
            | .gone => (compareLoop compared.page counts xs (y :: ys)).map list
            | .same => (compareLoop compared.page counts xs ys).map list
            | .changed => (compareLoop compared.page counts xs ys).map list
            | .new => (compareLoop compared.page counts (x :: xs) ys).map list
termination_by xs.length + ys.length

/-- The counts after two results were compared behind the page. -/
def restCounts (compared : Compared) (x y : Result) (counts : Counts) : Counts :=
  match compared.state with
  | .new => if compared.used then counts.add 1 y.level else counts
  | _ => if compared.used then counts else counts.add (-1) x.level

/-- The loop that compares the remaining results, for the counts. -/
def countLoop (page : Page) (counts : Counts) : List Result → List Result → Option (Page × Counts)
  | [], ys =>
      if wanted .new then some (page, ys.foldl (fun counts y => counts.add 1 y.level) counts)
      else some (page, counts)
  | x :: xs, [] =>
      if wanted .gone then some (page, counts) else some (page, dropExtra counts (x :: xs))
  | x :: xs, y :: ys =>
      match compareAndBufferResults compare wanted page x y with
      | none => none
      | some compared =>
          let counts := restCounts compared x y counts
          match compared.state with
          | .gone => countLoop compared.page counts xs (y :: ys)
          | .same => countLoop compared.page counts xs ys
          | .changed => countLoop compared.page counts xs ys
          | .new => countLoop compared.page counts (x :: xs) ys
termination_by xs ys => xs.length + ys.length

end

/-- The results that a delta report lists, the counts that it prints, and the page behind
them. -/
structure DeltaReport where
  listed : List Entry
  counts : Counts
  page : Page

/-- The delta part of `print_report_xml`. -/
def deltaReport (sortOrder : Int) (sortField : Option CString) (deltaStates levels : CString)
    (page : Page) (results deltaResults : List Result) : Option DeltaReport :=
  let compare := compareResults sortOrder sortField
  let wanted := wanted deltaStates
  match compareLoop compare wanted page (reportCounts results) results deltaResults with
  | none => none
  | some progress =>
      (countLoop compare wanted progress.page progress.counts progress.results
          progress.deltaResults).map fun (page, counts) =>
        { listed := progress.listed, counts := resultCount levels counts, page }

end DeltaReports
