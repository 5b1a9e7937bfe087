import OpenVAS.Ports.Basic
import Mathlib.Data.List.Sort

/-! The two readers of a port list: `port_range_ranges` of `openvas_networking.c` and
`getpts` of `scanners_utils.c`, which keeps its last result. -/
namespace Ports

open CString

inductive PortProtocol where
  | tcp
  | udp
deriving DecidableEq

/-- `range_t` without its comment and id; `stop` is the field `end`. -/
structure PortRange where
  start : Int32
  stop : Int32
  type : PortProtocol
  exclude : Bool
deriving DecidableEq

/-- A type specifier selects the protocol of its element and of those behind it. -/
def switchProtocol (tcp : Bool) : CString → Bool × CString
  | t :: c :: rest =>
      if t = ch 'T' && c = ch ':' then (true, rest)
      else if t = ch 'U' && c = ch ':' then (false, rest)
      else (tcp, t :: c :: rest)
  | element => (tcp, element)

/-- The range of an element, if it is not blank; `none` is a failed assertion. -/
def readPortRange (tcp : Bool) (element : CString) : Option (List PortRange) :=
  let element := element.dropWhile isblank
  let type := if tcp then PortProtocol.tcp else .udp
  match strchr element (ch '-') with
  | some i =>
      let hyphen := (element.drop (i + 1)).dropWhile isblank
      if hyphen = [] then none
      else some [{ start := atoi (element.take i), stop := atoi hyphen, type, exclude := false }]
  | none =>
      if element = [] then some []
      else some [{ start := atoi element, stop := atoi element, type, exclude := false }]

def addPortRanges : Bool → List CString → Option (List PortRange)
  | _, [] => some []
  | tcp, point :: rest => do
      let (tcp, element) := switchProtocol tcp (gStrstrip point)
      let range ← readPortRange tcp element
      let ranges ← addPortRanges tcp rest
      some (range ++ ranges)

def portRangeRanges (portRange : CString) : Option (List PortRange) :=
  addPortRanges true (((portRange.dropWhile isblank).map newlineToComma).splitOn (ch ','))

/-- The ports of one protocol that ranges hold. -/
def InRanges (type : PortProtocol) (ranges : List PortRange) (port : Nat) : Prop :=
  ∃ range ∈ ranges, range.type = type ∧ range.start.toInt ≤ port ∧ (port : Int) ≤ range.stop.toInt

/-- Accesses outside the memory of a buffer. -/
inductive Fault where
  | readBefore
  | writePast
deriving DecidableEq

/-- 0 is the biggest number, since it ends the list. -/
def qsortCompar (a b : UInt16) : Int :=
  if a = 0 then 1 else if b = 0 then -1 else a.toNat - b.toNat

/-- `qsort`: no entry is less than the one in front of it. -/
def qsort (ports : List UInt16) : List UInt16 :=
  ports.insertionSort fun a b => ¬ qsortCompar b a < 0

/-- First and last port of one element, as far as `atoi` reads it. -/
def readExpr (expr : CString) : Int × Int :=
  let (start, stop) :=
    if expr.head? = some (ch '-') then (1, (atoi (expr.drop 1)).toInt)
    else
      let number := (atoi expr).toInt
      match strchr expr (ch '-') with
      | none => (number, number)
      | some q =>
          if expr.drop (q + 1) = [] then (number, 65535)
          else (number, (atoi (expr.drop (q + 1))).toInt)
  (if start < 1 then 1 else start, stop)

/-- The entries of the buffer `ports`, which is full with 65536 of them. -/
def writePorts (ports : List UInt16) (start stop : Int) : Except Fault (List UInt16) :=
  let count := (stop + 1 - start).toNat
  if ports.length + count ≤ 65536 then
    .ok (ports ++ (List.range' start.toNat count).map UInt16.ofNat)
  else .error .writePast

/-- The ports of all elements; `none` is the NULL answer. -/
def writeExprs : List CString → List UInt16 → Except Fault (Option (List UInt16))
  | [], ports => .ok (some ports)
  | expr :: rest, ports =>
      let (start, stop) := readExpr expr
      if stop < start then .ok none
      else do writeExprs rest (← writePorts ports start stop)

/-- The text behind the first `T:`, up to the next `U:` and a comma in front of that. -/
def tcpExpr (expr : CString) : Except Fault CString :=
  let start := strstr expr (lit "T:")
  let expr := start.elim expr fun i => expr.drop (i + 2)
  match strstr expr (lit "U:") with
  | none => .ok expr
  | some 0 => if start.isNone then .error .readBefore else .ok []
  | some (i + 1) => .ok (if expr[i]? = some (ch ',') then expr.take i else expr.take (i + 1))

/-- The list for a text and its length without the 0 at the end. -/
def computePts (origexpr : CString) : Except Fault (Option (List UInt16 × Nat)) := do
  let expr ← tcpExpr (origexpr.filter (· ≠ ch ' '))
  match ← writeExprs (expr.splitOn (ch ',')) [] with
  | none => .ok none
  | some ports =>
      let ports := ports ++ [0]
      if 65536 < ports.length then .error .writePast
      else .ok (some (qsort ports, ports.length - 1))

/-- The static variables of `getpts`. -/
structure LastPts where
  lastExpr : CString
  lastRet : List UInt16
  lastNum : Nat
deriving DecidableEq

/-- The answer to a call, and the static variables after it. A call with another text
than the last one frees what they hold. -/
def getpts (last : Option LastPts) (origexpr : CString) :
    Except Fault (Option (List UInt16 × Nat) × Option LastPts) :=
  match last.filter (·.lastExpr = origexpr) with
  | some last => .ok (some (last.lastRet, last.lastNum), some last)
  | none => do
      match ← computePts origexpr with
      | none => .ok (none, none)
      | some (ports, num) =>
          .ok (some (ports, num), some { lastExpr := origexpr, lastRet := ports, lastNum := num })

end Ports
