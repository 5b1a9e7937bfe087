import Mathlib.Data.List.DropRight
import OpenVAS.Lib.CString

/-! The state of the OTP library of the manager: the parser state, the static
variables that hold a message while its fields arrive, and the calls that it
makes into the rest of the manager, which are recorded in their order. -/
namespace Otp

open CString

inductive ScannerState where
  | bye | done
  | errmsgDescription | errmsgHost | errmsgNumber | errmsgOid
  | alarmDescription | alarmHost | alarmNumber | alarmOid
  | logDescription | logHost | logNumber | logOid
  | nvtInfo
  | pluginListBugtraqId | pluginListCategory | pluginListCopyright | pluginListCveId
  | pluginListFamily | pluginListName | pluginListOid | pluginListPluginVersion
  | pluginListSummary | pluginListTags | pluginListXrefs
  | preferenceName | preferenceValue
  | server
  | status | statusAttackState | statusHost | statusPorts | statusProgress
  | time | timeHostStartHost | timeHostStartTime | timeHostEndHost | timeHostEndTime
  | timeScanStart | timeScanEnd
  | top
  deriving DecidableEq, Repr

/-- States of the initialisation of the scanner connection. -/
inductive InitState where
  | connectIntr | connected | done | doneCacheMode | doneCacheModeUpdate
  | gotFeedVersion | gotPlugins | sentCompleteList | sentCompleteListUpdate
  | sentVersion | top
  deriving DecidableEq, Repr

inductive TaskStatus where
  | deleteRequested | done | new | requested | running
  | pauseRequested | pauseWaiting | paused | resumeRequested | resumeWaiting
  | stopRequested | stopWaiting | stopped | internalError
  | deleteUltimateRequested | stopRequestedGiveup | deleteWaiting | deleteUltimateWaiting
  deriving DecidableEq, Repr

/-- A result while its fields arrive. A pointer that may be NULL is an `Option`. -/
structure Message where
  host : CString
  portString : Option CString
  description : Option CString
  oid : Option CString
  deriving DecidableEq, Repr

structure Nvti where
  oid : Option CString := none
  name : Option CString := none
  category : Nat := 0
  copyright : Option CString := none
  summary : Option CString := none
  family : Option CString := none
  version : Option CString := none
  cve : Option CString := none
  bid : Option CString := none
  xref : Option CString := none
  tag : Option CString := none
  cvssBase : Option CString := none
  deriving DecidableEq, Repr

/-- What the OTP library makes the rest of the manager do. Tasks and reports
are row numbers, and 0 stands for none. -/
inductive Effect where
  | makeResult (task report : Nat) (host : CString) (port oid : Option CString)
      (type description : CString)
  | reportHostDetail (report : Nat) (host xml : CString)
  | nvtPreferenceAdd (name value : CString) (remove : Bool)
  | setNvtsFeedVersion (version : CString)
  | completeNvtCacheUpdate (nvts : List Nvti) (mode : Int)
  | nvtPreferencesEnable
  | sendToServer (command : CString)
  | setScannerInitState (state : InitState)
  | setTaskRunStatus (task : Nat) (status : TaskStatus)
  | setScanAttackState (report : Nat) (host state : CString)
  | setScanPorts (report : Nat) (host : CString) (current max : UInt32)
  | setScanHostStartTime (report : Nat) (host time : CString)
  | setScanHostEndTime (report : Nat) (host time : CString)
  | setTaskStartTime (task : Nat) (time : CString)
  | setScanStartTime (report : Nat) (time : CString)
  | setScanEndTime (report : Nat) (time : CString)
  | setTaskEndTime (task : Nat) (time : CString)
  | deleteTask (task : Nat) (ultimate : Bool)
  deriving DecidableEq, Repr

/-- The variables of the library, the task and report that are being scanned,
and the status that the database holds for that task. -/
structure Session where
  scannerState : ScannerState
  scannerInitState : InitState
  currentMessage : Option Message := none
  currentHost : Option CString := none
  pluginsFeedVersion : Option CString := none
  currentScannerPreference : Option CString := none
  currentPlugin : Option Nvti := none
  scannerPluginsList : List Nvti := []
  currentScannerTask : Nat := 0
  currentReport : Nat := 0
  taskRunStatus : TaskStatus := .new
  scannerActive : Bool := true
  scannerCurrentLoading : Int32 := 0
  scannerTotalLoading : Int32 := 0
  effects : List Effect := []
  deriving DecidableEq, Repr

/-- What the library reads from the database: the name of a port, and the start
time of a report after the effects so far. -/
structure Env where
  portNameFormatted : CString → Option CString
  scanStartTimeEpoch : List Effect → Nat → Int

/-- The expressions that the library asserts. -/
inductive Assertion where
  | currentMessage | currentHost | currentPlugin | currentScannerPreference | currentReport
  /-- The text given to `sql_quote` is not NULL. -/
  | quotedString
  /-- A case that its author takes to be impossible. -/
  | unreachable
  deriving DecidableEq, Repr

/-- Ways in which a call does not return. -/
inductive Fault where
  | assertion (failed : Assertion)
  | abort
  /-- `openvas_strip_space` asserts that the field does not end before it starts. -/
  | fieldEnd
  /-- `from_scanner_start` has passed `from_scanner_end`. -/
  | overrun
  deriving DecidableEq, Repr

/-- How a call ends, unless it returns 0 to wait for more input. -/
inductive Ending where
  | returned (code : Int)
  | faulted (fault : Fault)
  deriving DecidableEq, Repr

namespace Session

def addEffect (o : Session) (effect : Effect) : Session :=
  { o with effects := o.effects ++ [effect] }

def setScannerState (o : Session) (state : ScannerState) : Session :=
  { o with scannerState := state }

def setScannerInitState (o : Session) (state : InitState) : Session :=
  { o with scannerInitState := state }.addEffect (.setScannerInitState state)

/-- The task is the current one, whose status the session holds. -/
def setTaskRunStatus (o : Session) (status : TaskStatus) : Session :=
  { o with taskRunStatus := status }.addEffect (.setTaskRunStatus o.currentScannerTask status)

end Session

def isBlank (c : UInt8) : Bool := c = ch ' ' || c = ch '\n'

/-- A field without the blanks at its ends. Where blanks are in front and at
most one byte follows them, that byte is dropped too. -/
def openvasStripSpace (raw : CString) : CString :=
  let text := raw.dropWhile isBlank
  if text.length < raw.length ∧ text.length ≤ 1 then [] else text.rdropWhile isBlank

def iscntrl (c : UInt8) : Bool := c < 32 || c = 127

def blankControlChars (s : CString) : CString :=
  s.map fun c => if iscntrl c && c ≠ ch '\n' then ch ' ' else c

/-- The text up to a NUL byte, which is where the C string at that place ends. -/
def terminated (bytes : List UInt8) : CString := bytes.takeWhile (· ≠ 0)

/-- What the cases of the parser see of the bytes in front of a separator. -/
def fieldText (raw : List UInt8) : CString := blankControlChars (terminated (openvasStripSpace raw))

def categories : List CString :=
  [lit "init", lit "scanner", lit "settings", lit "infos", lit "attack", lit "mixed",
    lit "destructive_attack", lit "denial", lit "kill_host", lit "flood", lit "end"]

/-- Index of a category name; 11 is `ACT_UNKNOWN`. -/
def categoryNumber (category : CString) : Nat := (categories.idxOf? category).getD 11

/-- The tags without the `cvss_base` and `risk_factor` entries, and the first
`cvss_base` entry. -/
def parseTags (scannerTags : CString) : CString × Option CString :=
  let entries := if scannerTags = [] then [] else scannerTags.splitOn (ch '|')
  let cvss := entries.filter ((lit "cvss_base=").isPrefixOf ·)
  let others := entries.filter fun entry =>
    !(lit "cvss_base=").isPrefixOf entry && !(lit "risk_factor=").isPrefixOf entry
  let tags := [ch '|'].intercalate others
  (if tags = [] then lit "NOTAG" else tags, cvss.head?.map (·.drop (lit "cvss_base=").length))

/-- A field of an `Nvti` that is NULL when the text is empty. -/
def unlessEmpty (text : CString) : Option CString := if text = [] then none else some text

/-- Whether a preference name has the form `SSH Authorization[entry]:value`, or
the same for SMB, with a printable byte behind the colon. -/
def isAuthorization (field : CString) : Bool :=
  let name := (field.take 20).takeWhile (· ≠ ch '[')
  (name = lit "SSH Authorization" || name = lit "SMB Authorization") &&
    match field.drop name.length with
    | [] => false
    | bracket :: rest =>
        let entry := rest.takeWhile (· ≠ ch ']')
        bracket = ch '[' && entry ≠ [] &&
          match rest.drop entry.length with
          | close :: colon :: value :: _ =>
              close = ch ']' && colon = ch ':' && (ch ' ' ≤ value && value ≤ ch '~')
          | _ => false

/-- A `%u` conversion of `sscanf`: the number it stores and the rest of the text. -/
def scanU (s : CString) : Option (UInt32 × CString) :=
  let (negative, body) := splitSign (s.dropWhile isspace)
  let digits := body.takeWhile isdigit
  let magnitude := digitsValue digits
  let value := if 2 ^ 64 ≤ magnitude then 2 ^ 64 - 1
    else if negative then (2 ^ 64 - magnitude) % 2 ^ 64 else magnitude
  if digits = [] then none else some (UInt32.ofNat value, body.dropWhile isdigit)

/-- `sscanf` with `%u/%u`; `none` when it does not store both numbers. -/
def scanProgress (field : CString) : Option (UInt32 × UInt32) := do
  let (current, rest) ← scanU field
  match rest with
  | slash :: rest =>
      let (max, _) ← scanU rest
      if slash = ch '/' then some (current, max) else none
  | [] => none

end Otp
