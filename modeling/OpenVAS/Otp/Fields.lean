import OpenVAS.Otp.Basic

/-! The cases of `process_otp_scanner_input`: what a field does in each state
of the parser, and what the code tries to read next. -/
namespace Otp

open CString

/-- What depends on finding the closing `SERVER` of a message in the same call. -/
inductive Completion where
  | nothing | bye | pluginList | nvtInfo | preferences
  deriving DecidableEq, Repr

/-- What the code reads behind a field, beside further fields. -/
inductive Reading where
  | field
  /-- `parse_scanner_done`. -/
  | closing (completion : Completion)
  /-- `parse_scanner_plugin_list_tags`. -/
  | tags
  /-- `parse_scanner_preference_value`. -/
  | value
  /-- `parse_scanner_server`. -/
  | command
  deriving DecidableEq, Repr

/-- How the case of a field leaves the switch. -/
inductive Next where
  | read (o : Session) (reading : Reading)
  /-- `return_error`. -/
  | fail (o : Session)
  | fault (o : Session) (fault : Fault)
  deriving DecidableEq, Repr

/-- The loop goes on to the next field, in another state. -/
def proceed (o : Session) (state : ScannerState) : Next := .read (o.setScannerState state) .field

/-- A check that stops the process when it fails. -/
def asserting (o : Session) (assertion : Assertion) (holds : Bool) (next : Next) : Next :=
  if holds then next else .fault o (.assertion assertion)

/-- `set_scanner_state (SCANNER_DONE)` and then `parse_scanner_done`. -/
def finish (o : Session) (completion : Completion) : Next :=
  .read (o.setScannerState .done) (.closing completion)

def makeMessage (host : CString) : Message := ⟨host, none, none, none⟩

def writeMessage (type : CString) (message : Message) (o : Session) : Except Fault Session :=
  if o.currentReport = 0 then .error (.assertion .currentReport)
  else match message.description with
    | none => .error (.assertion .quotedString)
    | some description =>
        .ok (o.addEffect (.makeResult o.currentScannerTask o.currentReport message.host
          message.portString message.oid type description))

def appendErrorMessage : Message → Session → Except Fault Session :=
  writeMessage (lit "Error Message")

def appendAlarmMessage : Message → Session → Except Fault Session := writeMessage (lit "Alarm")

/-- The text without a backslash and an `n` at its end. -/
def stripTrailingNewline (description : CString) : CString :=
  if 2 < description.length ∧ (lit "\\n").isSuffixOf description then
    description.take (description.length - 2)
  else description

/-- `strlen` of a missing description is taken as the check that it is there. -/
def appendLogMessage (message : Message) (o : Session) : Except Fault Session :=
  if o.currentReport = 0 then .error (.assertion .currentReport)
  else if message.portString = some (lit "general/Host_Details") then
    match message.description with
    | none => .error (.assertion .quotedString)
    | some description =>
        .ok (o.addEffect (.reportHostDetail o.currentReport message.host
          (stripTrailingNewline description)))
  else writeMessage (lit "Log Message") message o

/-- The cases `SCANNER_ERRMSG_HOST`, `SCANNER_ALARM_HOST` and `SCANNER_LOG_HOST`. -/
def onMessageHost (next : ScannerState) (o : Session) (field : CString) : Next :=
  asserting o .currentMessage o.currentMessage.isNone
    (proceed { o with currentMessage := some (makeMessage field) } next)

/-- The cases `SCANNER_ERRMSG_NUMBER`, `SCANNER_ALARM_NUMBER` and `SCANNER_LOG_NUMBER`. -/
def onMessageNumber (env : Env) (next : ScannerState) (o : Session) (field : CString) : Next :=
  match o.currentMessage with
  | none => .fault o (.assertion .currentMessage)
  | some message =>
      let formatted := (env.portNameFormatted field).getD field
      proceed { o with currentMessage := some { message with portString := some formatted } } next

/-- The cases `SCANNER_ERRMSG_DESCRIPTION`, `SCANNER_ALARM_DESCRIPTION` and
`SCANNER_LOG_DESCRIPTION`. -/
def onMessageDescription (next : ScannerState) (o : Session) (field : CString) : Next :=
  let described := o.currentMessage.map fun message => { message with description := some field }
  proceed { o with currentMessage := described } next

/-- The cases `SCANNER_ERRMSG_OID`, `SCANNER_ALARM_OID` and `SCANNER_LOG_OID`. Without
a current task the message is kept. -/
def onMessageOid (append : Message → Session → Except Fault Session) (o : Session)
    (field : CString) : Next :=
  match o.currentMessage with
  | none => finish o .nothing
  | some message =>
      if o.currentScannerTask = 0 then finish o .nothing
      else match append { message with oid := some field } o with
        | .error fault => .fault o fault
        | .ok o => finish { o with currentMessage := none } .nothing

/-- The cases that set one field of the current plugin. -/
def onPluginField (next : ScannerState) (set : CString → Nvti → Nvti) (o : Session)
    (field : CString) : Next :=
  proceed { o with currentPlugin := o.currentPlugin.map (set field) } next

/-- An empty field is the end of the list. -/
def onPluginListOid (o : Session) (field : CString) : Next :=
  if field = [] then finish o .pluginList
  else asserting o .currentPlugin o.currentPlugin.isNone
    (proceed { o with currentPlugin := some { oid := some field } } .pluginListName)

def onPluginListXrefs (o : Session) (field : CString) : Next :=
  let plugin := o.currentPlugin.map fun n => { n with xref := unlessEmpty field }
  .read ({ o with currentPlugin := plugin }.setScannerState .pluginListTags) .tags

def onNvtInfo (o : Session) (field : CString) : Next :=
  finish { o with pluginsFeedVersion := some field } .nvtInfo

/-- An empty field is the end of the preferences. -/
def onPreferenceName (o : Session) (field : CString) : Next :=
  if field = [] then finish o .preferences
  else
    let preference := if isAuthorization field then none else some field
    .read ({ o with currentScannerPreference := preference }.setScannerState .preferenceValue) .value

/-- The case `SCANNER_SERVER`, where the field is the name of a command. -/
def onServer (o : Session) (field : CString) : Next :=
  if strcaseeq (lit "BYE") field then proceed o .bye
  else if strcaseeq (lit "ERRMSG") field then proceed o .errmsgHost
  else if strcaseeq (lit "FILE_ACCEPTED") field then finish o .nothing
  else if strcaseeq (lit "ALARM") field then proceed o .alarmHost
  else if strcaseeq (lit "LOG") field then proceed o .logHost
  else if strcaseeq (lit "NVT_INFO") field then proceed o .nvtInfo
  else if strcaseeq (lit "PLUGIN_LIST") field then proceed o .pluginListOid
  else if strcaseeq (lit "PREFERENCES") field then
    asserting o .currentScannerPreference o.currentScannerPreference.isNone
      (proceed o .preferenceName)
  else if strcaseeq (lit "TIME") field then proceed o .time
  else if strcaseeq (lit "STATUS") field then proceed o .statusHost
  else .fail o

/-- The cases that start with the name of a host. -/
def onHost (next : ScannerState) (o : Session) (field : CString) : Next :=
  asserting o .currentHost o.currentHost.isNone
    (proceed { o with currentHost := some field } next)

/-- A state other than `portscan` is recorded; `pause` and `resume` change the
status of the current task. -/
def onStatusAttackState (o : Session) (field : CString) : Next :=
  match o.currentHost with
  | none => proceed o .statusPorts
  | some host =>
      if o.currentReport = 0 ∨ field = lit "portscan" then proceed o .statusPorts
      else
        let o :=
          if o.currentScannerTask = 0 then
            o.addEffect (.setScanAttackState o.currentReport host field)
          else if field = lit "pause" then o.setTaskRunStatus .paused
          else if field = lit "resume" then o.setTaskRunStatus .running
          else o
        proceed o .statusProgress

def onStatusPorts (o : Session) : Next := finish { o with currentHost := none } .nothing

def onStatusProgress (o : Session) (field : CString) : Next :=
  if o.currentReport = 0 then .fault o (.assertion .currentReport)
  else
    let o := match o.currentHost, scanProgress field with
      | some host, some (current, max) =>
          o.addEffect (.setScanPorts o.currentReport host current max)
      | _, _ => o
    finish { o with currentHost := none } .nothing

def onTime (o : Session) (field : CString) : Next :=
  if strcaseeq (lit "HOST_START") field then proceed o .timeHostStartHost
  else if strcaseeq (lit "HOST_END") field then proceed o .timeHostEndHost
  else if strcaseeq (lit "SCAN_START") field then proceed o .timeScanStart
  else if strcaseeq (lit "SCAN_END") field then proceed o .timeScanEnd
  else .fault o .abort

/-- The cases `SCANNER_TIME_HOST_START_TIME` and `SCANNER_TIME_HOST_END_TIME`. Without
a current task the host is kept. -/
def onTimeHost (effect : Nat → CString → CString → Effect) (o : Session) (field : CString) : Next :=
  if o.currentScannerTask = 0 then finish o .nothing
  else match o.currentHost with
    | none => .fault o (.assertion .currentHost)
    | some host =>
        finish ({ o with currentHost := none }.addEffect (effect o.currentReport host field)) .nothing

/-- The start time of a scan that has been started before is left alone. -/
def onTimeScanStart (env : Env) (o : Session) (field : CString) : Next :=
  if o.currentScannerTask ≠ 0 ∧ o.taskRunStatus = .requested then
    let o := o.setTaskRunStatus .running
    if env.scanStartTimeEpoch o.effects o.currentReport = 0 then
      finish ((o.addEffect (.setTaskStartTime o.currentScannerTask field)).addEffect
        (.setScanStartTime o.currentReport field)) .nothing
    else finish o .nothing
  else finish o .nothing

/-- What the end of a scan does to its task, by the status of the task. -/
def endTask (o : Session) (field : CString) : Session :=
  match o.taskRunStatus with
  | .internalError => o
  | .pauseRequested | .pauseWaiting | .paused | .resumeRequested | .resumeWaiting
  | .stopRequested | .stopWaiting => o.setTaskRunStatus .stopped
  | .deleteRequested | .deleteWaiting =>
      (o.setTaskRunStatus .stopped).addEffect (.deleteTask o.currentScannerTask false)
  | .deleteUltimateRequested | .deleteUltimateWaiting =>
      (o.setTaskRunStatus .stopped).addEffect (.deleteTask o.currentScannerTask true)
  | .done | .new | .requested | .running | .stopped | .stopRequestedGiveup =>
      (o.addEffect (.setTaskEndTime o.currentScannerTask field)).setTaskRunStatus .done

def onTimeScanEnd (o : Session) (field : CString) : Next :=
  if o.currentScannerTask = 0 then finish o .nothing
  else
    let o := if o.currentReport = 0 then o else o.addEffect (.setScanEndTime o.currentReport field)
    finish { endTask o field with currentReport := 0, currentScannerTask := 0 } .nothing

/-- The switch on the state of the parser. -/
def onField (env : Env) (o : Session) (field : CString) : Next :=
  match o.scannerState with
  | .bye => if strcaseeq (lit "BYE") field then finish o .bye else .fail o
  | .errmsgDescription => onMessageDescription .errmsgOid o field
  | .errmsgHost => onMessageHost .errmsgNumber o field
  | .errmsgNumber => onMessageNumber env .errmsgDescription o field
  | .errmsgOid => onMessageOid appendErrorMessage o field
  | .alarmDescription => onMessageDescription .alarmOid o field
  | .alarmHost => onMessageHost .alarmNumber o field
  | .alarmNumber => onMessageNumber env .alarmDescription o field
  | .alarmOid => onMessageOid appendAlarmMessage o field
  | .logDescription => onMessageDescription .logOid o field
  | .logHost => onMessageHost .logNumber o field
  | .logNumber => onMessageNumber env .logDescription o field
  | .logOid => onMessageOid appendLogMessage o field
  | .pluginListOid => onPluginListOid o field
  | .pluginListName =>
      onPluginField .pluginListCategory (fun name n => { n with name := some name }) o field
  | .pluginListCategory =>
      onPluginField .pluginListCopyright (fun category n =>
        { n with category := categoryNumber category }) o field
  | .pluginListCopyright =>
      onPluginField .pluginListSummary (fun text n => { n with copyright := some text }) o field
  | .pluginListSummary =>
      onPluginField .pluginListFamily (fun text n => { n with summary := some text }) o field
  | .pluginListFamily =>
      onPluginField .pluginListPluginVersion (fun text n => { n with family := some text }) o field
  | .pluginListPluginVersion =>
      onPluginField .pluginListCveId (fun text n => { n with version := some text }) o field
  | .pluginListCveId =>
      onPluginField .pluginListBugtraqId (fun text n => { n with cve := some text }) o field
  | .pluginListBugtraqId =>
      onPluginField .pluginListXrefs (fun text n => { n with bid := some text }) o field
  | .pluginListXrefs => onPluginListXrefs o field
  | .nvtInfo => onNvtInfo o field
  | .preferenceName => onPreferenceName o field
  | .server => onServer o field
  | .statusAttackState => onStatusAttackState o field
  | .statusHost => onHost .statusAttackState o field
  | .statusPorts => onStatusPorts o
  | .statusProgress => onStatusProgress o field
  | .time => onTime o field
  | .timeHostStartHost => onHost .timeHostStartTime o field
  | .timeHostStartTime => onTimeHost .setScanHostStartTime o field
  | .timeHostEndHost => onHost .timeHostEndTime o field
  | .timeHostEndTime => onTimeHost .setScanHostEndTime o field
  | .timeScanStart => onTimeScanStart env o field
  | .timeScanEnd => onTimeScanEnd o field
  | .top | .done | .pluginListTags | .preferenceValue | .status =>
      if strcaseeq (lit "SERVER") field then .read (o.setScannerState .server) .command else .fail o

/-- What follows when the closing `SERVER` has been found in the call of the
last field. -/
def onDone (completion : Completion) (o : Session) : Session × Option Ending :=
  match completion with
  | .nothing => (o, none)
  | .bye =>
      ({ o with scannerActive := false }.addEffect (.sendToServer (lit "CLIENT <|> BYE <|> ACK\n")),
        some (.returned 1))
  | .pluginList =>
      if o.scannerInitState = .sentCompleteList ∨ o.scannerInitState = .sentCompleteListUpdate then
        match o.pluginsFeedVersion with
        | none => (o.setScannerInitState .gotPlugins, some (.faulted (.assertion .quotedString)))
        | some version =>
            ((o.setScannerInitState .gotPlugins).addEffect (.setNvtsFeedVersion version), none)
      else (o, none)
  | .nvtInfo =>
      if o.scannerInitState = .done then (o.setScannerInitState .gotFeedVersion, none)
      else (o.addEffect (.sendToServer (lit "CLIENT <|> COMPLETE_LIST <|> CLIENT\n")), none)
  | .preferences =>
      if o.scannerInitState = .doneCacheMode ∨ o.scannerInitState = .doneCacheModeUpdate then
        let mode := if o.scannerInitState = .doneCacheMode then -2 else -1
        ({ ((o.addEffect (.completeNvtCacheUpdate o.scannerPluginsList mode)).setScannerInitState
            .done).addEffect .nvtPreferencesEnable with scannerActive := false },
          some (.returned 1))
      else (o, none)

/-- `parse_scanner_plugin_list_tags` on its line: the plugin joins the list. -/
def onPluginListTags (o : Session) (line : List UInt8) : Session :=
  let value := (blankControlChars (terminated line)).map fun c => if c = ch ';' then ch '\n' else c
  let (tags, cvssBase) := parseTags value
  match o.currentPlugin with
  | none => o.setScannerState .pluginListOid
  | some plugin =>
      { o with
        scannerPluginsList :=
          { plugin with tag := unlessEmpty tags, cvssBase := cvssBase.bind unlessEmpty } ::
            o.scannerPluginsList
        currentPlugin := none }.setScannerState .pluginListOid

/-- `parse_scanner_preference_value` on its line. Outside the cache modes the
preference is only read. -/
def onPreferenceValue (o : Session) (line : List UInt8) : Session :=
  let value := blankControlChars (terminated line)
  let o := match o.currentScannerPreference, o.scannerInitState with
    | some name, .doneCacheMode => o.addEffect (.nvtPreferenceAdd name value false)
    | some name, .doneCacheModeUpdate => o.addEffect (.nvtPreferenceAdd name value true)
    | _, _ => o
  { o with currentScannerPreference := none }.setScannerState .preferenceName

/-- The state that a reading belongs to. -/
def Next.Fits : Next → Prop
  | .read o .field => o.scannerState ∉
      [.done, .pluginListTags, .preferenceValue, .server, ScannerState.top]
  | .read o (.closing _) => o.scannerState = .done
  | .read o .tags => o.scannerState = .pluginListTags
  | .read o .value => o.scannerState = .preferenceValue
  | .read o .command => o.scannerState = .server
  | .fail _ | .fault _ _ => True

theorem finish_fits (o : Session) (completion : Completion) : (finish o completion).Fits := rfl

theorem asserting_fits {o : Session} {assertion : Assertion} {holds : Bool} {next : Next}
    (h : next.Fits) : (asserting o assertion holds next).Fits := by
  rw [asserting]
  split
  · exact h
  · trivial

theorem proceed_fits (o : Session) {state : ScannerState}
    (h : state ∉ [.done, .pluginListTags, .preferenceValue, .server, ScannerState.top]) :
    (proceed o state).Fits := h

theorem onMessageOid_fits (append : Message → Session → Except Fault Session) (o : Session)
    (field : CString) : (onMessageOid append o field).Fits := by
  rw [onMessageOid]
  repeat' split
  all_goals trivial

theorem onServer_fits (o : Session) (field : CString) : (onServer o field).Fits := by
  rw [onServer]
  repeat' split
  all_goals first
    | exact proceed_fits o (by decide)
    | exact asserting_fits (proceed_fits o (by decide))
    | exact finish_fits o .nothing
    | trivial

/-- Every case of the switch sets the state of what it reads next. -/
theorem onField_fits (env : Env) (o : Session) (field : CString) : (onField env o field).Fits := by
  rw [onField.eq_def]
  split
  all_goals first
    | exact onServer_fits o field
    | exact onMessageOid_fits _ o field
    | exact asserting_fits (proceed_fits _ (by decide))
    | exact proceed_fits _ (by decide)
    | (simp only [onMessageNumber, onPluginListOid, onPreferenceName, onStatusAttackState, onTime,
        onStatusProgress, onTimeHost, onTimeScanStart, onTimeScanEnd]
       repeat' split
       all_goals first
         | exact finish_fits _ _
         | exact proceed_fits _ (by decide)
         | exact asserting_fits (proceed_fits _ (by decide))
         | trivial)
    | (repeat' split
       all_goals first | exact finish_fits _ _ | trivial)

end Otp
