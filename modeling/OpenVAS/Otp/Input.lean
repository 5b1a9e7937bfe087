import OpenVAS.Otp.Fields

/-! `process_otp_scanner_input`: the bytes that have arrived from the scanner are
cut into fields, newline-terminated values and closing words, and what is left
is moved to the front of the buffer. The byte behind the last one that arrived
is old content of the buffer, and the search for a separator may read it. -/
namespace Otp

open CString

def fromBufferSize : Nat := 1048576

/-- The buffer `from_scanner` between `from_scanner_start` and `from_scanner_end`. -/
structure Buffer where
  start : Nat
  pending : List UInt8
  deriving DecidableEq, Repr

/-- A call's variables afterwards, and how it ended if it did not return 0. -/
structure Result where
  session : Session
  ending : Option Ending
  buffer : Buffer
  deriving DecidableEq, Repr

namespace Buffer

def drop (b : Buffer) (n : Nat) : Buffer := ⟨b.start + n, b.pending.drop n⟩

def skip (b : Buffer) (blank : UInt8 → Bool) : Buffer :=
  b.drop (b.pending.takeWhile blank).length

end Buffer

def isSpace (c : UInt8) : Bool := c = ch ' '

/-- `none` is the answer that the buffer is full. -/
def syncBuffer (b : Buffer) : Option Buffer :=
  if b.start = 0 ∧ b.pending.length = fromBufferSize then none else some ⟨0, b.pending⟩

/-- Waiting for more input. -/
def needMore (o : Session) (b : Buffer) : Result :=
  match syncBuffer b with
  | none => ⟨o, some (.returned (-1)), b⟩
  | some b => ⟨o, none, b⟩

def failed (o : Session) (b : Buffer) : Result := ⟨o, some (.returned (-1)), b⟩

/-- Index of the first `<|>`. The search asks for a byte behind the `<` but not
for one behind the `|`, which may be the first of the old bytes. -/
def findSeparator (old : List UInt8) : List UInt8 → Option Nat
  | [] => none
  | c :: rest =>
      if c = ch '<' ∧ rest.head? = some (ch '|') ∧ (rest ++ old)[1]? = some (ch '>') then some 0
      else (findSeparator old rest).map (· + 1)

inductive Parsed where
  | success | failure | needMore
  deriving DecidableEq, Repr

def parseScannerDone (b : Buffer) : Parsed × Buffer :=
  let b := b.skip isBlank
  if b.pending.length < 6 then (.needMore, b)
  else if strcaseeq (lit "SERVER") (b.pending.take 6) then (.success, b.drop 6)
  else (.failure, b)

/-- The rest of a line, which ends with a newline; `none` while that is missing. -/
def parseLine (b : Buffer) : Option (List UInt8) × Buffer :=
  let b := b.skip isSpace
  match strchr b.pending (ch '\n') with
  | none => (none, b)
  | some n => (some (b.pending.take n), b.drop (n + 1))

/-- Whether the scanner has refused the login, with the buffer behind its answer. -/
def parseScannerBadLogin (old : List UInt8) (b : Buffer) : Bool × Buffer :=
  let b := b.skip isSpace
  match strchr b.pending (ch '\n') with
  | none => (false, b)
  | some n =>
      if strcaseeq (lit "Bad login attempt !") ((b.pending ++ old).take 19) then
        (true, b.drop (n + 1))
      else (false, b)

/-- The answers -1 and -2 of `parse_scanner_server`; with the others, a field
that ends in `<|>` may follow. -/
def parseScannerServer (old : List UInt8) (b : Buffer) : Parsed × Buffer :=
  let b := b.skip isSpace
  match strchr b.pending (ch '\n') with
  | none => (.success, b)
  | some newline =>
      match findSeparator old b.pending with
      | none => (.needMore, b)
      | some separator => (if newline < separator then .failure else .success, b)

/-- What has been read behind a field. -/
inductive Step where
  | wait (o : Session) (b : Buffer)
  | stop (o : Session) (ending : Ending) (b : Buffer)
  | go (o : Session) (b : Buffer)
  deriving DecidableEq, Repr

def readNext (old : List UInt8) (o : Session) (reading : Reading) (b : Buffer) : Step :=
  match reading with
  | .field => .go o b
  | .closing completion =>
      match parseScannerDone b with
      | (.failure, b) => .stop o (.returned (-1)) b
      | (.needMore, b) => .wait o b
      | (.success, b) =>
          match onDone completion (o.setScannerState .top) with
          | (o, some ending) => .stop o ending b
          | (o, none) => .go o b
  | .tags =>
      if o.currentPlugin.isNone then .stop o (.faulted (.assertion .currentPlugin)) b
      else match parseLine b with
        | (none, b) => .wait o b
        | (some line, b) => .go (onPluginListTags o line) b
  | .value =>
      match parseLine b with
      | (none, b) => .wait o b
      | (some line, b) => .go (onPreferenceValue o line) b
  | .command =>
      match parseScannerServer old b with
      | (.failure, b) => .stop o (.returned (-1)) b
      | (.needMore, b) => .wait o b
      | (.success, b) => .go o b

/-- The rest of the call after something has been read behind a field. -/
def Step.resume (step : Step) (next : Session → Buffer → Result) : Result :=
  match step with
  | .wait o b => needMore o b
  | .stop o ending b => ⟨o, some ending, b⟩
  | .go o b => next o b

/-- The loop over the fields. The search for the next separator starts at the
end of the last one, so it runs again over `behind`, the bytes that have been
read since then. The case that the counter ends is not reached. -/
def processFields (env : Env) (old : List UInt8) :
    Nat → Session → List UInt8 → Buffer → Result
  | 0, o, _, b => needMore o b
  | fuel + 1, o, behind, b =>
      match findSeparator old (behind ++ b.pending) with
      | none => needMore o b
      | some i =>
          if i < behind.length then ⟨o, some (.faulted .fieldEnd), b⟩
          else
            let length := i - behind.length
            let rest := b.drop (length + 3)
            match onField env o (fieldText (b.pending.take length)) with
            | .fail o => failed o rest
            | .fault o fault => ⟨o, some (.faulted fault), rest⟩
            | .read o reading =>
                if b.pending.length < length + 3 then ⟨o, some (.faulted .overrun), rest⟩
                else (readNext old o reading rest).resume fun o b =>
                  processFields env old fuel o
                    (rest.pending.take (rest.pending.length - b.pending.length)) b

/-- What a call reads before any field, by the state in which the last one ended. -/
def firstReading : ScannerState → Reading
  | .done => .closing .nothing
  | .pluginListTags => .tags
  | .preferenceValue => .value
  | .server => .command
  | _ => .field

/-- The states in which `process_otp_scanner_input` takes messages. -/
def InitState.receiving : InitState → Bool
  | .sentCompleteList | .sentCompleteListUpdate | .done | .doneCacheMode | .doneCacheModeUpdate
  | .top => true
  | _ => false

/-- Passes a request that another process has left in the database on to the
scanner. -/
def manageCheckCurrentTask (o : Session) : Session × Option Fault :=
  let send (command : CString) (status : TaskStatus) : Session × Option Fault :=
    ((o.addEffect (.sendToServer command)).setTaskRunStatus status, none)
  if o.currentScannerTask = 0 then (o, none)
  else match o.taskRunStatus with
    | .pauseRequested => send (lit "CLIENT <|> PAUSE_WHOLE_TEST <|> CLIENT\n") .pauseWaiting
    | .resumeRequested => send (lit "CLIENT <|> RESUME_WHOLE_TEST <|> CLIENT\n") .resumeWaiting
    | .stopRequestedGiveup => (o, some (.assertion .unreachable))
    | .stopRequested => send (lit "CLIENT <|> STOP_WHOLE_TEST <|> CLIENT\n") .stopWaiting
    | .deleteRequested => send (lit "CLIENT <|> STOP_WHOLE_TEST <|> CLIENT\n") .deleteWaiting
    | .deleteUltimateRequested =>
        send (lit "CLIENT <|> STOP_WHOLE_TEST <|> CLIENT\n") .deleteUltimateWaiting
    | _ => (o, none)

/-- The messages of a call, once the scanner is known to send some. -/
def processMessages (env : Env) (old : List UInt8) (o : Session) (b : Buffer) : Result :=
  (readNext old o (firstReading o.scannerState) b).resume fun o b =>
    processFields env old (b.pending.length + 1) o [] b

/-- The answer to a `SCANNER_LOADING` line: the two numbers in it, and the
buffer up to the end of the line. -/
def parseScannerLoading (old : List UInt8) (o : Session) (b : Buffer) : Result :=
  let messages := terminated (b.pending ++ old)
  let loading : Option Ending := some (.returned 3)
  match strstr messages (lit " <|> ") with
  | none => ⟨o, loading, b⟩
  | some i =>
      let o := { o with scannerCurrentLoading := atoi (messages.drop (i + 5)) }
      if o.scannerCurrentLoading = 0 then ⟨o, loading, b⟩
      else match strstr (messages.drop (i + 5)) (lit " <|> ") with
        | none => ⟨o, loading, b⟩
        | some j =>
            let o := { o with scannerTotalLoading := atoi (messages.drop (i + 5 + j + 5)) }
            match strchr (messages.drop (i + 5 + j + 5)) (ch '\n') with
            | none => ⟨o, loading, b⟩
            | some k =>
                if b.pending.length < i + 5 + j + 5 + k then ⟨o, some (.faulted .overrun), b⟩
                else ⟨o, loading, b.drop (i + 5 + j + 5 + k)⟩

/-- The answer to the version string, before any message. -/
def parseVersion (old : List UInt8) (o : Session) (b : Buffer) : Result :=
  let version := lit "< OTP/2.0 >\n"
  let b := b.skip isBlank
  if strcaseeq (lit "SCANNER_LOADING ") ((b.pending ++ old).take 16) then parseScannerLoading old o b
  else if b.pending.length < version.length then needMore o b
  else if strcaseeq version (b.pending.take version.length) then
    ⟨o.setScannerInitState .done, none, b.drop version.length⟩
  else failed o b

/-- One call, with the bytes of the buffer behind those that have arrived. -/
def processOtpScannerInput (env : Env) (old : List UInt8) (o : Session) (b : Buffer) : Result :=
  match manageCheckCurrentTask o with
  | (o, some fault) => ⟨o, some (.faulted fault), b⟩
  | (o, none) =>
      match o.scannerInitState with
      | .sentVersion => parseVersion old o b
      | .gotFeedVersion | .gotPlugins => ⟨o, some (.faulted (.assertion .unreachable)), b⟩
      | .connectIntr | .connected => failed o b
      | .sentCompleteList | .sentCompleteListUpdate | .done | .doneCacheMode
      | .doneCacheModeUpdate | .top =>
          if o.scannerState = .top then
            match parseScannerBadLogin old b with
            | (true, b) => ⟨o.setScannerInitState .top, some (.returned 2), b⟩
            | (false, b) => processMessages env old o b
          else processMessages env old o b

/-- Bytes that arrive before a call, and the old content of the buffer behind them. -/
structure Delivery where
  chunk : List UInt8
  old : List UInt8
  deriving DecidableEq, Repr

def Buffer.append (b : Buffer) (chunk : List UInt8) : Buffer := { b with pending := b.pending ++ chunk }

/-- A call for each chunk. `serve_omp` closes the connection when a call does
not return 0. -/
def deliver (env : Env) (o : Session) (b : Buffer) : List Delivery → Session × Option Ending
  | [] => (o, none)
  | d :: ds =>
      let result := processOtpScannerInput env d.old o (b.append d.chunk)
      match result.ending with
      | some ending => (result.session, some ending)
      | none => deliver env result.session result.buffer ds

end Otp
