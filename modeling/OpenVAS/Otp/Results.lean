import OpenVAS.Otp.Turns

/-! The results of one call: each message of a batch becomes one result, made of
that message's own fields. -/
namespace Otp

open CString

/-- The digits that `%i` accepts in a base. -/
def isBaseDigit (base : Nat) (c : UInt8) : Bool :=
  if base = 16 then isxdigit c else isdigit c && c < ch '0' + UInt8.ofNat base

/-- The base of a number and what follows its prefix; the `0` in front of octal
digits is one of them. -/
def scanBase : CString → Nat × CString
  | zero :: x :: rest =>
      if zero = ch '0' then
        if tolower x = ch 'x' then (16, rest) else (8, zero :: x :: rest)
      else (10, zero :: x :: rest)
  | s => (10, s)

/-- A `%i` conversion of `sscanf`: the number it stores and the rest of the text. -/
def scanI (s : CString) : Option (Int32 × CString) :=
  let (negative, body) := splitSign (s.dropWhile isspace)
  let (base, digits) := scanBase body
  let magnitude : Int := (digits.takeWhile (isBaseDigit base)).foldl
    (fun value c => value * base + xdigitValue c) 0
  let value := if negative then max (-magnitude) (-2 ^ 63) else min magnitude (2 ^ 63 - 1)
  if digits.takeWhile (isBaseDigit base) = [] ∧ base ≠ 16 then none
  else some (Int32.ofInt value, digits.dropWhile (isBaseDigit base))

/-- `sscanf` with `%i/%s`; `none` when it does not store both. -/
def scanPort (field : CString) : Option (Int32 × CString) := do
  let (number, rest) ← scanI field
  match rest with
  | slash :: rest =>
      let protocol := (rest.dropWhile isspace).takeWhile fun c => !isspace c
      if slash = ch '/' ∧ protocol ≠ [] then some (number, protocol) else none
  | [] => none

/-- The name that the database has for a port. -/
def managePortName (names : Int32 → CString → Option CString) (number : Int32) (protocol : CString) :
    Option CString :=
  if number ≤ 0 ∨ 65535 < number then none else names number protocol

def portNameFormatted (names : Int32 → CString → Option CString) (field : CString) : CString :=
  match scanPort field with
  | none => field
  | some (number, protocol) =>
      match managePortName names number protocol with
      | none => field
      | some name => showInt number.toInt ++ lit "/" ++ protocol ++ lit " (IANA: " ++ name ++ lit ")"

/-- A database that names ports, and in which no scan has started. -/
def portEnv (names : Int32 → CString → Option CString) : Env :=
  ⟨fun field => some (portNameFormatted names field), fun _ _ => 0⟩

/-- The fields of a message that becomes a result. -/
structure ResultMessage where
  kind : ResultKind
  host : CString
  port : CString
  description : CString
  oid : CString
  deriving DecidableEq, Repr

namespace ResultMessage

def toMessage (r : ResultMessage) : ServerMessage :=
  .result r.kind r.host r.port r.description r.oid

/-- No field holds a separator or a line break. -/
def Plain (r : ResultMessage) : Prop :=
  ∀ field ∈ [r.host, r.port, r.description, r.oid], WellFormedField field ∧ ch '\n' ∉ field

end ResultMessage

/-- A field without the blanks at its ends. -/
def stripped (field : CString) : CString := (field.dropWhile isSpace).rdropWhile isSpace

/-- A text with spaces for its control characters. -/
def blanked (text : CString) : CString := text.map fun c => if iscntrl c then ch ' ' else c

/-- What a field is to become: a C string, which ends at a NUL byte. -/
def cleaned (field : CString) : CString := blanked (terminated (stripped field))

/-- The result that a message is to become. -/
def ResultMessage.effect (env : Env) (task report : Nat) (r : ResultMessage) : Effect :=
  r.kind.effect env task report (cleaned r.host) (cleaned r.port) (cleaned r.description)
    (cleaned r.oid)

theorem isBlank_eq_isSpace {c : UInt8} (h : c ≠ ch '\n') : isBlank c = isSpace c := by
  simp [isBlank, isSpace, h]

theorem dropWhile_eq_of_mem {α : Type*} {p q : α → Bool} {l : List α} (h : ∀ c ∈ l, p c = q c) :
    l.dropWhile p = l.dropWhile q := by
  induction l with
  | nil => rfl
  | cons c l ih =>
      rw [List.dropWhile_cons, List.dropWhile_cons, h c List.mem_cons_self,
        ih fun d hMem => h d (List.mem_cons_of_mem _ hMem)]

theorem rdropWhile_eq_of_mem {α : Type*} {p q : α → Bool} {l : List α} (h : ∀ c ∈ l, p c = q c) :
    l.rdropWhile p = l.rdropWhile q := by
  rw [List.rdropWhile, List.rdropWhile,
    dropWhile_eq_of_mem fun c hMem => h c (List.mem_reverse.mp hMem)]

/-- Stripping takes the blanks around a field away, and nothing of the field. -/
theorem openvasStripSpace_padded (field : CString) :
    openvasStripSpace (padded field) = (field.dropWhile isBlank).rdropWhile isBlank := by
  have hFront : (padded field).dropWhile isBlank = (field ++ lit " ").dropWhile isBlank := rfl
  cases hText : field.dropWhile isBlank with
  | nil =>
      have hAll := List.dropWhile_eq_nil_iff.mp hText
      have hNil : (padded field).dropWhile isBlank = [] := by
        rw [hFront, List.dropWhile_append_of_pos hAll]
        rfl
      simp only [openvasStripSpace, hNil]
      split <;> rfl
  | cons c rest =>
      have hDrop : (padded field).dropWhile isBlank = c :: rest ++ lit " " := by
        rw [hFront, dropWhile_append_of_ne_nil (by rw [hText]; simp), hText]
      have hLong : ¬ ((c :: rest ++ lit " ").length < (padded field).length ∧
          (c :: rest ++ lit " ").length ≤ 1) := by
        rintro ⟨-, hShort⟩
        simp [lit] at hShort
      simp only [openvasStripSpace, hDrop, if_neg hLong]
      exact List.rdropWhile_concat_pos _ _ _ (by decide)

theorem mem_of_mem_terminated {c : UInt8} {bytes : List UInt8} (h : c ∈ terminated bytes) :
    c ∈ bytes :=
  (List.takeWhile_prefix _).subset h

/-- The text that the parser sees of a field without line breaks. -/
theorem fieldText_padded {field : CString} (h : ch '\n' ∉ field) :
    fieldText (padded field) = cleaned field := by
  have hSpace : ∀ c ∈ field, isBlank c = isSpace c := by
    intro c hMem
    apply isBlank_eq_isSpace
    rintro rfl
    exact h hMem
  have hFront : field.dropWhile isBlank = field.dropWhile isSpace := dropWhile_eq_of_mem hSpace
  have hBack : (field.dropWhile isSpace).rdropWhile isBlank =
      (field.dropWhile isSpace).rdropWhile isSpace :=
    rdropWhile_eq_of_mem fun c hMem => hSpace c ((List.dropWhile_suffix _).subset hMem)
  rw [fieldText, openvasStripSpace_padded, hFront, hBack, cleaned, blanked, stripped, blankControlChars]
  apply List.map_congr_left
  intro c hMem
  have hLine : c ≠ ch '\n' := by
    rintro rfl
    exact h ((List.dropWhile_suffix _).subset
      ((List.rdropWhile_prefix _ _).subset (mem_of_mem_terminated hMem)))
  simp [hLine]

variable {env : Env} {o : Session}

theorem onMessage_plain {r : ResultMessage} (hPlain : r.Plain) (hTop : o.scannerState = .top)
    (hMessage : o.currentMessage = none) (hTask : o.currentScannerTask ≠ 0)
    (hReport : o.currentReport ≠ 0) :
    onMessage env o r.toMessage =
      (o.addEffect (r.effect env o.currentScannerTask o.currentReport), none) := by
  simp only [ResultMessage.Plain, List.forall_mem_cons] at hPlain
  obtain ⟨hHost, hPort, hDescription, hOid, -⟩ := hPlain
  rw [ResultMessage.toMessage, onMessage_result _ _ _ _ _ hTop hMessage hTask hReport,
    fieldText_padded hHost.2, fieldText_padded hPort.2, fieldText_padded hDescription.2,
    fieldText_padded hOid.2]
  rfl

/-- The results of a batch, one behind the other. -/
theorem foldl_results {rs : List ResultMessage} (hPlain : ∀ r ∈ rs, r.Plain)
    (hTop : o.scannerState = .top) (hMessage : o.currentMessage = none)
    (hTask : o.currentScannerTask ≠ 0) (hReport : o.currentReport ≠ 0) :
    (streamPieces o.scannerInitState (rs.map ResultMessage.toMessage)).foldl (onPiece env) (o, none) =
      ({ o with effects := o.effects ++
          rs.map (ResultMessage.effect env o.currentScannerTask o.currentReport) }, none) := by
  induction rs generalizing o with
  | nil => simp [streamPieces]
  | cons r rs ih =>
      have hHere : onMessage env o r.toMessage = _ :=
        onMessage_plain (hPlain r List.mem_cons_self) hTop hMessage hTask hReport
      have hLater := ih (o := o.addEffect (r.effect env o.currentScannerTask o.currentReport))
        (fun s hMem => hPlain s (List.mem_cons_of_mem _ hMem)) hTop hMessage hTask hReport
      rw [List.map_cons, streamPieces, List.foldl_append, ← onMessage, hHere, List.foldl_cons, onPiece]
      refine hLater.trans ?_
      simp [Session.addEffect]

theorem wellFormed_toMessage {r : ResultMessage} (h : r.Plain) : r.toMessage.WellFormed := by
  simp only [ResultMessage.Plain, List.forall_mem_cons] at h
  obtain ⟨hHost, hPort, hDescription, hOid, -⟩ := h
  exact ⟨hHost.1, hPort.1, hDescription.1, hOid.1⟩

theorem manageCheckCurrentTask_ok (hSlave : o.taskRunStatus ≠ .stopRequestedGiveup) :
    (manageCheckCurrentTask o).2 = none := by
  rw [manageCheckCurrentTask]
  split
  · rfl
  · cases hStatus : o.taskRunStatus with
    | stopRequestedGiveup => exact absurd hStatus hSlave
    | _ => rfl

/-- The messages of one call become results, one each and in their order, made
of their own fields. A request for the task is passed on first. -/
theorem processOtpScannerInput_results {rs : List ResultMessage} (hPlain : ∀ r ∈ rs, r.Plain)
    (hTop : o.scannerState = .top) (hInit : o.scannerInitState = .done)
    (hMessage : o.currentMessage = none) (hTask : o.currentScannerTask ≠ 0)
    (hReport : o.currentReport ≠ 0) (hSlave : o.taskRunStatus ≠ .stopRequestedGiveup)
    (old : List UInt8) :
    let result := processOtpScannerInput env old o
      ⟨0, streamText (rs.map ResultMessage.toMessage)⟩
    result.ending = none ∧ result.session.effects =
      (manageCheckCurrentTask o).1.effects ++
        rs.map (ResultMessage.effect env o.currentScannerTask o.currentReport) := by
  have hFault := manageCheckCurrentTask_ok hSlave
  cases hCheck : manageCheckCurrentTask o with
  | mk start fault =>
      rw [hCheck] at hFault
      obtain rfl : fault = none := hFault
      obtain ⟨hHeld, -⟩ := manageCheckCurrentTask_held hCheck
      obtain ⟨hState, hInit'⟩ := manageCheckCurrentTask_keeps hCheck
      have hTop' : start.scannerState = .top := hState.trans hTop
      have hSound : Sound start :=
        ⟨settled_of_manageCheckCurrentTask hCheck, fun h => by cases hTop'.symm.trans h⟩
      have hWell : ∀ m ∈ rs.map ResultMessage.toMessage, m.WellFormed := by
        intro m hMem
        obtain ⟨r, hHere, rfl⟩ := List.mem_map.mp hMem
        exact wellFormed_toMessage (hPlain r hHere)
      have hReceiving : start.scannerInitState.receiving = true := by
        rw [hInit', hInit]
        rfl
      have hSameTask : start.currentScannerTask = o.currentScannerTask := congrArg Held.task hHeld
      have hSameReport : start.currentReport = o.currentReport := congrArg Held.report hHeld
      obtain ⟨hStatus, -⟩ := processOtpScannerInput_stream env old (b := ⟨0, []⟩) hSound hReceiving hTop' (fun c hMem => by cases hMem) hWell
        fun _ => Or.inr (by decide)
      have hMessage' : start.currentMessage = none := (congrArg Held.message hHeld).trans hMessage
      rw [foldl_results hPlain hTop' hMessage' (hSameTask ▸ hTask) (hSameReport ▸ hReport),
        hSameTask, hSameReport] at hStatus
      simp only [processOtpScannerInput_checked _ hCheck]
      exact ⟨congrArg Prod.snd hStatus, congrArg (fun s : Status => s.1.effects) hStatus⟩

instance (r : ResultMessage) : Decidable r.Plain :=
  inferInstanceAs (Decidable (∀ field ∈ _, findSeparator [] field = none ∧ ch '\n' ∉ field))

/-- Only port 80 of `tcp` has a name. -/
def httpNames (number : Int32) (protocol : CString) : Option CString :=
  if number = 80 ∧ protocol = lit "tcp" then some (lit "http") else none

/-- A session between two messages, while task 1 writes its report 2. -/
def scanning : Session := { initialised with currentScannerTask := 1, currentReport := 2 }

/-- A log message with an empty field and a lone `<`, and a host detail behind it. -/
theorem processOtpScannerInput_results_logs :
    let rs : List ResultMessage := [⟨.log, lit "h", lit "443/tcp", lit "a < b", lit ""⟩,
      ⟨.log, lit "h", lit "general/Host_Details", lit "<host/>\\n", lit "1.2"⟩]
    let result := processOtpScannerInput (portEnv httpNames) [] scanning
      ⟨0, streamText (rs.map ResultMessage.toMessage)⟩
    result.ending = none ∧ result.session.effects =
      (manageCheckCurrentTask scanning).1.effects ++
        rs.map (ResultMessage.effect (portEnv httpNames) 1 2) :=
  processOtpScannerInput_results (o := scanning) (by decide) rfl rfl rfl (by decide) (by decide)
    (by decide) []

/-- Where a result is not made of the fields of its message alone: a port that
has a name, a NUL byte, and a host detail that ends in an escaped newline. -/
theorem processOtpScannerInput_other_fields :
    let named : ResultMessage := ⟨.alarm, lit "h", lit "80/tcp", lit "d", lit "1"⟩
    let cut : ResultMessage := ⟨.errmsg, lit "h", lit "9/udp", [ch 'a', 0, ch 'b'], lit "2"⟩
    let detail : ResultMessage :=
      ⟨.log, lit "h", lit "general/Host_Details", lit "<host/>\\n", lit "3"⟩
    let rs := [named, cut, detail]
    let result := processOtpScannerInput (portEnv httpNames) [] scanning
      ⟨0, streamText (rs.map ResultMessage.toMessage)⟩
    (∀ r ∈ rs, r.Plain) ∧
      result.session.effects =
        [.makeResult 1 2 (lit "h") (some (lit "80/tcp (IANA: http)")) (some (lit "1")) (lit "Alarm")
            (lit "d"),
          .makeResult 1 2 (lit "h") (some (lit "9/udp")) (some (lit "2")) (lit "Error Message")
            (lit "a"),
          .reportHostDetail 2 (lit "h") (lit "<host/>")] ∧
      lit "80/tcp (IANA: http)" ≠ blanked (stripped named.port) ∧
      lit "a" ≠ blanked (stripped cut.description) ∧
      lit "<host/>" ≠ blanked (stripped detail.description) := by
  refine ⟨by decide, by decide +kernel, by decide, by decide, by decide⟩

end Otp
