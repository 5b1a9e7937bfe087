import OpenVAS.Otp.Pieces

/-! Every piece of a well-formed message finds the parser in the state that it
belongs to, whatever the fields hold and whichever task is current. -/
namespace Otp

open CString

/-- The next field is read in the given state, unless the parser stops. -/
def Leads (next : Next) (state : ScannerState) (init : InitState) : Prop :=
  ∀ o reading, next = .read o reading →
    reading = .field ∧ o.scannerState = state ∧ o.scannerInitState = init

/-- The message is complete but for the closing word, unless the parser stops. -/
def Ends (next : Next) (init : InitState) : Prop :=
  ∀ o reading, next = .read o reading →
    (∃ completion, reading = .closing completion ∧ completion.attached init = false) ∧
      o.scannerState = .done ∧ o.scannerInitState = init

theorem proceed_leads (o : Session) (state : ScannerState) :
    Leads (proceed o state) state o.scannerInitState := by
  intro o' reading h
  obtain ⟨rfl, rfl⟩ := Next.read.inj h
  exact ⟨rfl, rfl, rfl⟩

theorem finish_ends_of_not_attached {o : Session} {completion : Completion}
    (hPlain : completion.attached o.scannerInitState = false) :
    Ends (finish o completion) o.scannerInitState := by
  intro o' reading h
  obtain ⟨rfl, rfl⟩ := Next.read.inj h
  exact ⟨⟨completion, rfl, hPlain⟩, rfl, rfl⟩

theorem finish_ends (o : Session) : Ends (finish o .nothing) o.scannerInitState :=
  finish_ends_of_not_attached rfl

theorem fault_leads (o : Session) (fault : Fault) (state : ScannerState) (init : InitState) :
    Leads (.fault o fault) state init := by
  intro o' reading h
  cases h

theorem fault_ends (o : Session) (fault : Fault) (init : InitState) : Ends (.fault o fault) init := by
  intro o' reading h
  cases h

theorem asserting_leads {o : Session} {assertion : Assertion} {holds : Bool} {next : Next}
    {state : ScannerState} {init : InitState} (h : Leads next state init) :
    Leads (asserting o assertion holds next) state init := by
  rw [asserting]
  split
  · exact h
  · exact fault_leads _ _ _ _

variable {env : Env} {o : Session} (field : CString)

theorem onMessageHost_leads (next : ScannerState) :
    Leads (onMessageHost next o field) next o.scannerInitState :=
  asserting_leads (proceed_leads _ next)

theorem onMessageNumber_leads (next : ScannerState) :
    Leads (onMessageNumber env next o field) next o.scannerInitState := by
  rw [onMessageNumber]
  split
  · exact fault_leads _ _ _ _
  · exact proceed_leads _ next

theorem onMessageDescription_leads (next : ScannerState) :
    Leads (onMessageDescription next o field) next o.scannerInitState :=
  proceed_leads _ next

theorem writeMessage_init {type : CString} {message : Message} {o' : Session}
    (h : writeMessage type message o = .ok o') : o'.scannerInitState = o.scannerInitState := by
  rw [writeMessage] at h
  split at h
  · cases h
  · split at h
    · cases h
    · obtain rfl := Except.ok.inj h
      rfl

theorem appendLogMessage_init {message : Message} {o' : Session}
    (h : appendLogMessage message o = .ok o') : o'.scannerInitState = o.scannerInitState := by
  rw [appendLogMessage] at h
  split at h
  · cases h
  · split at h
    · split at h
      · cases h
      · obtain rfl := Except.ok.inj h
        rfl
    · exact writeMessage_init h

theorem onMessageOid_ends {append : Message → Session → Except Fault Session}
    (hAppend : ∀ message o', append message o = .ok o' →
      o'.scannerInitState = o.scannerInitState) :
    Ends (onMessageOid append o field) o.scannerInitState := by
  rw [onMessageOid]
  split
  · exact finish_ends o
  · split
    · exact finish_ends o
    · split
      · exact fault_ends _ _ _
      · rename_i o' hOk
        rw [← hAppend _ _ hOk]
        exact finish_ends _

theorem onHost_leads (next : ScannerState) : Leads (onHost next o field) next o.scannerInitState :=
  asserting_leads (proceed_leads _ next)

theorem onStatusAttackState_leads : ∃ state, (state = .statusPorts ∨ state = .statusProgress) ∧
    Leads (onStatusAttackState o field) state o.scannerInitState := by
  rw [onStatusAttackState]
  split
  · exact ⟨_, Or.inl rfl, proceed_leads _ _⟩
  · split
    · exact ⟨_, Or.inl rfl, proceed_leads _ _⟩
    · refine ⟨_, Or.inr rfl, ?_⟩
      simp only
      repeat' split
      all_goals exact proceed_leads _ _

theorem onStatusProgress_ends : Ends (onStatusProgress o field) o.scannerInitState := by
  rw [onStatusProgress]
  split
  · exact fault_ends _ _ _
  · simp only
    split <;> exact finish_ends _

theorem onTimeHost_ends (effect : Nat → CString → CString → Effect) :
    Ends (onTimeHost effect o field) o.scannerInitState := by
  rw [onTimeHost]
  split
  · exact finish_ends _
  · split
    · exact fault_ends _ _ _
    · exact finish_ends _

theorem onTimeScanStart_ends : Ends (onTimeScanStart env o field) o.scannerInitState := by
  rw [onTimeScanStart]
  split
  · simp only
    split <;> exact finish_ends _
  · exact finish_ends _

theorem endTask_init : (endTask o field).scannerInitState = o.scannerInitState := by
  rw [endTask]
  split <;> rfl

theorem onTimeScanEnd_ends : Ends (onTimeScanEnd o field) o.scannerInitState := by
  rw [onTimeScanEnd]
  split
  · exact finish_ends _
  · intro o' reading h
    obtain ⟨rfl, rfl⟩ := Next.read.inj h
    refine ⟨⟨.nothing, rfl, rfl⟩, rfl, ?_⟩
    show (endTask _ field).scannerInitState = _
    rw [endTask_init]
    split <;> rfl

theorem legal_ended (ps : List Piece) (o : Session) (ending : Ending) :
    Legal env (o, some ending) ps := by
  cases ps <;> trivial

theorem wellFormedField_append {front back : List UInt8} (hFront : ch '<' ∉ front)
    {text : CString} (h : WellFormedField text) {c : UInt8} (hBar : c ≠ ch '|') (hClose : c ≠ ch '>')
    (hOpen : c ≠ ch '<') (hBack : WellFormedField back) :
    WellFormedField (front ++ text ++ c :: back) := by
  rw [WellFormedField, List.append_assoc, findSeparator_skip hFront,
    findSeparator_skip_line h hBar hClose hOpen, show findSeparator [] back = none from hBack]
  rfl

theorem wellFormedField_spaced {front : List UInt8} (hFront : ch '<' ∉ front) {text : CString}
    (h : WellFormedField text) : WellFormedField (front ++ text ++ lit " ") :=
  wellFormedField_append hFront h (by decide) (by decide) (by decide) rfl

theorem wellFormedField_padded {text : CString} (h : WellFormedField text) :
    WellFormedField (padded text) :=
  wellFormedField_spaced (by decide) h

theorem fieldText_plain (hState : firstReading o.scannerState = .field) (hTop : o.scannerState ≠ .top)
    (raw : List UInt8) : o.fieldText raw = fieldText raw := by
  have hNone : blankIn o.scannerState = fun _ => false := by
    cases hCase : o.scannerState <;> simp [firstReading, hCase] at hState hTop ⊢ <;> rfl
  rw [Session.fieldText, hNone]
  cases raw <;> rfl

theorem fieldFits_plain {raw : List UInt8} (hState : firstReading o.scannerState = .field)
    (hTop : o.scannerState ≠ .top) (hRaw : WellFormedField raw) : FieldFits o raw where
  state := Or.inl hState
  wellFormed := hRaw
  top h := absurd h hTop
  server h := by
    rw [h] at hState
    cases hState

/-- A field behind which another one is read. -/
theorem legal_leads {raw : List UInt8} {ps : List Piece} {state : ScannerState} {init : InitState}
    (hFits : FieldFits o raw) (hLeads : Leads (onField env o (o.fieldText raw)) state init)
    (hNext : ∀ o', o'.scannerState = state → o'.scannerInitState = init →
      Legal env (o', none) ps) : Legal env (o, none) (.field raw :: ps) := by
  refine ⟨⟨hFits, ?_⟩, ?_⟩
  · intro o' completion hRead
    cases (hLeads o' _ hRead).1
  · show Legal env (settle (onField env o (o.fieldText raw))) ps
    cases hRead : onField env o (o.fieldText raw) with
    | fail o' => exact legal_ended ps _ _
    | fault o' fault => exact legal_ended ps _ _
    | read o' reading =>
        obtain ⟨rfl, hState, hInit⟩ := hLeads o' reading hRead
        exact hNext o' hState hInit

/-- The last field of a message, on whose closing word nothing hangs. -/
theorem legal_ends {raw : List UInt8} {ps : List Piece} {init : InitState}
    (hFits : FieldFits o raw) (hEnds : Ends (onField env o (o.fieldText raw)) init)
    (hNext : ∀ o', o'.scannerState = .top → o'.scannerInitState = init →
      Legal env (o', none) ps) : Legal env (o, none) (.field raw :: .closing :: ps) := by
  refine ⟨⟨hFits, ?_⟩, ?_⟩
  · intro o' completion hRead
    obtain ⟨⟨completion', hReading, hPlain⟩, -, hInit⟩ := hEnds o' _ hRead
    obtain rfl := Reading.closing.inj hReading
    rw [hInit]
    exact hPlain
  · show Legal env (settle (onField env o (o.fieldText raw))) (.closing :: ps)
    cases hRead : onField env o (o.fieldText raw) with
    | fail o' => exact legal_ended _ _ _
    | fault o' fault => exact legal_ended _ _ _
    | read o' reading =>
        obtain ⟨⟨completion, rfl, -⟩, hState, hInit⟩ := hEnds o' reading hRead
        exact ⟨hState, hNext (o'.setScannerState .top) rfl hInit⟩

theorem fieldFits_server {raw : List UInt8} (hState : o.scannerState = .server)
    (hRaw : WellFormedField raw) (hLine : ch '\n' ∉ raw) : FieldFits o raw where
  state := Or.inr (by rw [hState]; rfl)
  wellFormed := hRaw
  top h := by cases hState.symm.trans h
  server _ := hLine

/-- The first field of a message. -/
theorem legal_server {ps : List Piece} (hTop : o.scannerState = .top)
    (hNext : ∀ o' : Session, o'.scannerState = .server →
      o'.scannerInitState = o.scannerInitState → Legal env (o', none) ps) :
    Legal env (o, none) (.field (lit "SERVER ") :: ps) := by
  have hText : o.fieldText (lit "SERVER ") = lit "SERVER" := by
    rw [Session.fieldText, hTop]
    decide
  have hServer : onField env o (lit "SERVER") = .read (o.setScannerState .server) .command := by
    simp only [onField, hTop]
    rfl
  refine ⟨⟨⟨?_, rfl, fun _ => rfl, ?_⟩, ?_⟩, ?_⟩
  · rw [hTop]
    exact Or.inl rfl
  · intro h
    cases hTop.symm.trans h
  · intro o' completion hRead
    rw [hText, hServer] at hRead
    cases hRead
  · show Legal env (settle (onField env o (o.fieldText (lit "SERVER ")))) ps
    rw [hText, hServer]
    exact hNext (o.setScannerState .server) rfl rfl

/-- The first two fields of a message, which give its command. -/
theorem legal_command {command : CString} {ps : List Piece} {state : ScannerState}
    (hTop : o.scannerState = .top) (hRaw : WellFormedField (padded command))
    (hLine : ch '\n' ∉ padded command)
    (hLeads : ∀ o' : Session, Leads (onServer o' (fieldText ((padded command).dropWhile isSpace)))
      state o'.scannerInitState)
    (hNext : ∀ o' : Session, o'.scannerState = state →
      o'.scannerInitState = o.scannerInitState → Legal env (o', none) ps) :
    Legal env (o, none) (.field (lit "SERVER ") :: .field (padded command) :: ps) := by
  refine legal_server hTop fun o' hServer hInit => ?_
  have hField : onField env o' (o'.fieldText (padded command)) =
      onServer o' (fieldText ((padded command).dropWhile isSpace)) := by
    simp only [onField, hServer, Session.fieldText, blankIn]
  have hLeads' := hLeads o'
  rw [← hField] at hLeads'
  exact legal_leads (fieldFits_server hServer hRaw hLine) hLeads'
    fun o'' hState hInit' => hNext o'' hState (hInit'.trans hInit)

variable {ps : List Piece} {state : ScannerState}

/-- A field of a message behind which another one is read. -/
theorem legal_step {next : ScannerState} {raw : List UInt8} (hState : o.scannerState = state)
    (hPlain : firstReading state = .field ∧ state ≠ .top) (hRaw : WellFormedField raw)
    (hLeads : Leads (onField env o (fieldText raw)) next o.scannerInitState)
    (hNext : ∀ o' : Session, o'.scannerState = next →
      o'.scannerInitState = o.scannerInitState → Legal env (o', none) ps) :
    Legal env (o, none) (.field raw :: ps) := by
  rw [← hState] at hPlain
  refine legal_leads (fieldFits_plain hPlain.1 hPlain.2 hRaw) ?_ hNext
  rw [fieldText_plain hPlain.1 hPlain.2]
  exact hLeads

/-- The last field of a message, on whose closing word nothing hangs. -/
theorem legal_close {raw : List UInt8} (hState : o.scannerState = state)
    (hPlain : firstReading state = .field ∧ state ≠ .top) (hRaw : WellFormedField raw)
    (hEnds : Ends (onField env o (fieldText raw)) o.scannerInitState)
    (hNext : ∀ o' : Session, o'.scannerState = .top →
      o'.scannerInitState = o.scannerInitState → Legal env (o', none) ps) :
    Legal env (o, none) (.field raw :: .closing :: ps) := by
  rw [← hState] at hPlain
  refine legal_ends (fieldFits_plain hPlain.1 hPlain.2 hRaw) ?_ hNext
  rw [fieldText_plain hPlain.1 hPlain.2]
  exact hEnds

/-- The state in which a field of a result is read. -/
def ResultKind.states : ResultKind → ScannerState × ScannerState × ScannerState × ScannerState
  | .errmsg => (.errmsgHost, .errmsgNumber, .errmsgDescription, .errmsgOid)
  | .alarm => (.alarmHost, .alarmNumber, .alarmDescription, .alarmOid)
  | .log => (.logHost, .logNumber, .logDescription, .logOid)

def ResultKind.append : ResultKind → Message → Session → Except Fault Session
  | .errmsg => appendErrorMessage
  | .alarm => appendAlarmMessage
  | .log => appendLogMessage

theorem onServer_result (kind : ResultKind) (o : Session) :
    onServer o (fieldText ((padded kind.command).dropWhile isSpace)) = proceed o kind.states.1 := by
  cases kind <;> rfl

theorem onField_resultHost (kind : ResultKind) (hState : o.scannerState = kind.states.1) :
    onField env o field = onMessageHost kind.states.2.1 o field := by
  cases kind <;> simp only [onField, hState, ResultKind.states]

theorem onField_resultNumber (kind : ResultKind) (hState : o.scannerState = kind.states.2.1) :
    onField env o field = onMessageNumber env kind.states.2.2.1 o field := by
  cases kind <;> simp only [onField, hState, ResultKind.states]

theorem onField_resultDescription (kind : ResultKind)
    (hState : o.scannerState = kind.states.2.2.1) :
    onField env o field = onMessageDescription kind.states.2.2.2 o field := by
  cases kind <;> simp only [onField, hState, ResultKind.states]

theorem onField_resultOid (kind : ResultKind) (hState : o.scannerState = kind.states.2.2.2) :
    onField env o field = onMessageOid kind.append o field := by
  cases kind <;> simp only [onField, hState, ResultKind.states, ResultKind.append]

theorem append_init (kind : ResultKind) {message : Message} {o' : Session}
    (h : kind.append message o = .ok o') : o'.scannerInitState = o.scannerInitState := by
  cases kind with
  | errmsg => exact writeMessage_init h
  | alarm => exact writeMessage_init h
  | log => exact appendLogMessage_init h

theorem legal_result (kind : ResultKind) {host port description oid : CString}
    (hTop : o.scannerState = .top)
    (hFields : WellFormedField host ∧ WellFormedField port ∧ WellFormedField description ∧
      WellFormedField oid)
    (hNext : ∀ o' : Session, o'.scannerState = .top →
      o'.scannerInitState = o.scannerInitState → Legal env (o', none) ps) :
    Legal env (o, none)
      (fieldPieces [kind.command, host, port, description, oid] ++ .closing :: ps) := by
  obtain ⟨hHost, hPort, hDescription, hOid⟩ := hFields
  refine legal_command hTop (by cases kind <;> rfl) (by cases kind <;> decide)
    (fun o' => by rw [onServer_result]; exact proceed_leads o' _) fun o₁ h₁ i₁ => ?_
  refine legal_step h₁ (by cases kind <;> decide) (wellFormedField_padded hHost)
    (by rw [onField_resultHost _ kind h₁]; exact onMessageHost_leads _ _) fun o₂ h₂ i₂ => ?_
  refine legal_step h₂ (by cases kind <;> decide) (wellFormedField_padded hPort)
    (by rw [onField_resultNumber _ kind h₂]; exact onMessageNumber_leads _ _) fun o₃ h₃ i₃ => ?_
  refine legal_step h₃ (by cases kind <;> decide) (wellFormedField_padded hDescription)
    (by rw [onField_resultDescription _ kind h₃]; exact onMessageDescription_leads _ _)
    fun o₄ h₄ i₄ => ?_
  refine legal_close h₄ (by cases kind <;> decide) (wellFormedField_padded hOid)
    (by rw [onField_resultOid _ kind h₄]; exact onMessageOid_ends _ fun _ _ => append_init kind)
    fun o₅ h₅ i₅ => ?_
  exact hNext o₅ h₅ (i₅.trans (i₄.trans (i₃.trans (i₂.trans i₁))))

theorem legal_status {host attack progress : CString} (hTop : o.scannerState = .top)
    (hFields : WellFormedField host ∧ WellFormedField attack ∧ WellFormedField progress)
    (hNext : ∀ o' : Session, o'.scannerState = .top →
      o'.scannerInitState = o.scannerInitState → Legal env (o', none) ps) :
    Legal env (o, none) (fieldPieces [lit "STATUS", host, attack, progress] ++ .closing :: ps) := by
  obtain ⟨hHost, hAttack, hProgress⟩ := hFields
  refine legal_command hTop rfl (by decide) (fun o' => proceed_leads o' .statusHost)
    fun o₁ h₁ i₁ => ?_
  refine legal_step h₁ (by decide) (wellFormedField_padded hHost)
    (by rw [onField, h₁]; exact onHost_leads _ _) fun o₂ h₂ i₂ => ?_
  obtain ⟨next, hPorts, hLeads⟩ := onStatusAttackState_leads (o := o₂) (fieldText (padded attack))
  refine legal_step h₂ (by decide) (wellFormedField_padded hAttack)
    (by rw [onField, h₂]; exact hLeads) fun o₃ h₃ i₃ => ?_
  have hDone : ∀ o₄ : Session, o₄.scannerState = .top → o₄.scannerInitState = o₃.scannerInitState →
      Legal env (o₄, none) ps :=
    fun o₄ h₄ i₄ => hNext o₄ h₄ (i₄.trans (i₃.trans (i₂.trans i₁)))
  cases hPorts with
  | inl hState =>
      subst hState
      exact legal_close h₃ (by decide) (wellFormedField_padded hProgress)
        (by rw [onField, h₃]; exact finish_ends _) hDone
  | inr hState =>
      subst hState
      exact legal_close h₃ (by decide) (wellFormedField_padded hProgress)
        (by rw [onField, h₃]; exact onStatusProgress_ends _) hDone

theorem legal_hostTime (kind : HostTime) {host time : CString} (hTop : o.scannerState = .top)
    (hFields : WellFormedField host ∧ WellFormedField time)
    (hNext : ∀ o' : Session, o'.scannerState = .top →
      o'.scannerInitState = o.scannerInitState → Legal env (o', none) ps) :
    Legal env (o, none) (fieldPieces [lit "TIME", kind.command, host, time] ++ .closing :: ps) := by
  obtain ⟨hHost, hTime⟩ := hFields
  refine legal_command hTop rfl (by decide) (fun o' => proceed_leads o' .time) fun o₁ h₁ i₁ => ?_
  cases kind with
  | start =>
      refine legal_step h₁ (by decide) rfl
        (by rw [onField, h₁]; exact proceed_leads o₁ .timeHostStartHost) fun o₂ h₂ i₂ => ?_
      refine legal_step h₂ (by decide) (wellFormedField_padded hHost)
        (by rw [onField, h₂]; exact onHost_leads _ _) fun o₃ h₃ i₃ => ?_
      exact legal_close h₃ (by decide) (wellFormedField_padded hTime)
        (by rw [onField, h₃]; exact onTimeHost_ends _ _)
        fun o₄ h₄ i₄ => hNext o₄ h₄ (i₄.trans (i₃.trans (i₂.trans i₁)))
  | finish =>
      refine legal_step h₁ (by decide) rfl
        (by rw [onField, h₁]; exact proceed_leads o₁ .timeHostEndHost) fun o₂ h₂ i₂ => ?_
      refine legal_step h₂ (by decide) (wellFormedField_padded hHost)
        (by rw [onField, h₂]; exact onHost_leads _ _) fun o₃ h₃ i₃ => ?_
      exact legal_close h₃ (by decide) (wellFormedField_padded hTime)
        (by rw [onField, h₃]; exact onTimeHost_ends _ _)
        fun o₄ h₄ i₄ => hNext o₄ h₄ (i₄.trans (i₃.trans (i₂.trans i₁)))

theorem legal_scanStart {time : CString} (hTop : o.scannerState = .top) (hTime : WellFormedField time)
    (hNext : ∀ o' : Session, o'.scannerState = .top →
      o'.scannerInitState = o.scannerInitState → Legal env (o', none) ps) :
    Legal env (o, none) (fieldPieces [lit "TIME", lit "SCAN_START", time] ++ .closing :: ps) := by
  refine legal_command hTop rfl (by decide) (fun o' => proceed_leads o' .time) fun o₁ h₁ i₁ => ?_
  refine legal_step h₁ (by decide) rfl (by rw [onField, h₁]; exact proceed_leads o₁ .timeScanStart)
    fun o₂ h₂ i₂ => ?_
  exact legal_close h₂ (by decide) (wellFormedField_padded hTime)
    (by rw [onField, h₂]; exact onTimeScanStart_ends _)
    fun o₃ h₃ i₃ => hNext o₃ h₃ (i₃.trans (i₂.trans i₁))

theorem legal_scanEnd {time : CString} (hTop : o.scannerState = .top) (hTime : WellFormedField time)
    (hNext : ∀ o' : Session, o'.scannerState = .top →
      o'.scannerInitState = o.scannerInitState → Legal env (o', none) ps) :
    Legal env (o, none) (fieldPieces [lit "TIME", lit "SCAN_END", time] ++ .closing :: ps) := by
  refine legal_command hTop rfl (by decide) (fun o' => proceed_leads o' .time) fun o₁ h₁ i₁ => ?_
  refine legal_step h₁ (by decide) rfl (by rw [onField, h₁]; exact proceed_leads o₁ .timeScanEnd)
    fun o₂ h₂ i₂ => ?_
  exact legal_close h₂ (by decide) (wellFormedField_padded hTime)
    (by rw [onField, h₂]; exact onTimeScanEnd_ends _)
    fun o₃ h₃ i₃ => hNext o₃ h₃ (i₃.trans (i₂.trans i₁))

theorem legal_fileAccepted (hTop : o.scannerState = .top)
    (hNext : ∀ o' : Session, o'.scannerState = .top →
      o'.scannerInitState = o.scannerInitState → Legal env (o', none) ps) :
    Legal env (o, none) (fieldPieces [lit "FILE_ACCEPTED"] ++ .closing :: ps) := by
  refine legal_server hTop fun o' hServer hInit => ?_
  have hField : onField env o' (o'.fieldText (padded (lit "FILE_ACCEPTED"))) = finish o' .nothing := by
    simp only [onField, hServer, Session.fieldText, blankIn]
    rfl
  have hEnds := finish_ends o'
  rw [← hField] at hEnds
  exact legal_ends (fieldFits_server hServer rfl (by decide)) hEnds
    fun o'' hState hInit' => hNext o'' hState (hInit'.trans hInit)

theorem onDone_init (completion : Completion) (o : Session) :
    (onDone completion o).1.scannerInitState = completion.initAfter o.scannerInitState := by
  cases completion with
  | nothing => rfl
  | bye => rfl
  | nvtInfo =>
      simp only [onDone, Completion.initAfter]
      split <;> rfl
  | preferences =>
      simp only [onDone, Completion.initAfter]
      split <;> rfl
  | pluginList =>
      simp only [onDone, Completion.initAfter]
      split
      · cases o.pluginsFeedVersion <;> rfl
      · rfl

/-- The last field of a message together with its closing word. -/
theorem legal_last {raw : List UInt8} {completion : Completion} {o' : Session}
    (hState : o.scannerState = state) (hPlain : firstReading state = .field ∧ state ≠ .top)
    (hRaw : WellFormedField raw) (hField : onField env o (fieldText raw) = finish o' completion)
    (hAttached : completion.attached o'.scannerInitState = true)
    (hNext : ∀ o'' : Session, o''.scannerState = .top →
      o''.scannerInitState = completion.initAfter o'.scannerInitState →
      Legal env (o'', none) ps) : Legal env (o, none) (.last raw :: ps) := by
  rw [← hState] at hPlain
  rw [← fieldText_plain hPlain.1 hPlain.2] at hField
  refine ⟨⟨fieldFits_plain hPlain.1 hPlain.2 hRaw, o'.setScannerState .done, completion, hField,
    hAttached⟩, ?_⟩
  have hPiece : onPiece env (o, none) (.last raw) = onDone completion (o'.setScannerState .top) := by
    simp only [onPiece, hField, finish]
    rfl
  have hTop := onDone_scannerState completion (o'.setScannerState .top)
  have hInit := onDone_init completion (o'.setScannerState .top)
  rw [hPiece]
  cases hDone : onDone completion (o'.setScannerState .top) with
  | mk o'' ending =>
      rw [hDone] at hTop hInit
      cases ending with
      | some ending => exact legal_ended ps _ _
      | none => exact hNext o'' hTop hInit

theorem legal_nvtInfo {version : CString} (hTop : o.scannerState = .top)
    (hVersion : WellFormedField version)
    (hNext : ∀ o' : Session, o'.scannerState = .top →
      o'.scannerInitState = (ServerMessage.nvtInfo version).initAfter o.scannerInitState →
      Legal env (o', none) ps) :
    Legal env (o, none) (fieldPieces [lit "NVT_INFO"] ++ .last (padded version) :: ps) := by
  refine legal_command hTop rfl (by decide) (fun o' => proceed_leads o' .nvtInfo)
    fun o₁ h₁ i₁ => ?_
  have hField : onField env o₁ (fieldText (padded version)) = finish { o₁ with
      pluginsFeedVersion := some (fieldText (padded version)) } .nvtInfo := by
    rw [onField, h₁]
    rfl
  refine legal_last h₁ (by decide) (wellFormedField_padded hVersion) hField rfl fun o₂ h₂ i₂ => ?_
  rw [show ({ o₁ with pluginsFeedVersion := some (fieldText (padded version)) } :
    Session).scannerInitState = o.scannerInitState from i₁] at i₂
  exact hNext o₂ h₂ i₂

theorem legal_bye (hTop : o.scannerState = .top)
    (hNext : ∀ o' : Session, o'.scannerState = .top →
      o'.scannerInitState = o.scannerInitState → Legal env (o', none) ps) :
    Legal env (o, none) (fieldPieces [lit "BYE"] ++ .last (padded (lit "BYE")) :: ps) := by
  refine legal_command hTop rfl (by decide) (fun o' => proceed_leads o' .bye) fun o₁ h₁ i₁ => ?_
  have hField : onField env o₁ (fieldText (padded (lit "BYE"))) = finish o₁ .bye := by
    rw [onField, h₁]
    rfl
  exact legal_last h₁ (by decide) rfl hField rfl fun o₂ h₂ i₂ => hNext o₂ h₂ (i₂.trans i₁)

/-- The name at the start of a line is not taken for the end of the list. -/
theorem fieldText_name_ne_nil {front : List UInt8} (hFront : ∀ c ∈ front, isBlank c = true)
    {name : CString} (h : WellFormedName name) : fieldText (front ++ name ++ lit " ") ≠ [] := by
  obtain ⟨-, c, hc, hZero⟩ := h
  cases hName : name.dropWhile isBlank with
  | nil =>
      rw [hName] at hc
      cases hc
  | cons d tail =>
      rw [hName] at hc
      obtain rfl : d = c := Option.some.inj hc
      have hBlank : isBlank d = false := by
        have hHead := List.head?_dropWhile_not isBlank name
        rw [hName] at hHead
        simpa using hHead
      have hDrop : (front ++ name ++ lit " ").dropWhile isBlank = d :: (tail ++ lit " ") := by
        rw [List.append_assoc, List.dropWhile_append_of_pos hFront,
          dropWhile_append_of_ne_nil (by rw [hName]; simp), hName, List.cons_append]
      have hStrip : openvasStripSpace (front ++ name ++ lit " ") =
          (d :: (tail ++ lit " ")).rdropWhile isBlank := by
        simp only [openvasStripSpace, hDrop]
        rw [if_neg]
        rintro ⟨-, hShort⟩
        simp [lit] at hShort
      have hSome : (d :: (tail ++ lit " ")).rdropWhile isBlank ≠ [] := by
        rw [Ne, List.rdropWhile_eq_nil_iff]
        intro hAll
        simp [hBlank] at hAll
      obtain ⟨e, rest, hText⟩ := List.exists_cons_of_ne_nil hSome
      have hPrefix := List.rdropWhile_prefix isBlank (d :: (tail ++ lit " "))
      rw [hText, List.cons_prefix_cons] at hPrefix
      obtain ⟨rfl, -⟩ := hPrefix
      rw [fieldText, hStrip, hText, terminated, List.takeWhile_cons_of_pos (by simpa using hZero)]
      exact List.cons_ne_nil _ _

theorem isBlank_newline : ∀ c ∈ lit "\n", isBlank c = true := by
  intro c hMem
  obtain rfl := List.mem_singleton.mp hMem
  rfl

theorem fieldText_blank {front : List UInt8} (hFront : ∀ c ∈ front, isBlank c = true) :
    fieldText front = [] := by
  have hDrop : front.dropWhile isBlank = [] := by
    rw [List.dropWhile_eq_nil_iff]
    exact hFront
  have hStrip : openvasStripSpace front = [] := by
    simp only [openvasStripSpace, hDrop]
    split <;> rfl
  rw [fieldText, hStrip]
  rfl

theorem open_not_mem_blanks {front : List UInt8} (hFront : ∀ c ∈ front, isBlank c = true) :
    ch '<' ∉ front :=
  fun hMem => not_open_of_isBlank (hFront _ hMem) rfl

theorem wellFormedField_blanks {front : List UInt8} (hFront : ∀ c ∈ front, isBlank c = true) :
    WellFormedField front := by
  have hSkip := findSeparator_skip (open_not_mem_blanks hFront) [] []
  rw [List.append_nil] at hSkip
  exact hSkip

/-- A line of a list, which ends with a newline. -/
theorem legal_line {text : List UInt8} {next : ScannerState} (hText : WellFormedValue text)
    (hState : o.scannerState = .pluginListTags ∧ next = .pluginListOid ∨
      o.scannerState = .preferenceValue ∧ next = .preferenceName)
    (hNext : ∀ o' : Session, o'.scannerState = next →
      o'.scannerInitState = o.scannerInitState → Legal env (o', none) ps) :
    Legal env (o, none) (.line text :: ps) := by
  refine ⟨⟨hState.imp And.left And.left, hText⟩, ?_⟩
  cases hState with
  | inl hTags =>
      obtain ⟨hTags, rfl⟩ := hTags
      simp only [onPiece, if_pos hTags]
      apply hNext
      · simp only [onPluginListTags]
        cases o.currentPlugin <;> rfl
      · simp only [onPluginListTags]
        cases o.currentPlugin <;> rfl
  | inr hValue =>
      obtain ⟨hValue, rfl⟩ := hValue
      have hNot : ¬ o.scannerState = .pluginListTags := by
        rw [hValue]
        decide
      simp only [onPiece, if_neg hNot]
      apply hNext
      · rfl
      · simp only [onPreferenceValue]
        split <;> rfl

theorem wellFormedValue_spaced {text : CString} (h : WellFormedValue text) :
    WellFormedValue (lit " " ++ text) := by
  refine ⟨?_, ?_⟩
  · rw [WellFormedField, findSeparator_skip (by decide), show findSeparator [] text = none from h.1]
    rfl
  · rw [List.mem_append]
    rintro (hSpace | hText)
    · revert hSpace
      decide
    · exact h.2 hText

/-- The end of a list. -/
theorem legal_end {front : List UInt8} {completion : Completion}
    (hFront : ∀ c ∈ front, isBlank c = true) (hState : o.scannerState = state)
    (hPlain : firstReading state = .field ∧ state ≠ .top)
    (hField : onField env o [] = finish o completion)
    (hNext : ∀ o' : Session, o'.scannerState = .top →
      o'.scannerInitState = completion.initAfter o.scannerInitState → Legal env (o', none) ps) :
    Legal env (o, none)
      (endPieces (completion.attached o.scannerInitState) front ++ ps) := by
  have hText : onField env o (fieldText front) = finish o completion := by
    rw [fieldText_blank hFront]
    exact hField
  cases hAttached : completion.attached o.scannerInitState with
  | true => exact legal_last hState hPlain (wellFormedField_blanks hFront) hText hAttached hNext
  | false =>
      have hInit := onDone_init completion o
      rw [onDone_of_not_attached hAttached] at hInit
      rw [← hInit] at hNext
      refine legal_close hState hPlain (wellFormedField_blanks hFront) ?_ hNext
      rw [hText]
      exact finish_ends_of_not_attached hAttached

theorem legal_preferencePieces {front : List UInt8} {entries : List (CString × CString)}
    (hFront : ∀ c ∈ front, isBlank c = true)
    (hEntries : ∀ entry ∈ entries, WellFormedName entry.1 ∧ WellFormedValue entry.2)
    (hState : o.scannerState = .preferenceName)
    (hNext : ∀ o' : Session, o'.scannerState = .top →
      o'.scannerInitState = Completion.initAfter o.scannerInitState .preferences →
      Legal env (o', none) ps) :
    Legal env (o, none)
      (preferencePieces (Completion.attached o.scannerInitState .preferences) front entries ++ ps) := by
  induction entries generalizing o front with
  | nil => exact legal_end hFront hState (by decide) (by rw [onField, hState]; rfl) hNext
  | cons entry entries ih =>
      obtain ⟨name, value⟩ := entry
      obtain ⟨hName, hValue⟩ := hEntries (name, value) (List.mem_cons_self)
      have hRaw := wellFormedField_spaced (open_not_mem_blanks hFront) hName.1
      have hText := fieldText_name_ne_nil hFront hName
      have hPlain : firstReading o.scannerState = .field ∧ o.scannerState ≠ .top := by
        rw [hState]
        decide
      -- The name is followed by its line in the state of a value.
      have hRead : ∃ o' : Session, onField env o (o.fieldText (front ++ name ++ lit " ")) =
          .read o' .value ∧ o'.scannerState = .preferenceValue ∧
            o'.scannerInitState = o.scannerInitState := by
        rw [fieldText_plain hPlain.1 hPlain.2, onField, hState]
        simp only [onPreferenceName, if_neg hText]
        exact ⟨_, rfl, rfl, rfl⟩
      obtain ⟨o₁, hRead, h₁, i₁⟩ := hRead
      refine ⟨⟨fieldFits_plain hPlain.1 hPlain.2 hRaw, ?_⟩, ?_⟩
      · intro o' completion h
        rw [hRead] at h
        cases h
      · simp only [onPiece, hRead, settle]
        refine legal_line (wellFormedValue_spaced hValue) (Or.inr ⟨h₁, rfl⟩) fun o₂ h₂ i₂ => ?_
        have hInit : o₂.scannerInitState = o.scannerInitState := i₂.trans i₁
        rw [← hInit]
        refine ih (by simp) (fun entry hMem => hEntries entry (List.mem_cons_of_mem _ hMem)) h₂ ?_
        rw [hInit]
        exact hNext

theorem onPluginField_leads (next : ScannerState) (set : CString → Nvti → Nvti) :
    Leads (onPluginField next set o field) next o.scannerInitState :=
  proceed_leads _ next

theorem onPluginListOid_leads (hField : field ≠ []) :
    Leads (onPluginListOid o field) .pluginListName o.scannerInitState := by
  rw [onPluginListOid, if_neg hField]
  exact asserting_leads (proceed_leads _ _)

/-- The cross references and the tags of a plugin. -/
theorem legal_xrefs {xrefs tags : CString} (hState : o.scannerState = .pluginListXrefs)
    (hXrefs : WellFormedField xrefs) (hTags : WellFormedValue tags)
    (hNext : ∀ o' : Session, o'.scannerState = .pluginListOid →
      o'.scannerInitState = o.scannerInitState → Legal env (o', none) ps) :
    Legal env (o, none) (.field (padded xrefs) :: .line (lit " " ++ tags) :: ps) := by
  have hPlain : firstReading o.scannerState = .field ∧ o.scannerState ≠ .top := by
    rw [hState]
    decide
  have hRead : ∃ o' : Session, onField env o (o.fieldText (padded xrefs)) = .read o' .tags ∧
      o'.scannerState = .pluginListTags ∧ o'.scannerInitState = o.scannerInitState := by
    rw [fieldText_plain hPlain.1 hPlain.2, onField, hState]
    exact ⟨_, rfl, rfl, rfl⟩
  obtain ⟨o₁, hRead, h₁, i₁⟩ := hRead
  refine ⟨⟨fieldFits_plain hPlain.1 hPlain.2 (wellFormedField_padded hXrefs), ?_⟩, ?_⟩
  · intro o' completion h
    rw [hRead] at h
    cases h
  · simp only [onPiece, hRead, settle]
    split
    · exact legal_ended _ _ _
    · exact legal_line (wellFormedValue_spaced hTags) (Or.inl ⟨h₁, rfl⟩)
        fun o₂ h₂ i₂ => hNext o₂ h₂ (i₂.trans i₁)

/-- One line of a plugin list. -/
theorem legal_plugin {front : List UInt8} {p : PluginLine} (hFront : ∀ c ∈ front, isBlank c = true)
    (hPlugin : p.WellFormed) (hState : o.scannerState = .pluginListOid)
    (hNext : ∀ o' : Session, o'.scannerState = .pluginListOid →
      o'.scannerInitState = o.scannerInitState → Legal env (o', none) ps) :
    Legal env (o, none)
      (.field (front ++ p.oid ++ lit " ") :: (p.fields.map fun field => .field (padded field)) ++
        .line (lit " " ++ p.tags) :: ps) := by
  obtain ⟨hOid, hFields, hTags⟩ := hPlugin
  have hWell : ∀ field ∈ p.fields, WellFormedField (padded field) :=
    fun field hMem => wellFormedField_padded (hFields field hMem)
  refine legal_step hState (by decide)
    (wellFormedField_spaced (open_not_mem_blanks hFront) hOid.1)
    (by rw [onField, hState]; exact onPluginListOid_leads _ (fieldText_name_ne_nil hFront hOid))
    fun o₁ h₁ i₁ => ?_
  refine legal_step h₁ (by decide) (hWell p.name (by simp [PluginLine.fields]))
    (by rw [onField, h₁]; exact onPluginField_leads _ _ _) fun o₂ h₂ i₂ => ?_
  refine legal_step h₂ (by decide) (hWell p.category (by simp [PluginLine.fields]))
    (by rw [onField, h₂]; exact onPluginField_leads _ _ _) fun o₃ h₃ i₃ => ?_
  refine legal_step h₃ (by decide) (hWell p.copyright (by simp [PluginLine.fields]))
    (by rw [onField, h₃]; exact onPluginField_leads _ _ _) fun o₄ h₄ i₄ => ?_
  refine legal_step h₄ (by decide) (hWell p.summary (by simp [PluginLine.fields]))
    (by rw [onField, h₄]; exact onPluginField_leads _ _ _) fun o₅ h₅ i₅ => ?_
  refine legal_step h₅ (by decide) (hWell p.family (by simp [PluginLine.fields]))
    (by rw [onField, h₅]; exact onPluginField_leads _ _ _) fun o₆ h₆ i₆ => ?_
  refine legal_step h₆ (by decide) (hWell p.version (by simp [PluginLine.fields]))
    (by rw [onField, h₆]; exact onPluginField_leads _ _ _) fun o₇ h₇ i₇ => ?_
  refine legal_step h₇ (by decide) (hWell p.cve (by simp [PluginLine.fields]))
    (by rw [onField, h₇]; exact onPluginField_leads _ _ _) fun o₈ h₈ i₈ => ?_
  refine legal_step h₈ (by decide) (hWell p.bid (by simp [PluginLine.fields]))
    (by rw [onField, h₈]; exact onPluginField_leads _ _ _) fun o₉ h₉ i₉ => ?_
  refine legal_xrefs h₉ (hFields p.xrefs (by simp [PluginLine.fields])) hTags fun o' h' i' => ?_
  refine hNext o' h' ?_
  rw [i', i₉, i₈, i₇, i₆, i₅, i₄, i₃, i₂, i₁]

theorem legal_pluginPieces {front : List UInt8} {plugins : List PluginLine}
    (hFront : ∀ c ∈ front, isBlank c = true) (hPlugins : ∀ p ∈ plugins, p.WellFormed)
    (hState : o.scannerState = .pluginListOid)
    (hNext : ∀ o' : Session, o'.scannerState = .top →
      o'.scannerInitState = Completion.initAfter o.scannerInitState .pluginList →
      Legal env (o', none) ps) :
    Legal env (o, none)
      (pluginPieces (Completion.attached o.scannerInitState .pluginList) front plugins ++ ps) := by
  induction plugins generalizing o front with
  | nil => exact legal_end hFront hState (by decide) (by rw [onField, hState]; rfl) hNext
  | cons p plugins ih =>
      rw [pluginPieces, List.append_assoc]
      refine legal_plugin hFront (hPlugins p List.mem_cons_self) hState fun o' h' i' => ?_
      rw [← i']
      refine ih (by simp) (fun q hMem => hPlugins q (List.mem_cons_of_mem _ hMem)) h' ?_
      rw [i']
      exact hNext

/-- Every piece of a well-formed message finds the parser ready for it. -/
theorem legal_message (m : ServerMessage) (hWell : m.WellFormed) (hTop : o.scannerState = .top)
    (hNext : ∀ o' : Session, o'.scannerState = .top →
      o'.scannerInitState = m.initAfter o.scannerInitState → Legal env (o', none) ps) :
    Legal env (o, none) (m.pieces o.scannerInitState ++ ps) := by
  cases m with
  | result kind host port description oid =>
      rw [ServerMessage.pieces, List.append_assoc]
      exact legal_result kind hTop hWell hNext
  | status host attack progress =>
      rw [ServerMessage.pieces, List.append_assoc]
      exact legal_status hTop hWell hNext
  | hostTime kind host time =>
      rw [ServerMessage.pieces, List.append_assoc]
      exact legal_hostTime kind hTop hWell hNext
  | scanStart time =>
      rw [ServerMessage.pieces, List.append_assoc]
      exact legal_scanStart hTop hWell hNext
  | scanEnd time =>
      rw [ServerMessage.pieces, List.append_assoc]
      exact legal_scanEnd hTop hWell hNext
  | fileAccepted =>
      rw [ServerMessage.pieces, List.append_assoc]
      exact legal_fileAccepted hTop hNext
  | nvtInfo version =>
      rw [ServerMessage.pieces, List.append_assoc]
      exact legal_nvtInfo hTop hWell hNext
  | bye =>
      rw [ServerMessage.pieces, List.append_assoc]
      exact legal_bye hTop hNext
  | pluginList plugins =>
      rw [ServerMessage.pieces, List.append_assoc]
      refine legal_command hTop rfl (by decide) (fun o' => proceed_leads o' .pluginListOid)
        fun o₁ h₁ i₁ => ?_
      rw [← i₁]
      refine legal_pluginPieces isBlank_newline hWell h₁ ?_
      rw [i₁]
      exact hNext
  | preferences entries =>
      rw [ServerMessage.pieces, List.append_assoc]
      refine legal_command hTop rfl (by decide)
        (fun o' => asserting_leads (proceed_leads o' .preferenceName)) fun o₁ h₁ i₁ => ?_
      rw [← i₁]
      refine legal_preferencePieces isBlank_newline hWell h₁ ?_
      rw [i₁]
      exact hNext

/-- Every piece of a stream of well-formed messages finds the parser ready for it. -/
theorem legal_stream {ms : List ServerMessage} (hWell : ∀ m ∈ ms, m.WellFormed)
    (hTop : o.scannerState = .top) : Legal env (o, none) (streamPieces o.scannerInitState ms) := by
  induction ms generalizing o with
  | nil => trivial
  | cons m ms ih =>
      refine legal_message m (hWell m List.mem_cons_self) hTop fun o' hState hInit => ?_
      refine ⟨hState, ?_⟩
      rw [← hInit]
      exact ih (fun n hMem => hWell n (List.mem_cons_of_mem _ hMem)) hState

end Otp
