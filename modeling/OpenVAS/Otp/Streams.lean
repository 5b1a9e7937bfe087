import OpenVAS.Otp.Calls

/-! The calls for the chunks of a stream together. Each goes on where the last
one stopped, so that all of them read the tokens of the stream, as one call for
the whole stream does. -/
namespace Otp

open CString Incremental

/-- A property of the session in which a case of the switch reads on. -/
def Next.Keeps (good : Session → Prop) : Next → Prop
  | .read o _ => good o
  | .fail _ | .fault _ _ => True

theorem asserting_keeps {good : Session → Prop} {o : Session} {assertion : Assertion} {holds : Bool}
    {next : Next} (h : next.Keeps good) : (asserting o assertion holds next).Keeps good := by
  rw [asserting]
  split
  · exact h
  · trivial

theorem settled_of_writeMessage {type : CString} {message : Message} {o o' : Session}
    (h : writeMessage type message o = .ok o') (hSettled : o.Settled) : o'.Settled := by
  rw [writeMessage] at h
  split at h
  · cases h
  · split at h
    · cases h
    · obtain rfl := Except.ok.inj h
      exact hSettled

theorem settled_of_appendLogMessage {message : Message} {o o' : Session}
    (h : appendLogMessage message o = .ok o') (hSettled : o.Settled) : o'.Settled := by
  rw [appendLogMessage] at h
  split at h
  · cases h
  · split at h
    · split at h
      · cases h
      · obtain rfl := Except.ok.inj h
        exact hSettled
    · exact settled_of_writeMessage h hSettled

theorem onMessageOid_settled {append : Message → Session → Except Fault Session} {o : Session}
    (field : CString) (h : o.Settled)
    (hAppend : ∀ message o', append message o = .ok o' → o'.Settled) :
    (onMessageOid append o field).Keeps Session.Settled := by
  rw [onMessageOid]
  split
  · exact h
  · split
    · exact h
    · split
      · trivial
      · rename_i hOk
        have hKept := hAppend _ _ hOk
        exact hKept

theorem onStatusAttackState_settled {o : Session} (field : CString) (h : o.Settled) :
    (onStatusAttackState o field).Keeps Session.Settled := by
  rw [onStatusAttackState]
  split
  · exact h
  · split
    · exact h
    · simp only
      split
      · exact h
      · split
        · exact Or.inr rfl
        · split
          · exact Or.inr rfl
          · exact h

theorem onTimeScanStart_settled {env : Env} {o : Session} (field : CString) (h : o.Settled) :
    (onTimeScanStart env o field).Keeps Session.Settled := by
  rw [onTimeScanStart]
  split
  · simp only
    split <;> exact Or.inr rfl
  · exact h

/-- No case of the switch leaves a request behind. -/
theorem onField_settled {env : Env} {o : Session} (field : CString) (h : o.Settled) :
    (onField env o field).Keeps Session.Settled := by
  have hWrite := fun type message (o' : Session)
    (hOk : writeMessage type message o = .ok o') => settled_of_writeMessage hOk h
  rw [onField.eq_def]
  split
  all_goals first
    | exact h
    | exact asserting_keeps h
    | exact onMessageOid_settled field h (hWrite _)
    | exact onMessageOid_settled field h fun _ _ hOk => settled_of_appendLogMessage hOk h
    | exact onStatusAttackState_settled field h
    | exact onTimeScanStart_settled field h
    | (simp only [onMessageNumber, onPluginListOid, onPreferenceName, onServer, onTime,
        onStatusProgress, onTimeHost, onTimeScanEnd]
       repeat' split
       all_goals first
         | exact h
         | exact asserting_keeps h
         | exact Or.inl rfl
         | trivial)
    | (repeat' split
       all_goals first | exact h | trivial)

variable {env : Env} {o : Session}

theorem onDone_settled (completion : Completion) (h : o.Settled) : (onDone completion o).1.Settled := by
  cases completion with
  | nothing => exact h
  | bye => exact h
  | nvtInfo =>
      simp only [onDone]
      split <;> exact h
  | preferences =>
      simp only [onDone]
      split <;> exact h
  | pluginList =>
      simp only [onDone]
      split
      · cases o.pluginsFeedVersion <;> exact h
      · exact h

theorem onPluginListTags_sound (h : o.Settled) (line : List UInt8) : Sound (onPluginListTags o line) := by
  cases hCase : o.currentPlugin with
  | none =>
      refine ⟨?_, ?_⟩ <;> simp only [onPluginListTags, hCase]
      · exact h
      · intro hState
        cases hState
  | some plugin =>
      refine ⟨?_, ?_⟩ <;> simp only [onPluginListTags, hCase]
      · exact h
      · intro hState
        cases hState

theorem onPreferenceValue_sound (h : o.Settled) (line : List UInt8) :
    Sound (onPreferenceValue o line) := by
  refine ⟨?_, fun hState => by cases hState⟩
  simp only [onPreferenceValue]
  split <;> exact h

theorem afterField_sound {next : Next} {rest rest' : List UInt8} {o' : Session}
    (hFits : next.Fits) (hSettled : next.Keeps Session.Settled)
    (h : afterField next rest = some ((o', none), rest')) : Sound o' := by
  cases next with
  | fail o => cases h
  | fault o fault => cases h
  | read o reading =>
      cases reading with
      | field =>
          obtain ⟨hStatus, -⟩ := Prod.mk.inj (Option.some.inj h)
          obtain ⟨rfl, -⟩ := Prod.mk.inj hStatus
          refine ⟨hSettled, ?_⟩
          intro hState
          have hNot : o.scannerState ∉
              [.done, .pluginListTags, .preferenceValue, .server, ScannerState.top] := hFits
          rw [hState] at hNot
          exact absurd (by decide) hNot
      | value =>
          obtain ⟨hStatus, -⟩ := Prod.mk.inj (Option.some.inj h)
          obtain ⟨rfl, -⟩ := Prod.mk.inj hStatus
          exact ⟨hSettled, fun hState => by cases hFits.symm.trans hState⟩
      | command =>
          obtain ⟨hStatus, -⟩ := Prod.mk.inj (Option.some.inj h)
          obtain ⟨rfl, -⟩ := Prod.mk.inj hStatus
          exact ⟨hSettled, fun hState => by cases hFits.symm.trans hState⟩
      | tags =>
          simp only [afterField] at h
          split at h
          · cases h
          · rename_i hSome
            obtain ⟨hStatus, -⟩ := Prod.mk.inj (Option.some.inj h)
            obtain ⟨rfl, -⟩ := Prod.mk.inj hStatus
            exact ⟨hSettled, fun _ => Option.isSome_iff_ne_none.mpr fun hNone =>
              hSome (by rw [hNone]; rfl)⟩
      | closing completion =>
          simp only [afterField] at h
          split at h
          · obtain ⟨⟨found, after⟩, -, hEq⟩ := Option.map_eq_some_iff.mp h
            obtain ⟨hStatus, -⟩ := Prod.mk.inj hEq
            cases found with
            | false => cases hStatus
            | true =>
                have hTop : (o.setScannerState .top).Settled := hSettled
                have hDone := onDone_settled completion hTop
                have hState := onDone_scannerState completion (o.setScannerState .top)
                simp only [if_true] at hStatus
                rw [hStatus] at hDone hState
                exact ⟨hDone, fun hTags => by cases hState.symm.trans hTags⟩
          · obtain ⟨hStatus, -⟩ := Prod.mk.inj (Option.some.inj h)
            obtain ⟨rfl, -⟩ := Prod.mk.inj hStatus
            exact ⟨hSettled, fun hState => by cases hFits.symm.trans hState⟩

theorem Sound.token {bytes rest : List UInt8} {o' : Session} (h : Sound o)
    (hToken : token env (o, none) bytes = some ((o', none), rest)) : Sound o' := by
  rw [Otp.token] at hToken
  have hField : readField env o bytes = some ((o', none), rest) → Sound o' := by
    intro hRead
    obtain ⟨⟨raw, after⟩, -, hAfter⟩ := Option.bind_eq_some_iff.mp hRead
    simp only at hAfter
    split at hAfter
    · cases hAfter
    · exact afterField_sound (onField_fits env o _) (onField_settled _ h.settled) hAfter
  cases hReading : firstReading o.scannerState with
  | field =>
      rw [hReading] at hToken
      exact hField hToken
  | command =>
      rw [hReading] at hToken
      exact hField hToken
  | closing completion =>
      rw [hReading] at hToken
      obtain ⟨⟨found, after⟩, -, hEq⟩ := Option.map_eq_some_iff.mp hToken
      obtain ⟨hStatus, -⟩ := Prod.mk.inj hEq
      cases found with
      | false => cases hStatus
      | true =>
          obtain ⟨rfl, -⟩ := Prod.mk.inj hStatus
          exact ⟨h.settled, fun hState => by cases hState⟩
  | tags =>
      rw [hReading] at hToken
      obtain ⟨⟨line, after⟩, -, hEq⟩ := Option.map_eq_some_iff.mp hToken
      obtain ⟨hStatus, -⟩ := Prod.mk.inj hEq
      obtain ⟨rfl, -⟩ := Prod.mk.inj hStatus
      exact onPluginListTags_sound h.settled line
  | value =>
      rw [hReading] at hToken
      obtain ⟨⟨line, after⟩, -, hEq⟩ := Option.map_eq_some_iff.mp hToken
      obtain ⟨hStatus, -⟩ := Prod.mk.inj hEq
      obtain ⟨rfl, -⟩ := Prod.mk.inj hStatus
      exact onPreferenceValue_sound h.settled line

/-- A session stays sound as long as it reads. -/
theorem Sound.readsAll {p q : Status × List UInt8} (h : ReadsAll (reader env) p q)
    (hStart : p.1.2 = none → Sound p.1.1) (hEnd : q.1.2 = none) : Sound q.1.1 := by
  induction h with
  | refl => exact hStart hEnd
  | @tail middle last _ hLast ih =>
      obtain ⟨⟨o, ending⟩, bytes⟩ := middle
      obtain ⟨⟨o', ending'⟩, rest⟩ := last
      cases ending with
      | some ending => cases hLast
      | none =>
          simp only at hEnd
          subst hEnd
          exact (ih rfl).token hLast

/-- Calls that each find a receiving session and a smooth start of the stream. -/
def Steady (env : Env) (start : Session) : Session → Buffer → List UInt8 → List Delivery → Prop
  | _, _, _, [] => True
  | o, b, sofar, d :: ds =>
      o.scannerInitState.receiving = true ∧ Smooth env d.old start (sofar ++ d.chunk) ∧
        let result := processOtpScannerInput env d.old o (b.append d.chunk)
        (result.ending = none →
          Steady env start result.session result.buffer (sofar ++ d.chunk) ds)

/-- Everything that has arrived has been read, apart from what the buffer holds. -/
structure Caught (env : Env) (start : Session) (sofar : List UInt8) (o : Session) (b : Buffer)
    (rest : List UInt8) : Prop where
  reads : ReadsAll (reader env) ((start, none), sofar) ((o, none), rest)
  same : SameInput (reader env) (o, none) b.pending rest
  length_le : b.pending.length ≤ rest.length

theorem Caught.append {start : Session} {sofar rest : List UInt8} {b : Buffer}
    (h : Caught env start sofar o b rest) (chunk : List UInt8) :
    Caught env start (sofar ++ chunk) o (b.append chunk) (rest ++ chunk) where
  reads := ReadsAll.append h.reads chunk
  same := h.same.append chunk
  length_le := by
    have hLength := h.length_le
    simp only [Buffer.append, List.length_append]
    omega

/-- A stream that fits the buffer never fills it without holding a token. -/
theorem Caught.room {start : Session} {sofar rest stream : List UInt8} {b : Buffer}
    (h : Caught env start sofar o b rest) (hPrefix : sofar <+: stream)
    (hFits : stream.length ≤ fromBufferSize)
    (hFirst : stream ≠ [] → token env (start, none) stream ≠ none)
    (hToken : token env (o, none) b.pending = none) : Room b := by
  refine Or.inr fun hFull => ?_
  have hLength := h.length_le
  have hRest : rest.length ≤ sofar.length := ReadsAll.length_le h.reads
  have hSofar : sofar.length ≤ stream.length := hPrefix.length_le
  have hSame : (((o, none), rest) : Status × List UInt8) = ((start, none), sofar) :=
    ReadsAll.eq_of_length h.reads (show rest.length = sofar.length by omega)
  obtain ⟨hStatus, rfl⟩ := Prod.mk.inj hSame
  obtain ⟨rfl, -⟩ := Prod.mk.inj hStatus
  have hStream : rest = stream := hPrefix.eq_of_length (by omega)
  have hStuck : token env (o, none) rest = none := h.same.token.symm.trans hToken
  rw [hStream] at hStuck
  refine hFirst ?_ hStuck
  rintro rfl
  simp only [List.length_nil] at hSofar
  have hZero : fromBufferSize = 0 := by omega
  cases hZero

/-- The calls for the chunks of a stream read all of its tokens. -/
theorem deliver_reads {start : Session} {stream : List UInt8} (hStart : Sound start)
    (hFits : stream.length ≤ fromBufferSize)
    (hFirst : stream ≠ [] → token env (start, none) stream ≠ none) {ds : List Delivery}
    {b : Buffer} {sofar rest : List UInt8} (hStream : sofar ++ ds.flatMap Delivery.chunk = stream)
    (hCaught : Caught env start sofar o b rest) (hSteady : Steady env start o b sofar ds)
    (hStuck : ds = [] → token env (o, none) rest = none) :
    ∃ last, ReadsAll (reader env) ((start, none), stream) (deliver env o b ds, last) ∧
      token env (deliver env o b ds) last = none := by
  induction ds generalizing o b sofar rest with
  | nil =>
      rw [List.flatMap_nil, List.append_nil] at hStream
      subst hStream
      exact ⟨rest, hCaught.reads, hStuck rfl⟩
  | cons d ds ih =>
      rw [List.flatMap_cons, ← List.append_assoc] at hStream
      obtain ⟨hReceiving, hSmooth, hLater⟩ := hSteady
      have hCaught' := hCaught.append d.chunk
      have hSound : Sound o := Sound.readsAll hCaught.reads (fun _ => hStart) rfl
      have hSmooth' : Smooth env d.old o (b.append d.chunk).pending := by
        apply Smooth.of_sameInput hCaught'.same.symm
        exact fun next remaining hReads => hSmooth next remaining (hCaught'.reads.trans hReads)
      have hPrefix : sofar ++ d.chunk <+: stream := ⟨_, hStream⟩
      obtain ⟨last, hReads, hNone⟩ :=
        (processOtpScannerInput_exhausts hSound hReceiving hSmooth'
          (hCaught'.room hPrefix hFits hFirst)).of_sameInput hCaught'.same hCaught'.length_le
      have hAll := hCaught'.reads.trans hReads
      simp only [deliver]
      cases hEnding : (processOtpScannerInput env d.old o (b.append d.chunk)).ending with
      | some ending =>
          rw [hEnding] at hAll
          refine ⟨last ++ ds.flatMap Delivery.chunk, ?_, rfl⟩
          rw [← hStream]
          exact ReadsAll.append hAll _
      | none =>
          rw [hEnding] at hAll
          obtain ⟨hStuck', hSame, hLength⟩ := hNone hEnding
          exact ih hStream ⟨hAll, hSame, hLength⟩ (hLater hEnding) fun _ => hStuck'

/-- Two deliveries of one stream end in the same way. -/
theorem deliver_eq_of_steady {start : Session} (hStart : Sound start) {b b' : Buffer}
    (hEmpty : b.pending = []) (hEmpty' : b'.pending = []) {ds ds' : List Delivery}
    (hSome : ds ≠ []) (hSome' : ds' ≠ [])
    (hSame : ds.flatMap Delivery.chunk = ds'.flatMap Delivery.chunk)
    (hFits : (ds.flatMap Delivery.chunk).length ≤ fromBufferSize)
    (hFirst : ds.flatMap Delivery.chunk ≠ [] →
      token env (start, none) (ds.flatMap Delivery.chunk) ≠ none)
    (h : Steady env start start b [] ds) (h' : Steady env start start b' [] ds') :
    deliver env start b ds = deliver env start b' ds' := by
  have hCaught : ∀ {b : Buffer}, b.pending = [] → Caught env start [] start b [] := by
    intro b hNil
    exact ⟨Relation.ReflTransGen.refl, by rw [hNil]; rfl, by rw [hNil]⟩
  obtain ⟨last, hReads, hStuck⟩ := deliver_reads hStart hFits hFirst (List.nil_append _)
    (hCaught hEmpty) h fun hNil => absurd hNil hSome
  obtain ⟨last', hReads', hStuck'⟩ := deliver_reads hStart hFits hFirst
    ((List.nil_append _).trans hSame.symm) (hCaught hEmpty') h' fun hNil => absurd hNil hSome'
  have hEq := ReadsAll.eq_of_stuck hReads hReads' hStuck hStuck'
  exact (Prod.mk.inj hEq).1

end Otp
