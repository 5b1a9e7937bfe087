import OpenVAS.Otp.Legality

/-! The result of a stream of messages does not depend on how it is cut into
chunks, as long as no chunk ends where an effect hangs on the closing word and
no old byte completes a separator. -/
namespace Otp

open CString Incremental

instance (old bytes : List UInt8) : Decidable (Completes old bytes) :=
  inferInstanceAs (Decidable (_ ∧ _))

instance (old : List UInt8) (k : Nat) : (p : Piece) → Decidable (p.CutOk old k)
  | .field raw => inferInstanceAs (Decidable (¬ Completes old ((raw ++ lit "<|>").take k)))
  | .last raw => inferInstanceAs (Decidable (_ ∧ ¬ Completes old ((raw ++ lit "<|>").take k)))
  | .line _ | .closing | .gap => isTrue trivial

instance decidableCutOk (old : List UInt8) : (ps : List Piece) → (k : Nat) → Decidable (CutOk old ps k)
  | [], _ => isTrue trivial
  | p :: ps, k =>
      if h : k < p.bytes.length then
        decidable_of_iff (p.CutOk old k) (by rw [CutOk, if_pos h])
      else
        have := decidableCutOk old ps (k - p.bytes.length)
        decidable_of_iff (CutOk old ps (k - p.bytes.length)) (by rw [CutOk, if_neg h])

/-- Each call is made in a state in which messages are received, and each chunk
ends where the stream may be cut. -/
def CutsOk (env : Env) (ps : List Piece) : Session → Buffer → Nat → List Delivery → Prop
  | _, _, _, [] => True
  | o, b, n, d :: ds =>
      o.scannerInitState.receiving = true ∧ CutOk d.old ps (n + d.chunk.length) ∧
        let result := processOtpScannerInput env d.old o (b.append d.chunk)
        (result.ending = none → CutsOk env ps result.session result.buffer (n + d.chunk.length) ds)

theorem cutOk_of_length_le {old : List UInt8} {ps : List Piece} {k : Nat}
    (h : (ps.flatMap Piece.bytes).length ≤ k) : CutOk old ps k := by
  induction ps generalizing k with
  | nil => trivial
  | cons p ps ih =>
      rw [List.flatMap_cons, List.length_append] at h
      rw [CutOk, if_neg (by omega)]
      exact ih (by omega)

variable {env : Env} {o : Session}

/-- The start of a stream, up to a place at which it may be cut, is read smoothly. -/
theorem smooth_stream {old sofar : List UInt8} {ms : List ServerMessage}
    (hWell : ∀ m ∈ ms, m.WellFormed) (hTop : o.scannerState = .top) (hPrefix : sofar <+: streamText ms)
    (hCut : CutOk old (streamPieces o.scannerInitState ms) sofar.length) :
    Smooth env old o sofar := by
  have hSmooth : SmoothFrom env old (o, none) _ := smooth_of_legal (legal_stream hWell hTop) hCut
  rw [streamPieces_bytes, ← List.prefix_iff_eq_take.mp hPrefix] at hSmooth
  exact hSmooth

theorem steady_of_cutsOk {start : Session} {ms : List ServerMessage}
    (hWell : ∀ m ∈ ms, m.WellFormed) (hTop : start.scannerState = .top) {ds : List Delivery}
    {b : Buffer} {sofar : List UInt8}
    (hStream : sofar ++ ds.flatMap Delivery.chunk = streamText ms)
    (h : CutsOk env (streamPieces start.scannerInitState ms) o b sofar.length ds) :
    Steady env start o b sofar ds := by
  induction ds generalizing o b sofar with
  | nil => trivial
  | cons d ds ih =>
      obtain ⟨hReceiving, hCut, hLater⟩ := h
      rw [List.flatMap_cons, ← List.append_assoc] at hStream
      rw [← List.length_append] at hCut hLater
      exact ⟨hReceiving, smooth_stream hWell hTop ⟨_, hStream⟩ hCut,
        fun hEnding => ih hStream (hLater hEnding)⟩

/-- The first field of a stream is a token. -/
theorem token_stream_ne_none {ms : List ServerMessage} (hWell : ∀ m ∈ ms, m.WellFormed)
    (hTop : o.scannerState = .top) (hSome : streamText ms ≠ []) :
    token env (o, none) (streamText ms) ≠ none := by
  cases ms with
  | nil => exact absurd rfl hSome
  | cons m ms =>
      have hLegal : Legal env (o, none) _ := legal_stream hWell hTop
      have hFirst : ∃ ps, streamPieces o.scannerInitState (m :: ms) =
          .field (lit "SERVER ") :: ps := by
        cases m <;> exact ⟨_, rfl⟩
      obtain ⟨ps, hPieces⟩ := hFirst
      rw [hPieces] at hLegal
      rw [← streamPieces_bytes o.scannerInitState, hPieces, List.flatMap_cons,
        token_piece hLegal.1 (by decide)]
      exact Option.some_ne_none _

variable (env) in
/-- A call for whole messages, behind blanks of an earlier one, does what the
messages do one after another. -/
theorem processOtpScannerInput_stream (old : List UInt8) {b : Buffer} {ms : List ServerMessage}
    (hSound : Sound o) (hReceiving : o.scannerInitState.receiving = true)
    (hTop : o.scannerState = .top) (hBlank : ∀ c ∈ b.pending, isBlank c = true)
    (hWell : ∀ m ∈ ms, m.WellFormed) (hRoom : ms = [] → Room b) :
    let result := processOtpScannerInput env old o (b.append (streamText ms))
    (result.session, result.ending) =
        (streamPieces o.scannerInitState ms).foldl (onPiece env) (o, none) ∧
      (result.ending = none → result.session.scannerState = .top →
        ∀ c ∈ result.buffer.pending, isBlank c = true) := by
  have hSame : SameInput (reader env) (o, none) (streamText ms) (b.append (streamText ms)).pending := by
    show (streamText ms).dropWhile (blankIn o.scannerState) =
      (b.pending ++ streamText ms).dropWhile (blankIn o.scannerState)
    rw [hTop]
    exact (List.dropWhile_append_of_pos hBlank).symm
  have hSmooth : Smooth env old o (b.append (streamText ms)).pending := by
    refine Smooth.of_sameInput hSame (smooth_stream hWell hTop (List.prefix_refl _) ?_)
    exact cutOk_of_length_le (by rw [streamPieces_bytes])
  have hRoom' : token env (o, none) (b.append (streamText ms)).pending = none →
      Room (b.append (streamText ms)) := by
    intro hToken
    have hStuck : token env (o, none) (streamText ms) = none := hSame.token.trans hToken
    by_cases hText : streamText ms = []
    · have hEmpty : b.append (streamText ms) = b := by
        rw [hText, Buffer.append, List.append_nil]
      rw [hEmpty]
      apply hRoom
      cases ms with
      | nil => rfl
      | cons m ms => cases m <;> cases hText
    · exact absurd hStuck (token_stream_ne_none hWell hTop hText)
  have hLegal : Legal env (o, none) (streamPieces o.scannerInitState ms) := legal_stream hWell hTop
  obtain ⟨left, hReads, hStuck, hLeft⟩ := readsAll_of_legal hLegal
  rw [streamPieces_bytes] at hReads
  obtain ⟨last, hReads, hStuck, hLast⟩ := ReadsAll.of_sameInput hSame hReads hStuck
  obtain ⟨rest, hCall, hNone⟩ :=
    processOtpScannerInput_exhausts hSound hReceiving hSmooth hRoom'
  intro result
  have hEnd : token env (result.session, result.ending) rest = none := by
    cases hEnding : result.ending with
    | none => exact (hNone hEnding).1
    | some ending => rfl
  obtain ⟨hStatus, rfl⟩ := Prod.mk.inj (ReadsAll.eq_of_stuck hCall hReads hEnd hStuck)
  refine ⟨hStatus, ?_⟩
  intro hEnding hState
  have hEmpty : rest.dropWhile isBlank = [] := by
    rw [List.dropWhile_eq_nil_iff]
    have hBlanks := hLeft ((congrArg Prod.snd hStatus).symm.trans hEnding)
    cases hLast with
    | inl hEq =>
        rw [hEq]
        exact hBlanks
    | inr hWhole =>
        obtain ⟨rfl, rfl⟩ := hWhole
        intro c hMem
        cases List.mem_append.mp hMem with
        | inl hOld => exact hBlank c hOld
        | inr hNew => exact hBlanks c hNew
  have hTrim : result.buffer.pending.dropWhile (blankIn result.session.scannerState) =
      rest.dropWhile (blankIn result.session.scannerState) := (hNone hEnding).2.1
  rw [hState] at hTrim
  exact List.dropWhile_eq_nil_iff.mp (hTrim.trans hEmpty)

theorem manageCheckCurrentTask_keeps {o' : Session} {fault : Option Fault}
    (h : manageCheckCurrentTask o = (o', fault)) :
    o'.scannerState = o.scannerState ∧ o'.scannerInitState = o.scannerInitState := by
  rw [manageCheckCurrentTask] at h
  split at h
  · obtain ⟨rfl, -⟩ := Prod.mk.inj h
    exact ⟨rfl, rfl⟩
  · cases hStatus : o.taskRunStatus <;> rw [hStatus] at h <;> obtain ⟨rfl, -⟩ := Prod.mk.inj h <;>
      exact ⟨rfl, rfl⟩

/-- A request that waits for the task is passed on by the first call. -/
theorem processOtpScannerInput_checked {old : List UInt8} {o' : Session} (b : Buffer)
    (h : manageCheckCurrentTask o = (o', none)) :
    processOtpScannerInput env old o b = processOtpScannerInput env old o' b := by
  have hSettled := manageCheckCurrentTask_of_settled (settled_of_manageCheckCurrentTask h)
  simp only [processOtpScannerInput, h, hSettled]

/-- The calls for the chunks of a stream of messages end as one call for the
whole stream does. -/
theorem deliver_chunks {ms : List ServerMessage} (hWell : ∀ m ∈ ms, m.WellFormed)
    (hFits : (streamText ms).length ≤ fromBufferSize) (hTop : o.scannerState = .top) {d : Delivery}
    {ds : List Delivery} (hStream : (d :: ds).flatMap Delivery.chunk = streamText ms)
    (hCuts : CutsOk env (streamPieces o.scannerInitState ms) o ⟨0, []⟩ 0 (d :: ds))
    (old : List UInt8) :
    deliver env o ⟨0, []⟩ (d :: ds) = deliver env o ⟨0, []⟩ [⟨streamText ms, old⟩] := by
  cases hCheck : manageCheckCurrentTask o with
  | mk start fault =>
      cases fault with
      | some fault => simp only [deliver, processOtpScannerInput, hCheck]
      | none =>
          obtain ⟨hState, hInit⟩ := manageCheckCurrentTask_keeps hCheck
          have hTop' : start.scannerState = .top := hState.trans hTop
          have hStart : Sound start :=
            ⟨settled_of_manageCheckCurrentTask hCheck, fun h => by cases hTop'.symm.trans h⟩
          have hDeliver : ∀ (d : Delivery) (ds : List Delivery),
              deliver env o ⟨0, []⟩ (d :: ds) = deliver env start ⟨0, []⟩ (d :: ds) := by
            intro d ds
            simp only [deliver, processOtpScannerInput_checked _ hCheck]
          have hCuts' : CutsOk env (streamPieces start.scannerInitState ms) start ⟨0, []⟩ 0 (d :: ds) := by
            rw [CutsOk, processOtpScannerInput_checked _ hCheck, ← hInit] at hCuts
            exact hCuts
          have hReceiving : start.scannerInitState.receiving = true := hCuts'.1
          have hWhole : Steady env start start ⟨0, []⟩ [] [⟨streamText ms, old⟩] := by
            refine ⟨hReceiving, smooth_stream hWell hTop' (List.prefix_refl _) ?_, fun _ => trivial⟩
            exact cutOk_of_length_le (by rw [streamPieces_bytes]; exact Nat.le_refl _)
          rw [hDeliver, hDeliver]
          refine deliver_eq_of_steady hStart rfl rfl (List.cons_ne_nil _ _) (List.cons_ne_nil _ _)
            (by simp [hStream]) (by rw [hStream]; exact hFits) ?_
            (steady_of_cutsOk hWell hTop' hStream hCuts') hWhole
          rw [hStream]
          exact token_stream_ne_none hWell hTop'

/-- A database without port names, in which no scan has started. -/
def emptyEnv : Env := ⟨fun _ => none, fun _ _ => 0⟩

/-- A session that has received the version string and nothing else. -/
def initialised : Session := { scannerState := .top, scannerInitState := .done }

/-- A scan start that arrives in two chunks, cut inside a field. -/
theorem deliver_chunks_scanStart :
    deliver emptyEnv initialised ⟨0, []⟩
        [⟨lit "SERVER <|> TIME <|> SCAN_ST", lit "x"⟩, ⟨lit "ART <|> 1 <|> SERVER\n", lit "y"⟩] =
      deliver emptyEnv initialised ⟨0, []⟩ [⟨streamText [.scanStart (lit "1")], []⟩] := by
  have hWell : ∀ m ∈ [ServerMessage.scanStart (lit "1")], m.WellFormed := by
    intro m hm
    rw [List.mem_singleton.mp hm]
    show findSeparator [] (lit "1") = none
    decide
  have hCuts : CutsOk emptyEnv
      (streamPieces initialised.scannerInitState [.scanStart (lit "1")]) initialised ⟨0, []⟩ 0
      [⟨lit "SERVER <|> TIME <|> SCAN_ST", lit "x"⟩, ⟨lit "ART <|> 1 <|> SERVER\n", lit "y"⟩] :=
    ⟨rfl, by decide, fun _ => ⟨by decide +kernel, by decide +kernel, fun _ => trivial⟩⟩
  exact deliver_chunks hWell (by decide) rfl (by decide) hCuts []

/-- A feed version whose closing word arrives in a chunk of its own does not
change the state of the initialisation. -/
theorem deliver_nvtInfo_cut :
    let ms := [ServerMessage.nvtInfo (lit "1")]
    let ds : List Delivery := [⟨lit "SERVER <|> NVT_INFO <|> 1 <|>", []⟩, ⟨lit " SERVER\n", []⟩]
    (∀ m ∈ ms, m.WellFormed) ∧ ds.flatMap Delivery.chunk = streamText ms ∧
      (streamText ms).length ≤ fromBufferSize ∧
      (deliver emptyEnv initialised ⟨0, []⟩ ds).1.scannerInitState = .done ∧
      (deliver emptyEnv initialised ⟨0, []⟩ ds).1.effects = [] ∧
      (deliver emptyEnv initialised ⟨0, []⟩ [⟨streamText ms, []⟩]).1.scannerInitState =
        .gotFeedVersion ∧
      (deliver emptyEnv initialised ⟨0, []⟩ [⟨streamText ms, []⟩]).1.effects =
        [.setScannerInitState .gotFeedVersion] := by
  refine ⟨?_, by decide, by decide, by decide +kernel, by decide +kernel, by decide +kernel,
    by decide +kernel⟩
  intro m hm
  rw [List.mem_singleton.mp hm]
  show findSeparator [] (lit "1") = none
  decide

end Otp
