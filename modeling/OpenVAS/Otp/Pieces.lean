import OpenVAS.Otp.Messages

/-! What the parser does with the pieces of a stream. A stream that may be cut
at some place is read smoothly up to that place. -/
namespace Otp

open CString Incremental

/-- What the case of a field leaves, when the closing word is not read with it. -/
def settle : Next → Status
  | .fail o => failure o
  | .fault o fault => (o, some (.faulted fault))
  | .read o .tags =>
      if o.currentPlugin.isNone then (o, some (.faulted (.assertion .currentPlugin))) else (o, none)
  | .read o .field | .read o .value | .read o .command | .read o (.closing _) => (o, none)

/-- The text of a field in a state, without the blanks that the state skips. -/
def Session.fieldText (o : Session) (raw : List UInt8) : CString :=
  Otp.fieldText (raw.dropWhile (blankIn o.scannerState))

/-- What a piece does to a session, unless the session has ended. -/
def onPiece (env : Env) : Status → Piece → Status
  | (o, some ending), _ => (o, some ending)
  | (o, none), .field raw => settle (onField env o (o.fieldText raw))
  | (o, none), .last raw =>
      match onField env o (o.fieldText raw) with
      | .read o (.closing completion) => onDone completion (o.setScannerState .top)
      | next => settle next
  | (o, none), .line text =>
      if o.scannerState = .pluginListTags then (onPluginListTags o (text.dropWhile isSpace), none)
      else (onPreferenceValue o (text.dropWhile isSpace), none)
  | (o, none), .closing => (o.setScannerState .top, none)
  | (o, none), .gap => (o, none)

/-- A field that the state of the session is ready for. -/
structure FieldFits (o : Session) (raw : List UInt8) : Prop where
  state : firstReading o.scannerState = .field ∨ firstReading o.scannerState = .command
  wellFormed : WellFormedField raw
  top : o.scannerState = .top → raw = lit "SERVER "
  server : o.scannerState = .server → ch '\n' ∉ raw

/-- The pieces that belong to a session. -/
def Piece.Fits (env : Env) (o : Session) : Piece → Prop
  | .field raw => FieldFits o raw ∧
      ∀ o' completion, onField env o (o.fieldText raw) = .read o' (.closing completion) →
        completion.attached o'.scannerInitState = false
  | .last raw => FieldFits o raw ∧
      ∃ o' completion, onField env o (o.fieldText raw) = .read o' (.closing completion) ∧
        completion.attached o'.scannerInitState = true
  | .line text => (o.scannerState = .pluginListTags ∨ o.scannerState = .preferenceValue) ∧
      WellFormedValue text
  | .closing => o.scannerState = .done
  | .gap => o.scannerState = .top

/-- Every piece belongs to the session that it finds. -/
def Legal (env : Env) : Status → List Piece → Prop
  | _, [] => True
  | (_, some _), _ => True
  | (o, none), p :: ps => p.Fits env o ∧ Legal env (onPiece env (o, none) p) ps

/-- The old bytes complete a separator that the input ends in. -/
def Completes (old bytes : List UInt8) : Prop := old.head? = some (ch '>') ∧ lit "<|" <:+ bytes

/-- Places inside a piece at which a stream may be cut. -/
def Piece.CutOk (old : List UInt8) (k : Nat) : Piece → Prop
  | .field raw => ¬ Completes old ((raw ++ lit "<|>").take k)
  | .last raw => k < raw.length + 3 ∧ ¬ Completes old ((raw ++ lit "<|>").take k)
  | .line _ | .closing | .gap => True

/-- Places at which a stream may be cut. -/
def CutOk (old : List UInt8) : List Piece → Nat → Prop
  | [], _ => True
  | p :: ps, k =>
      if k < p.bytes.length then p.CutOk old k else CutOk old ps (k - p.bytes.length)

/-! Searches in a piece. -/

theorem findSeparator_end {raw : List UInt8} (h : WellFormedField raw) (old more : List UInt8) :
    findSeparator old (raw ++ (lit "<|>" ++ more)) = some raw.length := by
  induction raw with
  | nil => rfl
  | cons c raw ih =>
      rw [WellFormedField, findSeparator] at h
      split at h
      · cases h
      · rename_i hNot
        rw [List.cons_append, findSeparator, if_neg, ih (Option.map_eq_none_iff.mp h)]
        · rfl
        · rintro ⟨hOpen, hBar, hClose⟩
          rcases raw with _ | ⟨d, _ | ⟨e, raw⟩⟩
          · cases hBar
          · cases hClose
          · exact hNot ⟨hOpen, hBar, hClose⟩

/-- Inside a field and its separator, nothing is found. -/
theorem findSeparator_cut {raw : List UInt8} (h : WellFormedField raw) {k : Nat}
    (hk : k < raw.length + 3) : findSeparator [] ((raw ++ lit "<|>").take k) = none := by
  cases hFind : findSeparator [] ((raw ++ lit "<|>").take k) with
  | none => rfl
  | some i =>
      have hLength := findSeparator_length hFind
      have hWhole := findSeparator_append hFind [] ((raw ++ lit "<|>").drop k)
      have hEnd := findSeparator_end h [] []
      rw [List.take_append_drop] at hWhole
      rw [List.append_nil, hWhole] at hEnd
      rw [List.length_take] at hLength
      have hEq := Option.some.inj hEnd
      omega

/-- Old bytes find a separator only where they complete it. -/
theorem findSeparator_old {old bytes : List UInt8} (h : findSeparator [] bytes = none)
    (hNot : ¬ Completes old bytes) : findSeparator old bytes = none := by
  induction bytes with
  | nil => rfl
  | cons c bytes ih =>
      rw [findSeparator] at h
      split at h
      · cases h
      · rename_i hHere
        have hRest : ¬ Completes old bytes := fun hOld =>
          hNot ⟨hOld.1, hOld.2.trans (List.suffix_cons c bytes)⟩
        rw [findSeparator, if_neg, ih (Option.map_eq_none_iff.mp h) hRest, Option.map_none]
        rintro ⟨hOpen, hBar, hClose⟩
        rcases bytes with _ | ⟨d, _ | ⟨e, bytes⟩⟩
        · cases hBar
        · refine hNot ⟨?_, ?_⟩
          · cases old with
            | nil => cases hClose
            | cons e old => exact hClose
          · rw [hOpen, Option.some.inj hBar]
            exact List.suffix_refl _
        · exact hHere ⟨hOpen, hBar, hClose⟩

theorem wellFormedField_dropWhile {raw : List UInt8} (h : WellFormedField raw) (state : ScannerState) :
    WellFormedField (raw.dropWhile (blankIn state)) := by
  rw [WellFormedField, findSeparator_dropWhile [] raw fun c => isBlank_of_blankIn,
    Option.map_eq_none_iff] at h
  exact h

theorem dropWhile_append_cons {α : Type*} {p : α → Bool} {c : α} (h : p c = false) (a b : List α) :
    (a ++ c :: b).dropWhile p = a.dropWhile p ++ c :: b := by
  induction a with
  | nil => simp [h]
  | cons d a ih =>
      cases hd : p d with
      | true => simpa [hd] using ih
      | false => simp [hd]

theorem blankIn_open (state : ScannerState) : blankIn state (ch '<') = false :=
  Bool.eq_false_iff.mpr fun h => not_open_of_isBlank (isBlank_of_blankIn h) rfl

theorem dropWhile_field (state : ScannerState) (raw more : List UInt8) :
    (raw ++ (lit "<|>" ++ more)).dropWhile (blankIn state) =
      raw.dropWhile (blankIn state) ++ (lit "<|>" ++ more) :=
  dropWhile_append_cons (blankIn_open state) raw _

theorem fieldToken_end {raw : List UInt8} (h : WellFormedField raw) (more : List UInt8) :
    fieldToken (raw ++ (lit "<|>" ++ more)) = some (raw, more) := by
  rw [fieldToken, findSeparator_end h, Option.map_some, List.take_left, ← List.append_assoc]
  congr 2
  exact List.drop_left' (by simp [lit])

theorem afterField_settle {next : Next} (more : List UInt8)
    (h : ∀ o' completion, next = .read o' (.closing completion) →
      completion.attached o'.scannerInitState = false) :
    afterField next more = some (settle next, more) := by
  cases next with
  | fail o => rfl
  | fault o fault => rfl
  | read o reading =>
      cases reading with
      | field => rfl
      | value => rfl
      | command => rfl
      | tags =>
          simp only [afterField, settle]
          split <;> rfl
      | closing completion =>
          simp only [afterField, h o completion rfl, Bool.false_eq_true, if_false, settle]

variable {env : Env} {o : Session}

theorem readField_fits {raw : List UInt8} (h : FieldFits o raw) (more : List UInt8) :
    token env (o, none) (raw ++ (lit "<|>" ++ more)) =
      afterField (onField env o (o.fieldText raw)) more := by
  have hNot : ¬ (o.scannerState = .server ∧ ch '\n' ∈ raw.dropWhile (blankIn o.scannerState)) := by
    rintro ⟨hServer, hMem⟩
    exact h.server hServer ((List.dropWhile_suffix _).subset hMem)
  rw [token_of_field h.state, readField, dropWhile_field,
    fieldToken_end (wellFormedField_dropWhile h.wellFormed _), Option.bind_some]
  exact if_neg hNot

theorem closingToken_server (more : List UInt8) :
    closingToken (lit " SERVER" ++ more) = some (true, more) := by
  have hDrop : (lit " SERVER" ++ more).dropWhile isBlank = lit "SERVER" ++ more := rfl
  have hLong : ¬ (lit "SERVER" ++ more).length < 6 := by simp [lit]
  have hFound : strcaseeq (lit "SERVER") (lit "SERVER") = true := by decide
  have hTake : (lit "SERVER" ++ more).take 6 = lit "SERVER" := rfl
  have hRest : (lit "SERVER" ++ more).drop 6 = more := rfl
  simp only [closingToken, hDrop, if_neg hLong, hTake, hRest, hFound]

theorem lineToken_piece {text : List UInt8} (h : WellFormedValue text) (more : List UInt8) :
    lineToken ((Piece.line text).bytes ++ more) = some (text.dropWhile isSpace, more) := by
  apply lineToken_of_split
  · rw [Piece.bytes, List.append_assoc]
    exact dropWhile_append_cons (by decide) text more
  · exact fun hMem => h.2 ((List.dropWhile_suffix _).subset hMem)

/-- A whole piece is a token of the session that it belongs to. -/
theorem token_piece {p : Piece} (h : p.Fits env o) (hGap : p ≠ .gap) (more : List UInt8) :
    token env (o, none) (p.bytes ++ more) = some (onPiece env (o, none) p, more) := by
  cases p with
  | gap => exact absurd rfl hGap
  | field raw =>
      rw [Piece.bytes, List.append_assoc, readField_fits h.1, afterField_settle more h.2]
      rfl
  | last raw =>
      obtain ⟨hFits, o', completion, hNext, hAttached⟩ := h
      have hBytes : (Piece.last raw).bytes ++ more =
          raw ++ (lit "<|>" ++ (lit " SERVER" ++ more)) := by
        simp [Piece.bytes, lit]
      rw [hBytes, readField_fits hFits, hNext]
      simp only [afterField, hAttached, if_true, closingToken_server, Option.map_some, onPiece, hNext]
  | closing =>
      rw [token_of_closing h, Piece.bytes, closingToken_server]
      rfl
  | line text =>
      obtain ⟨hState, hText⟩ := h
      cases hState with
      | inl hTags =>
          simp only [token, hTags, firstReading, lineToken_piece hText, Option.map_some, onPiece,
            if_true]
      | inr hValue =>
          simp only [token, hValue, firstReading, lineToken_piece hText, Option.map_some, onPiece]
          rfl

theorem readField_cut {raw : List UInt8} (h : FieldFits o raw) {k : Nat} (hk : k < raw.length + 3) :
    token env (o, none) ((raw ++ lit "<|>").take k) = none := by
  rw [token_of_field h.state]
  apply readField_eq_none_of_fieldToken
  have hNone := findSeparator_cut h.wellFormed hk
  rw [findSeparator_dropWhile [] _ fun c => isBlank_of_blankIn, Option.map_eq_none_iff] at hNone
  rw [fieldToken, hNone, Option.map_none]

theorem last_take {raw : List UInt8} {k : Nat} (hk : k < raw.length + 3) :
    (Piece.last raw).bytes.take k = (raw ++ lit "<|>").take k := by
  have hBytes : (Piece.last raw).bytes = (raw ++ lit "<|>") ++ lit " SERVER" := by
    simp [Piece.bytes, lit]
  rw [hBytes, List.take_append_of_le_length (by simp [lit]; omega)]

theorem closingToken_cut {k : Nat} (hk : k < 7) : closingToken ((lit " SERVER").take k) = none := by
  interval_cases k <;> decide

/-- A piece of which a part is missing is no token. -/
theorem token_cut {old : List UInt8} {p : Piece} (h : p.Fits env o) (hGap : p ≠ .gap) {k : Nat}
    (hk : k < p.bytes.length) (hCut : p.CutOk old k) :
    token env (o, none) (p.bytes.take k) = none := by
  cases p with
  | gap => exact absurd rfl hGap
  | field raw => exact readField_cut h.1 (by simpa [Piece.bytes, lit] using hk)
  | last raw =>
      rw [last_take hCut.1]
      exact readField_cut h.1 hCut.1
  | closing =>
      rw [token_of_closing h, Piece.bytes, closingToken_cut hk, Option.map_none]
  | line text =>
      obtain ⟨hState, hText⟩ := h
      have hTake : (Piece.line text).bytes.take k = text.take k := by
        simp only [Piece.bytes, lit, List.length_append] at hk ⊢
        exact List.take_append_of_le_length (by simpa using Nat.le_of_lt_succ hk)
      have hLine : lineToken ((Piece.line text).bytes.take k) = none := by
        rw [lineToken, hTake, Option.map_eq_none_iff, strchr, List.idxOf?_eq_none_iff]
        exact fun hMem => hText.2 (List.mem_of_mem_take ((List.dropWhile_suffix _).subset hMem))
      cases hState with
      | inl hTags => simp only [token, hTags, firstReading, hLine, Option.map_none]
      | inr hValue => simp only [token, hValue, firstReading, hLine, Option.map_none]

theorem badLogin_server {old bytes : List UInt8} (h : ∀ c ∈ bytes.head?, c = ch 'S') :
    (parseScannerBadLogin old ⟨0, bytes.dropWhile isBlank⟩).1 = false := by
  cases bytes with
  | nil => rfl
  | cons c bytes =>
      obtain rfl := h c rfl
      have hBlank : isBlank (ch 'S') = false := by decide
      have hSpace : isSpace (ch 'S') = false := by decide
      rw [List.dropWhile_cons_of_neg (by rw [hBlank]; decide), parseScannerBadLogin_fst,
        List.dropWhile_cons_of_neg (by rw [hSpace]; decide), Bool.and_eq_false_iff]
      right
      rw [strcaseeq, decide_eq_false_iff_not, List.cons_append, List.take_succ_cons, List.map_cons]
      intro hEq
      have hHead : some (ch 'b') = some (tolower (ch 'S')) := congrArg List.head? hEq
      revert hHead
      decide

/-- Nothing disturbs a call in front of a whole piece. -/
theorem undisturbed_piece {old : List UInt8} {p : Piece} (h : p.Fits env o) (hGap : p ≠ .gap)
    (more : List UInt8) : Undisturbed env old o (p.bytes ++ more) := by
  refine ⟨?_, ?_, ?_⟩
  · intro hTop
    have hField : ∀ raw tail, FieldFits o raw → (parseScannerBadLogin old
        ⟨0, (raw ++ tail).dropWhile isBlank⟩).1 = false := by
      intro raw tail hFits
      rw [hFits.top hTop]
      exact badLogin_server fun c hc => (Option.some.inj hc).symm
    cases p with
    | gap => exact absurd rfl hGap
    | field raw =>
        rw [Piece.bytes, List.append_assoc]
        exact hField raw _ h.1
    | last raw =>
        rw [Piece.bytes, List.append_assoc]
        exact hField raw _ h.1
    | closing => cases hTop.symm.trans h
    | line text => rcases h.1 with hState | hState <;> cases hTop.symm.trans hState
  · intro hLine line rest hToken
    cases p with
    | gap => exact absurd rfl hGap
    | field raw => rcases h.1.state with hState | hState <;> simp [hState] at hLine
    | last raw => rcases h.1.state with hState | hState <;> simp [hState] at hLine
    | closing =>
        rw [show o.scannerState = .done from h] at hLine
        simp [firstReading] at hLine
    | line text =>
        rw [lineToken_piece h.2] at hToken
        obtain ⟨rfl, -⟩ := Prod.mk.inj (Option.some.inj hToken)
        exact wellFormedField_dropWhile h.2.1 .server
  · intro _ hNone
    rw [token_piece h hGap] at hNone
    cases hNone

theorem field_head {raw : List UInt8} (h : FieldFits o raw) (hTop : o.scannerState = .top)
    {tail : List UInt8} {k : Nat} : ∀ c ∈ ((raw ++ tail).take k).head?, c = ch 'S' := by
  rw [h.top hTop]
  cases k with
  | zero => simp
  | succ k => exact fun c hc => (Option.some.inj hc).symm

/-- Nothing disturbs a call inside a piece that may be cut there. -/
theorem undisturbed_cut {old : List UInt8} {p : Piece} (h : p.Fits env o) (hGap : p ≠ .gap) {k : Nat}
    (hk : k < p.bytes.length) (hCut : p.CutOk old k) :
    Undisturbed env old o (p.bytes.take k) := by
  have hToken := token_cut h hGap hk hCut
  refine ⟨?_, ?_, ?_⟩
  · intro hTop
    cases p with
    | gap => exact absurd rfl hGap
    | field raw => exact badLogin_server (field_head h.1 hTop)
    | last raw => exact badLogin_server (field_head h.1 hTop)
    | closing => cases hTop.symm.trans h
    | line text => rcases h.1 with hState | hState <;> cases hTop.symm.trans hState
  · intro hLine line rest hFound
    rcases hLine with hState | hState <;>
      simp [token, hState, hFound] at hToken
  · intro hState _
    cases p with
    | gap => exact absurd rfl hGap
    | field raw =>
        exact findSeparator_old (findSeparator_cut h.1.wellFormed
          (by simpa [Piece.bytes, lit] using hk)) hCut
    | last raw =>
        rw [last_take hCut.1]
        exact findSeparator_old (findSeparator_cut h.1.wellFormed hCut.1) hCut.2
    | closing =>
        rw [show o.scannerState = .done from h] at hState
        simp [firstReading] at hState
    | line text =>
        rcases h.1 with hTags | hValue
        · simp [hTags, firstReading] at hState
        · simp [hValue, firstReading] at hState

/-- The points that a call comes to from some status. -/
def SmoothFrom (env : Env) (old : List UInt8) (status : Status) (bytes : List UInt8) : Prop :=
  Guarded (reader env) (fun status rest => status.2 = none → Undisturbed env old status.1 rest)
    status bytes

theorem smoothFrom_ended (old : List UInt8) (o : Session) (ending : Ending) (bytes : List UInt8) :
    SmoothFrom env old (o, some ending) bytes :=
  guarded_of_stuck rfl fun h => by cases h

theorem token_nil (status : Status) : token env status [] = none := by
  cases hToken : token env status [] with
  | none => rfl
  | some pair => exact absurd (token_length hToken) (Nat.not_lt_zero _)

theorem undisturbed_nil (old : List UInt8) : Undisturbed env old o [] := by
  refine ⟨fun _ => rfl, ?_, fun _ _ => rfl⟩
  intro _ line rest hToken
  cases hToken

theorem sameInput_gap (h : o.scannerState = .top) (bytes : List UInt8) :
    SameInput (reader env) (o, none) bytes (lit "\n" ++ bytes) := by
  show bytes.dropWhile (blankIn o.scannerState) = (lit "\n" ++ bytes).dropWhile (blankIn o.scannerState)
  rw [h]
  rfl

/-- A stream of pieces that belong to the session is read smoothly up to every
place at which it may be cut. -/
theorem smooth_of_legal {old : List UInt8} {ps : List Piece} {status : Status} {k : Nat}
    (hLegal : Legal env status ps) (hCut : CutOk old ps k) :
    SmoothFrom env old status ((ps.flatMap Piece.bytes).take k) := by
  induction ps generalizing status k with
  | nil =>
      rw [List.flatMap_nil, List.take_nil]
      exact guarded_of_stuck (token_nil status) fun _ => undisturbed_nil old
  | cons p ps ih =>
      obtain ⟨o, ending⟩ := status
      cases ending with
      | some ending => exact smoothFrom_ended old o ending _
      | none =>
          obtain ⟨hFits, hRest⟩ := hLegal
          rw [CutOk] at hCut
          rw [List.flatMap_cons]
          by_cases hk : k < p.bytes.length
          · rw [if_pos hk] at hCut
            rw [List.take_append_of_le_length (Nat.le_of_lt hk)]
            by_cases hGap : p = .gap
            · subst hGap
              obtain rfl : k = 0 := Nat.lt_one_iff.mp hk
              rw [List.take_zero]
              exact guarded_of_stuck (token_nil (o, none)) fun _ => undisturbed_nil old
            · exact guarded_of_stuck (token_cut hFits hGap hk hCut)
                fun _ => undisturbed_cut hFits hGap hk hCut
          · rw [if_neg hk] at hCut
            have hSmooth := ih hRest hCut
            obtain ⟨j, rfl⟩ := Nat.exists_eq_add_of_le (Nat.le_of_not_lt hk)
            rw [Nat.add_sub_cancel_left] at hSmooth
            rw [List.take_length_add_append]
            by_cases hGap : p = .gap
            · subst hGap
              exact Smooth.of_sameInput (sameInput_gap hFits _) hSmooth
            · exact guarded_of_token (token_piece hFits hGap _)
                (fun _ => undisturbed_piece hFits hGap _) hSmooth

theorem foldl_onPiece_ended (ps : List Piece) (o : Session) (ending : Ending) :
    ps.foldl (onPiece env) (o, some ending) = (o, some ending) := by
  induction ps with
  | nil => rfl
  | cons p ps ih => exact ih

/-- All pieces of a stream are read, one after another, and only blanks are left. -/
theorem readsAll_of_legal {ps : List Piece} {status : Status} (hLegal : Legal env status ps) :
    ∃ rest, ReadsAll (reader env) (status, ps.flatMap Piece.bytes)
        (ps.foldl (onPiece env) status, rest) ∧
      token env (ps.foldl (onPiece env) status) rest = none ∧
      ((ps.foldl (onPiece env) status).2 = none → ∀ c ∈ rest, isBlank c = true) := by
  induction ps generalizing status with
  | nil => exact ⟨[], Relation.ReflTransGen.refl, token_nil status, fun _ c hMem => by cases hMem⟩
  | cons p ps ih =>
      obtain ⟨o, ending⟩ := status
      cases ending with
      | some ending =>
          rw [foldl_onPiece_ended]
          exact ⟨_, Relation.ReflTransGen.refl, rfl, fun h => by cases h⟩
      | none =>
          obtain ⟨hFits, hRest⟩ := hLegal
          obtain ⟨rest, hReads, hStuck, hBlank⟩ := ih hRest
          rw [List.flatMap_cons, List.foldl_cons]
          by_cases hGap : p = .gap
          · subst hGap
            obtain ⟨last, hReads', hStuck', hLast⟩ :=
              ReadsAll.of_sameInput (sameInput_gap hFits _) hReads hStuck
            refine ⟨last, hReads', hStuck', ?_⟩
            intro hNone c hMem
            cases hLast with
            | inl hEq => exact hBlank hNone c (hEq ▸ hMem)
            | inr hWhole =>
                obtain ⟨rfl, rfl⟩ := hWhole
                cases List.mem_append.mp hMem with
                | inl hNewline =>
                    obtain rfl := List.mem_singleton.mp hNewline
                    rfl
                | inr hText => exact hBlank hNone c hText
          · exact ⟨rest, Relation.ReflTransGen.head (token_piece hFits hGap _) hReads, hStuck, hBlank⟩

end Otp
