import OpenVAS.Otp.Tokens

/-! One call reads every token that has arrived, unless the old bytes of the
buffer complete a separator or the input ends between the last field of a
message and a closing `SERVER` on which an effect hangs. -/
namespace Otp

open CString Incremental

/-- What keeps a call on the tokens of the stream, at one point of it: no
refused login, no separator inside a line, and no separator where no token is
complete, the old bytes included. -/
structure Undisturbed (env : Env) (old : List UInt8) (o : Session) (bytes : List UInt8) : Prop where
  login : o.scannerState = .top →
    (parseScannerBadLogin old ⟨0, bytes.dropWhile isBlank⟩).1 = false
  line : firstReading o.scannerState = .tags ∨ firstReading o.scannerState = .value →
    ∀ line rest, lineToken bytes = some (line, rest) → findSeparator [] line = none
  separator : firstReading o.scannerState = .field ∨ firstReading o.scannerState = .command →
    token env (o, none) bytes = none → findSeparator old bytes = none

/-- The same at every point that the call comes to. -/
def Smooth (env : Env) (old : List UInt8) (o : Session) (bytes : List UInt8) : Prop :=
  Guarded (reader env) (fun status rest => status.2 = none → Undisturbed env old status.1 rest)
    (o, none) bytes

/-- A result that comes from reading all tokens of the input. -/
def Exhausts (env : Env) (o : Session) (bytes : List UInt8) (result : Result) : Prop :=
  ∃ rest, ReadsAll (reader env) ((o, none), bytes) ((result.session, result.ending), rest) ∧
    (result.ending = none →
      token env (result.session, none) rest = none ∧
      SameInput (reader env) (result.session, none) result.buffer.pending rest ∧
      result.buffer.pending.length ≤ rest.length)

/-- There is room for more input. -/
def Room (b : Buffer) : Prop := 0 < b.start ∨ b.pending.length ≠ fromBufferSize

theorem needMore_of_room {o : Session} {b : Buffer} (h : Room b) :
    needMore o b = ⟨o, none, ⟨0, b.pending⟩⟩ := by
  have hNot : ¬ (b.start = 0 ∧ b.pending.length = fromBufferSize) := by
    rintro ⟨hStart, hFull⟩
    cases h with
    | inl hPositive => omega
    | inr hLength => exact hLength hFull
  rw [needMore, syncBuffer, if_neg hNot]

theorem Room.drop {b : Buffer} (h : Room b) (n : Nat) : Room (b.drop n) := by
  cases n with
  | zero => simpa [Buffer.drop] using h
  | succ n => exact Or.inl (Nat.lt_of_lt_of_le (Nat.succ_pos n) (Nat.le_add_left _ _))

theorem room_drop {b : Buffer} {n : Nat} (h : 0 < n) : Room (b.drop n) :=
  Or.inl (Nat.lt_of_lt_of_le h (Nat.le_add_left _ _))

theorem skip_pending (b : Buffer) (blank : UInt8 → Bool) :
    (b.skip blank).pending = b.pending.dropWhile blank := by
  have hSplit := List.takeWhile_append_dropWhile (p := blank) (l := b.pending)
  exact (congrArg (List.drop _) hSplit.symm).trans List.drop_left

variable {env : Env} {o : Session} {bytes : List UInt8}

theorem exhausts_wait {b : Buffer} (hRoom : Room b) (hToken : token env (o, none) bytes = none)
    (hSame : SameInput (reader env) (o, none) b.pending bytes)
    (hLength : b.pending.length ≤ bytes.length) : Exhausts env o bytes (needMore o b) := by
  rw [needMore_of_room hRoom]
  exact ⟨bytes, Relation.ReflTransGen.refl, fun _ => ⟨hToken, hSame, hLength⟩⟩

theorem exhausts_stop {o' : Session} {ending : Ending} {rest : List UInt8} {b : Buffer}
    (hToken : token env (o, none) bytes = some ((o', some ending), rest)) :
    Exhausts env o bytes ⟨o', some ending, b⟩ := by
  refine ⟨rest, Relation.ReflTransGen.single hToken, ?_⟩
  intro h
  cases h

theorem exhausts_token {o' : Session} {rest : List UInt8} {result : Result}
    (hToken : token env (o, none) bytes = some ((o', none), rest))
    (h : Exhausts env o' rest result) : Exhausts env o bytes result := by
  obtain ⟨last, hReads, hStuck⟩ := h
  exact ⟨last, Relation.ReflTransGen.head hToken hReads, hStuck⟩

/-- Blanks that the state skips make no difference. -/
theorem Exhausts.of_sameInput {bytes' : List UInt8} {result : Result}
    (hSame : SameInput (reader env) (o, none) bytes bytes') (hLength : bytes.length ≤ bytes'.length)
    (h : Exhausts env o bytes result) : Exhausts env o bytes' result := by
  obtain ⟨last, hReads, hStuck⟩ := h
  cases Relation.ReflTransGen.cases_head hReads with
  | inl hEq =>
      obtain ⟨hStatus, rfl⟩ := Prod.mk.inj hEq
      obtain ⟨rfl, hEnding⟩ := Prod.mk.inj hStatus
      refine ⟨bytes', ?_, ?_⟩
      · rw [← hEnding]
      · intro hNone
        obtain ⟨hToken, hPending, hShort⟩ := hStuck hNone
        refine ⟨?_, hPending.trans hSame, Nat.le_trans hShort hLength⟩
        exact (hSame.token).symm.trans hToken
  | inr hStep =>
      obtain ⟨middle, hFirst, hRest⟩ := hStep
      have hFirst' : token env (o, none) bytes' = some middle := (hSame.token).symm.trans hFirst
      exact ⟨last, Relation.ReflTransGen.head hFirst' hRest, hStuck⟩

theorem Smooth.next {old : List UInt8} {o' : Session} {rest : List UInt8}
    (h : Smooth env old o bytes) (hToken : token env (o, none) bytes = some ((o', none), rest)) :
    Smooth env old o' rest :=
  fun last remaining hReads => h last remaining (Relation.ReflTransGen.head hToken hReads)

theorem Smooth.here {old : List UInt8} (h : Smooth env old o bytes) : Undisturbed env old o bytes :=
  h _ bytes Relation.ReflTransGen.refl rfl

/-- Bytes that the search for a separator passes over. -/
def Passed (front : List UInt8) : Prop := ∀ old bytes,
  findSeparator old (front ++ bytes) = (findSeparator old bytes).map (· + front.length)

/-- What holds when the loop looks for a field: in the state of a command, the
spaces are gone and a newline in front of a separator has been refused. -/
def Ready (o : Session) (bytes : List UInt8) : Prop :=
  firstReading o.scannerState = .field ∨
    (o.scannerState = .server ∧ bytes.dropWhile isSpace = bytes ∧
      ∀ raw rest, fieldToken bytes = some (raw, rest) → ch '\n' ∉ raw)

/-- The reading that belongs to the state of a session. -/
def Matches (o : Session) : Reading → Prop
  | .closing completion =>
      o.scannerState = .done ∧ completion.attached o.scannerInitState = false
  | .tags => o.scannerState = .pluginListTags ∧ o.currentPlugin.isSome
  | .value => o.scannerState = .preferenceValue
  | .command => o.scannerState = .server
  | .field => firstReading o.scannerState = .field

/-- What has been read agrees with the next token, or is blank. -/
def Follows (env : Env) (o : Session) (b : Buffer) : Step → Prop
  | .wait o' b' => o' = o ∧ token env (o, none) b.pending = none ∧ (∃ n, b' = b.drop n) ∧
      SameInput (reader env) (o, none) b'.pending b.pending
  | .stop o' ending _ => ∃ rest, token env (o, none) b.pending = some ((o', some ending), rest)
  | .go o' b' => Ready o' b'.pending ∧
      Passed (b.pending.take (b.pending.length - b'.pending.length)) ∧
      ((o' = o ∧ (∃ n, b' = b.drop n) ∧ SameInput (reader env) (o, none) b'.pending b.pending) ∨
        (token env (o, none) b.pending = some ((o', none), b'.pending) ∧
          ∃ n, 0 < n ∧ b' = b.drop n))

theorem passed_of_not_mem {front : List UInt8} (h : ch '<' ∉ front) : Passed front :=
  fun old bytes => findSeparator_skip h old bytes

theorem take_sub_drop {α : Type*} (l : List α) (n : Nat) :
    l.take (l.length - (l.drop n).length) = l.take n := by
  rw [List.length_drop]
  cases Nat.le_total n l.length with
  | inl hLe => rw [Nat.sub_sub_self hLe]
  | inr hGe => rw [List.take_of_length_le hGe, List.take_of_length_le (by omega)]

theorem take_length_takeWhile {α : Type*} (p : α → Bool) (l : List α) :
    l.take (l.takeWhile p).length = l.takeWhile p := by
  have hSplit := List.takeWhile_append_dropWhile (p := p) (l := l)
  exact (congrArg (List.take _) hSplit.symm).trans List.take_left

theorem not_open_of_isBlank {c : UInt8} (h : isBlank c = true) : c ≠ ch '<' := by
  rintro rfl
  revert h
  decide

theorem isBlank_of_isSpace {c : UInt8} (h : isSpace c = true) : isBlank c = true := by
  simp only [isSpace, decide_eq_true_eq] at h
  simp [isBlank, h]

theorem open_not_mem_takeWhile (bytes : List UInt8) : ch '<' ∉ bytes.takeWhile isBlank :=
  fun hMem => not_open_of_isBlank (List.mem_takeWhile_imp hMem) rfl

theorem sameInput_skip (b : Buffer) :
    SameInput (reader env) (o, none) (b.skip (blankIn o.scannerState)).pending b.pending := by
  rw [skip_pending]
  exact dropWhile_idem _ _

theorem drop_drop (b : Buffer) (m n : Nat) : (b.drop m).drop n = b.drop (m + n) := by
  simp only [Buffer.drop, List.drop_drop, Nat.add_assoc]

theorem parseScannerDone_none {b : Buffer} (h : closingToken b.pending = none) :
    parseScannerDone b = (.needMore, b.skip isBlank) := by
  simp only [closingToken] at h
  split at h
  · rename_i hShort
    simp only [parseScannerDone, skip_pending, if_pos hShort]
  · cases h

theorem parseScannerDone_some {b : Buffer} {found : Bool} {rest : List UInt8}
    (h : closingToken b.pending = some (found, rest)) :
    parseScannerDone b =
      if found then (.success, (b.skip isBlank).drop 6) else (.failure, b.skip isBlank) := by
  simp only [closingToken] at h
  split at h
  · cases h
  · rename_i hLong
    obtain ⟨rfl, -⟩ := Prod.mk.inj (Option.some.inj h)
    simp only [parseScannerDone, skip_pending, if_neg hLong]

/-- The closing word and the blanks in front of it hold no `<`. -/
theorem closingToken_passed {b : Buffer} {rest : List UInt8}
    (h : closingToken b.pending = some (true, rest)) :
    ((b.skip isBlank).drop 6).pending = rest ∧
      ch '<' ∉ b.pending.take ((b.pending.takeWhile isBlank).length + 6) := by
  simp only [closingToken] at h
  split at h
  · cases h
  · obtain ⟨hFound, rfl⟩ := Prod.mk.inj (Option.some.inj h)
    refine ⟨by rw [Buffer.drop, skip_pending], ?_⟩
    have hSplit := List.takeWhile_append_dropWhile (p := isBlank) (l := b.pending)
    have hTake : b.pending.take ((b.pending.takeWhile isBlank).length + 6) =
        b.pending.takeWhile isBlank ++ (b.pending.dropWhile isBlank).take 6 := by
      conv_lhs => arg 2; rw [← hSplit]
      rw [List.take_length_add_append]
    rw [hTake, List.mem_append]
    rintro (hBlank | hWord)
    · exact open_not_mem_takeWhile _ hBlank
    · have hLower : tolower (ch '<') ∈ (lit "SERVER").map tolower := by
        rw [of_decide_eq_true hFound]
        exact List.mem_map_of_mem hWord
      revert hLower
      decide

theorem parseLine_none {b : Buffer} (h : lineToken b.pending = none) :
    parseLine b = (none, b.skip isSpace) := by
  simp only [lineToken, Option.map_eq_none_iff] at h
  simp only [parseLine, skip_pending, h]

theorem parseLine_some {b : Buffer} {line rest : List UInt8}
    (h : lineToken b.pending = some (line, rest)) :
    parseLine b = (some line, (b.skip isSpace).drop (line.length + 1)) ∧
      ((b.skip isSpace).drop (line.length + 1)).pending = rest := by
  obtain ⟨hText, hLine⟩ := lineToken_split h
  constructor
  · simp only [parseLine, skip_pending, hText, strchr_append_cons hLine, List.take_left]
  · rw [Buffer.drop, skip_pending, hText, ← List.singleton_append, ← List.append_assoc]
    exact List.drop_left' (by simp)

/-- A line without a separator is passed over with its newline and the spaces
in front of it. -/
theorem lineToken_passed {bytes line rest : List UInt8} (h : lineToken bytes = some (line, rest))
    (hLine : findSeparator [] line = none) :
    Passed (bytes.take ((bytes.takeWhile isSpace).length + (line.length + 1))) := by
  have hSplit := List.takeWhile_append_dropWhile (p := isSpace) (l := bytes)
  have hTake : bytes.take ((bytes.takeWhile isSpace).length + (line.length + 1)) =
      bytes.takeWhile isSpace ++ (line ++ [ch '\n']) := by
    conv_lhs => arg 2; rw [← hSplit]
    rw [List.take_length_add_append, (lineToken_split h).1, ← List.singleton_append,
      ← List.append_assoc]
    congr 1
    exact List.take_left' (by simp)
  have hSpaces : ch '<' ∉ bytes.takeWhile isSpace := fun hMem =>
    not_open_of_isBlank (isBlank_of_isSpace (List.mem_takeWhile_imp hMem)) rfl
  rw [hTake]
  intro old more
  rw [List.append_assoc, List.append_assoc, List.singleton_append, findSeparator_skip hSpaces,
    findSeparator_skip_line hLine (by decide) (by decide) (by decide), Option.map_map]
  congr 1
  funext i
  simp only [Function.comp_apply, List.length_append, List.length_singleton]
  omega

theorem findSeparator_dropWhile (old bytes : List UInt8) {blank : UInt8 → Bool}
    (hBlank : ∀ c, blank c = true → isBlank c = true) :
    findSeparator old bytes =
      (findSeparator old (bytes.dropWhile blank)).map (· + (bytes.takeWhile blank).length) := by
  have hFront : ch '<' ∉ bytes.takeWhile blank := fun hMem =>
    not_open_of_isBlank (hBlank _ (List.mem_takeWhile_imp hMem)) rfl
  conv_lhs => rw [← List.takeWhile_append_dropWhile (p := blank) (l := bytes)]
  rw [findSeparator_skip hFront]

theorem isBlank_of_blankIn {state : ScannerState} {c : UInt8} (h : blankIn state c = true) :
    isBlank c = true := by
  cases state <;> first | exact h | exact isBlank_of_isSpace h | cases h

theorem token_of_closing (hState : o.scannerState = .done) :
    token env (o, none) bytes = (closingToken bytes).map fun (found, rest) =>
      (if found then (o.setScannerState .top, none) else failure o, rest) := by
  simp only [token, hState, firstReading]

theorem token_of_field
    (h : firstReading o.scannerState = .field ∨ firstReading o.scannerState = .command) :
    token env (o, none) bytes = readField env o bytes := by
  cases h with
  | inl h => simp only [token, h]
  | inr h => simp only [token, h]

theorem readField_eq_none_of_fieldToken
    (h : fieldToken (bytes.dropWhile (blankIn o.scannerState)) = none) :
    readField env o bytes = none := by
  rw [readField, h, Option.bind_none]

/-- A search that finds nothing, the old bytes included, finds no field. -/
theorem fieldToken_eq_none {old : List UInt8} (h : findSeparator old bytes = none) :
    fieldToken bytes = none := by
  cases hFind : findSeparator [] bytes with
  | none => rw [fieldToken, hFind, Option.map_none]
  | some i =>
      have hFound := findSeparator_append hFind old []
      rw [List.append_nil, h] at hFound
      cases hFound

theorem follows_closing {old : List UInt8} {completion : Completion} {b : Buffer}
    (h : Matches o (.closing completion)) :
    Follows env o b (readNext old o (.closing completion) b) := by
  obtain ⟨hState, hPlain⟩ := h
  have hToken : token env (o, none) b.pending = _ := token_of_closing hState
  have hSame : SameInput (reader env) (o, none) _ b.pending := sameInput_skip b
  rw [hState] at hSame
  cases hClosing : closingToken b.pending with
  | none =>
      rw [hClosing, Option.map_none] at hToken
      simp only [readNext, parseScannerDone_none hClosing]
      exact ⟨rfl, hToken, ⟨_, rfl⟩, hSame⟩
  | some pair =>
      obtain ⟨found, rest⟩ := pair
      rw [hClosing, Option.map_some] at hToken
      cases found with
      | false =>
          simp only [readNext, parseScannerDone_some hClosing]
          exact ⟨rest, hToken⟩
      | true =>
          have hPlainTop : completion.attached (o.setScannerState .top).scannerInitState = false :=
            hPlain
          obtain ⟨hPending, hOpen⟩ := closingToken_passed hClosing
          simp only [readNext, parseScannerDone_some hClosing, if_true,
            onDone_of_not_attached hPlainTop]
          refine ⟨Or.inl rfl, ?_, Or.inr ⟨?_, _, ?_, drop_drop b _ 6⟩⟩
          · rw [Buffer.skip, drop_drop, Buffer.drop, take_sub_drop]
            exact passed_of_not_mem hOpen
          · rw [hPending]
            exact hToken
          · omega

/-- The line behind a field, read into the session by `next`. -/
theorem follows_line {old : List UInt8} {reading : Reading} {b : Buffer}
    (next : Session → List UInt8 → Session) (hBlank : blankIn o.scannerState = isSpace)
    (hToken : token env (o, none) b.pending =
      (lineToken b.pending).map fun (line, rest) => ((next o line, none), rest))
    (hRead : readNext old o reading b = match parseLine b with
      | (none, b) => .wait o b
      | (some line, b) => .go (next o line) b)
    (hNext : ∀ line, firstReading (next o line).scannerState = .field)
    (hClean : ∀ line rest, lineToken b.pending = some (line, rest) →
      findSeparator [] line = none) :
    Follows env o b (readNext old o reading b) := by
  have hSame : SameInput (reader env) (o, none) _ b.pending := sameInput_skip b
  rw [hBlank] at hSame
  rw [hRead]
  cases hLine : lineToken b.pending with
  | none =>
      rw [hLine, Option.map_none] at hToken
      simp only [parseLine_none hLine]
      exact ⟨rfl, hToken, ⟨_, rfl⟩, hSame⟩
  | some pair =>
      obtain ⟨line, rest⟩ := pair
      obtain ⟨hParse, hPending⟩ := parseLine_some hLine
      rw [hLine, Option.map_some] at hToken
      simp only [hParse]
      refine ⟨Or.inl (hNext line), ?_, Or.inr ⟨?_, _, ?_, drop_drop b _ _⟩⟩
      · rw [Buffer.skip, drop_drop, Buffer.drop, take_sub_drop]
        exact lineToken_passed hLine (hClean line rest hLine)
      · rw [hPending]
        exact hToken
      · omega

theorem newline_not_mem_of_le {p raw rest : List UInt8} {newline separator : Nat}
    (hNewline : strchr p (ch '\n') = some newline) (hFind : findSeparator [] p = some separator)
    (hLe : ¬ newline < separator) (hRaw : fieldToken p = some (raw, rest)) : ch '\n' ∉ raw := by
  obtain ⟨before, after, rfl, hBefore, rfl⟩ := strchr_split hNewline
  rw [fieldToken, hFind, Option.map_some] at hRaw
  obtain ⟨rfl, -⟩ := Prod.mk.inj (Option.some.inj hRaw)
  intro hMem
  rw [List.take_append_of_le_length (by omega)] at hMem
  exact hBefore (List.mem_of_mem_take hMem)

theorem newline_mem_of_lt {p : List UInt8} {newline separator : Nat}
    (hNewline : strchr p (ch '\n') = some newline) (hLt : newline < separator) :
    ch '\n' ∈ p.take separator := by
  obtain ⟨before, after, rfl, -, rfl⟩ := strchr_split hNewline
  obtain ⟨k, rfl⟩ := Nat.exists_eq_add_of_lt hLt
  rw [Nat.add_assoc, List.take_length_add_append]
  exact List.mem_append_right _ (by simp)

theorem follows_command {old : List UInt8} {b : Buffer} (hState : o.scannerState = .server)
    (hQuiet : token env (o, none) b.pending = none → findSeparator old b.pending = none) :
    Follows env o b (readNext old o .command b) := by
  have hToken : token env (o, none) b.pending = readField env o b.pending :=
    token_of_field (Or.inr (by rw [hState]; rfl))
  have hSame : SameInput (reader env) (o, none) _ b.pending := sameInput_skip b
  rw [hState] at hSame
  have hPassed : Passed (b.pending.take (b.pending.length - (b.skip isSpace).pending.length)) := by
    rw [Buffer.skip, Buffer.drop, take_sub_drop, take_length_takeWhile]
    apply passed_of_not_mem
    exact fun hMem => not_open_of_isBlank (isBlank_of_isSpace (List.mem_takeWhile_imp hMem)) rfl
  have hGo : (∀ raw rest, fieldToken (b.pending.dropWhile isSpace) = some (raw, rest) →
      ch '\n' ∉ raw) → Follows env o b (.go o (b.skip isSpace)) := by
    intro hRaw
    refine ⟨Or.inr ⟨hState, ?_, ?_⟩, hPassed, Or.inl ⟨rfl, ⟨_, rfl⟩, hSame⟩⟩
    · rw [skip_pending, dropWhile_idem]
    · rw [skip_pending]
      exact hRaw
  simp only [readNext, parseScannerServer, skip_pending]
  cases hNewline : strchr (b.pending.dropWhile isSpace) (ch '\n') with
  | none =>
      apply hGo
      intro raw rest hField hMem
      obtain ⟨i, -, hPair⟩ := Option.map_eq_some_iff.mp hField
      obtain ⟨rfl, -⟩ := Prod.mk.inj hPair
      exact List.idxOf?_eq_none_iff.mp hNewline (List.mem_of_mem_take hMem)
  | some newline =>
      cases hFind : findSeparator old (b.pending.dropWhile isSpace) with
      | none =>
          refine ⟨rfl, ?_, ⟨_, rfl⟩, hSame⟩
          rw [hToken]
          apply readField_eq_none_of_fieldToken
          rw [hState]
          exact fieldToken_eq_none hFind
      | some separator =>
          -- Where the search finds something, the quiet end of the input is not reached.
          have hSome : ∃ i, findSeparator [] (b.pending.dropWhile isSpace) = some i := by
            cases hReal : findSeparator [] (b.pending.dropWhile isSpace) with
            | some i => exact ⟨i, rfl⟩
            | none =>
                have hStuck : token env (o, none) b.pending = none := by
                  rw [hToken]
                  apply readField_eq_none_of_fieldToken
                  rw [hState]
                  exact fieldToken_eq_none hReal
                have hNone := hQuiet hStuck
                rw [findSeparator_dropWhile old b.pending fun c => isBlank_of_isSpace, hFind] at hNone
                cases hNone
          obtain ⟨i, hReal⟩ := hSome
          have hEq : i = separator := by
            have hFound := findSeparator_append hReal old []
            rw [List.append_nil, hFind] at hFound
            exact (Option.some.inj hFound).symm
          subst hEq
          by_cases hLt : newline < i
          · simp only [if_pos hLt]
            refine ⟨(b.pending.dropWhile isSpace).drop (i + 3), ?_⟩
            have hField : fieldToken (b.pending.dropWhile (blankIn o.scannerState)) =
                some ((b.pending.dropWhile isSpace).take i,
                  (b.pending.dropWhile isSpace).drop (i + 3)) := by
              rw [hState]
              simp only [blankIn, fieldToken, hReal, Option.map_some]
            rw [hToken, readField, hField, Option.bind_some]
            simp only [hState, newline_mem_of_lt hNewline hLt, and_self, if_true]
            rfl
          · simp only [if_neg hLt]
            apply hGo
            intro raw rest hField
            exact newline_not_mem_of_le hNewline hReal hLt hField

/-- What is read behind a field agrees with the tokens of the stream. -/
theorem readNext_follows {old : List UInt8} {reading : Reading} {b : Buffer}
    (hMatch : Matches o reading) (h : Undisturbed env old o b.pending) :
    Follows env o b (readNext old o reading b) := by
  cases reading with
  | field =>
      refine ⟨Or.inl hMatch, ?_, Or.inl ⟨rfl, ⟨0, ?_⟩, rfl⟩⟩
      · rw [Nat.sub_self, List.take_zero]
        exact passed_of_not_mem List.not_mem_nil
      · simp [Buffer.drop]
  | closing completion => exact follows_closing hMatch
  | command => exact follows_command hMatch (h.separator (Or.inr (by rw [hMatch]; rfl)))
  | tags =>
      obtain ⟨hState, hPlugin⟩ := hMatch
      have hFirst : firstReading o.scannerState = .tags := by rw [hState]; rfl
      refine follows_line onPluginListTags (by rw [hState]; rfl) ?_ ?_ ?_
        (h.line (Or.inl hFirst))
      · simp only [token, hFirst]
      · have hSome : ¬ o.currentPlugin.isNone = true := by
          rw [Option.isNone_eq_false_iff.mpr hPlugin]
          decide
        exact if_neg hSome
      · intro line
        cases hCase : o.currentPlugin <;>
          simp [onPluginListTags, hCase, Session.setScannerState, firstReading]
  | value =>
      have hFirst : firstReading o.scannerState = .value := by rw [hMatch]; rfl
      refine follows_line onPreferenceValue (by rw [hMatch]; rfl) ?_ rfl ?_
        (h.line (Or.inr hFirst))
      · simp only [token, hFirst]
      · intro line
        rfl

theorem Undisturbed.of_sameInput {old bytes' : List UInt8}
    (hSame : SameInput (reader env) (o, none) bytes bytes') (h : Undisturbed env old o bytes) :
    Undisturbed env old o bytes' := by
  have hTrim : bytes.dropWhile (blankIn o.scannerState) =
      bytes'.dropWhile (blankIn o.scannerState) := hSame
  refine ⟨?_, ?_, ?_⟩
  · intro hTop
    have hLogin := h.login hTop
    rw [hTop] at hTrim
    simp only [blankIn] at hTrim
    rw [← hTrim]
    exact hLogin
  · intro hLine line rest hToken
    refine h.line hLine line rest ?_
    have hBlank : blankIn o.scannerState = isSpace := by
      cases hState : o.scannerState <;> simp [firstReading, hState] at hLine ⊢ <;> rfl
    rw [hBlank] at hTrim
    rw [← hToken, lineToken, hTrim, lineToken]
  · intro hField hToken
    have hNone := h.separator hField (hSame.token.trans hToken)
    rw [findSeparator_dropWhile old bytes fun c => isBlank_of_blankIn, hTrim,
      Option.map_eq_none_iff] at hNone
    rw [findSeparator_dropWhile old bytes' fun c => isBlank_of_blankIn, hNone, Option.map_none]

theorem Smooth.of_sameInput {old bytes' : List UInt8}
    (hSame : SameInput (reader env) (o, none) bytes bytes') (h : Smooth env old o bytes) :
    Smooth env old o bytes' :=
  guarded_of_sameInput hSame (fun _ => h.here.of_sameInput hSame) h

/-- `next` reads on from wherever the reading behind a field has come to. -/
theorem Follows.exhausts {old : List UInt8} {b : Buffer} {step : Step}
    {next : Session → Buffer → Result} (h : Follows env o b step)
    (hSmooth : Smooth env old o b.pending)
    (hRoom : token env (o, none) b.pending = none → Room b)
    (hNext : ∀ o' b', Ready o' b'.pending →
      Passed (b.pending.take (b.pending.length - b'.pending.length)) →
      b'.pending.length ≤ b.pending.length → Smooth env old o' b'.pending →
      (token env (o', none) b'.pending = none → Room b') →
      Exhausts env o' b'.pending (next o' b')) :
    Exhausts env o b.pending (step.resume next) := by
  cases step with
  | wait o' b' =>
      obtain ⟨rfl, hToken, ⟨n, rfl⟩, hSame⟩ := h
      refine exhausts_wait ((hRoom hToken).drop n) hToken hSame ?_
      simp [Buffer.drop]
  | stop o' ending b' =>
      obtain ⟨rest, hToken⟩ := h
      exact exhausts_stop hToken
  | go o' b' =>
      obtain ⟨hReady, hPassed, hCase⟩ := h
      cases hCase with
      | inl hBlank =>
          obtain ⟨rfl, ⟨n, rfl⟩, hSame⟩ := hBlank
          have hLength : (b.drop n).pending.length ≤ b.pending.length := by simp [Buffer.drop]
          have hSmooth' : Smooth env old o' (b.drop n).pending := hSmooth.of_sameInput hSame.symm
          refine (hNext o' (b.drop n) hReady hPassed hLength hSmooth' ?_).of_sameInput hSame hLength
          intro hToken
          exact (hRoom (hSame.token.symm.trans hToken)).drop n
      | inr hRead =>
          obtain ⟨hToken, n, hPositive, rfl⟩ := hRead
          have hLength : (b.drop n).pending.length ≤ b.pending.length := by simp [Buffer.drop]
          exact exhausts_token hToken
            (hNext o' (b.drop n) hReady hPassed hLength (hSmooth.next hToken)
              fun _ => room_drop hPositive)

theorem onDone_scannerState (completion : Completion) (o : Session) :
    (onDone completion o).1.scannerState = o.scannerState := by
  cases completion with
  | nothing => rfl
  | bye => rfl
  | nvtInfo =>
      simp only [onDone]
      split <;> rfl
  | preferences =>
      simp only [onDone]
      split <;> rfl
  | pluginList =>
      simp only [onDone]
      split
      · cases o.pluginsFeedVersion <;> rfl
      · rfl

theorem strcaseeq_server_short {raw : List UInt8} (h : (raw.dropWhile isBlank).length ≤ 1) :
    strcaseeq (lit "SERVER") (fieldText raw) = false := by
  have hStrip : (openvasStripSpace raw).length ≤ 1 := by
    simp only [openvasStripSpace]
    split
    · exact Nat.zero_le 1
    · exact Nat.le_trans (List.rdropWhile_prefix _ _).length_le h
  have hText : (fieldText raw).length ≤ 1 := by
    rw [fieldText, blankControlChars, List.length_map]
    exact Nat.le_trans (List.takeWhile_prefix _).length_le hStrip
  rw [strcaseeq, decide_eq_false_iff_not]
  intro hEq
  have hLength := congrArg List.length hEq
  rw [List.length_map, List.length_map] at hLength
  have hSix : (lit "SERVER").length = 6 := rfl
  omega

/-- Blanks in front of a field do not matter to the case that compares it with
`SERVER`. -/
theorem strcaseeq_server_blank {blanks raw : List UInt8} (h : ∀ c ∈ blanks, isBlank c = true) :
    strcaseeq (lit "SERVER") (fieldText (blanks ++ raw)) =
      strcaseeq (lit "SERVER") (fieldText raw) := by
  have hDrop : (blanks ++ raw).dropWhile isBlank = raw.dropWhile isBlank :=
    List.dropWhile_append_of_pos h
  by_cases hShort : (raw.dropWhile isBlank).length ≤ 1
  · rw [strcaseeq_server_short hShort, strcaseeq_server_short (by rw [hDrop]; exact hShort)]
  · have hStrip : openvasStripSpace (blanks ++ raw) = openvasStripSpace raw := by
      simp only [openvasStripSpace, hDrop]
      rw [if_neg fun hBoth => hShort hBoth.2, if_neg fun hBoth => hShort hBoth.2]
    rw [fieldText, hStrip, fieldText]

/-- The blanks that a state skips do not matter to its case. -/
theorem onField_blank {raw : List UInt8} (h : firstReading o.scannerState = .field) :
    onField env o (fieldText (bytes.takeWhile (blankIn o.scannerState) ++ raw)) =
      onField env o (fieldText raw) := by
  by_cases hTop : o.scannerState = .top
  · have hBlanks : ∀ c ∈ bytes.takeWhile isBlank, isBlank c = true :=
      fun c hMem => List.mem_takeWhile_imp hMem
    simp only [onField, hTop, blankIn, strcaseeq_server_blank hBlanks]
  · have hNone : blankIn o.scannerState = fun _ => false := by
      cases hState : o.scannerState <;> simp [firstReading, hState] at h hTop ⊢ <;> rfl
    have hNil : bytes.takeWhile (blankIn o.scannerState) = [] := by
      rw [hNone]
      cases bytes <;> rfl
    rw [hNil, List.nil_append]

/-- A field of the loop: where the search finds it, and the token it belongs to. -/
theorem exists_field (old : List UInt8) {behind : List UInt8} {b : Buffer} {status : Status} {rest' : List UInt8}
    (hReady : Ready o b.pending) (hPassed : Passed behind)
    (hToken : token env (o, none) b.pending = some (status, rest')) :
    ∃ n rest, findSeparator old (behind ++ b.pending) = some (n + behind.length) ∧
      n + 3 ≤ b.pending.length ∧ (b.drop (n + 3)).pending = rest ∧
      afterField (onField env o (fieldText (b.pending.take n))) rest = some (status, rest') := by
  have hFirst : firstReading o.scannerState = .field ∨ firstReading o.scannerState = .command := by
    cases hReady with
    | inl hField => exact Or.inl hField
    | inr hServer => exact Or.inr (by rw [hServer.1]; rfl)
  rw [token_of_field hFirst] at hToken
  obtain ⟨⟨raw, rest⟩, hField, hAfter⟩ := Option.bind_eq_some_iff.mp hToken
  obtain ⟨i, hFind, hPair⟩ := Option.map_eq_some_iff.mp hField
  obtain ⟨rfl, rfl⟩ := Prod.mk.inj hPair
  let front := b.pending.takeWhile (blankIn o.scannerState)
  let text := b.pending.dropWhile (blankIn o.scannerState)
  have hSplit : front ++ text = b.pending := List.takeWhile_append_dropWhile
  have hLong : i + 3 ≤ text.length := findSeparator_length hFind
  have hTake : b.pending.take (front.length + i) = front ++ text.take i := by
    conv_lhs => arg 2; rw [← hSplit]
    exact List.take_length_add_append i
  refine ⟨front.length + i, text.drop (i + 3), ?_, ?_, ?_, ?_⟩
  · have hOld : findSeparator old text = some i := by
      have hFound := findSeparator_append hFind old []
      rwa [List.append_nil] at hFound
    rw [hPassed, findSeparator_dropWhile old b.pending fun c => isBlank_of_blankIn, hOld,
      Option.map_some, Option.map_some, Nat.add_comm i]
  · rw [← hSplit, List.length_append]
    omega
  · simp only [Buffer.drop]
    conv_lhs => arg 2; rw [← hSplit]
    rw [Nat.add_assoc, List.drop_length_add_append]
  · rw [hTake]
    cases hReady with
    | inl hState =>
        rw [onField_blank hState]
        have hNot : ¬ (o.scannerState = .server ∧ ch '\n' ∈ text.take i) := by
          rintro ⟨hServer, -⟩
          rw [hServer] at hState
          cases hState
        exact (if_neg hNot).symm.trans hAfter
    | inr hServer =>
        obtain ⟨hState, hTrim, hNewline⟩ := hServer
        have hText : text = b.pending := by
          simp only [text, hState]
          exact hTrim
        have hFront : front = [] := by
          have hLength := congrArg List.length hSplit
          rw [hText, List.length_append] at hLength
          exact List.length_eq_zero_iff.mp (by omega)
        have hNot : ¬ (o.scannerState = .server ∧ ch '\n' ∈ text.take i) := by
          rintro ⟨-, hMem⟩
          refine hNewline (text.take i) (text.drop (i + 3)) ?_ hMem
          rw [← hText]
          exact hField
        rw [hFront, List.nil_append]
        exact (if_neg hNot).symm.trans hAfter

/-- What a case of the switch asks for belongs to the state it has set. -/
theorem matches_of_fits {o' : Session} {reading : Reading} (h : (Next.read o' reading).Fits)
    (hClosing : ∀ completion, reading = .closing completion →
      completion.attached o'.scannerInitState = false)
    (hPlugin : reading = .tags → o'.currentPlugin.isSome) : Matches o' reading := by
  cases reading with
  | field =>
      have hState : o'.scannerState ∉
          [.done, .pluginListTags, .preferenceValue, .server, ScannerState.top] := h
      show firstReading o'.scannerState = .field
      cases hCase : o'.scannerState <;> simp [hCase] at hState <;> rfl
  | closing completion => exact ⟨h, hClosing completion rfl⟩
  | tags => exact ⟨h, hPlugin rfl⟩
  | value => exact h
  | command => exact h

theorem afterField_plain {o' : Session} {reading : Reading}
    (hClosing : ¬ ∃ completion, reading = .closing completion ∧
      completion.attached o'.scannerInitState = true)
    (hPlugin : ¬ (reading = .tags ∧ o'.currentPlugin.isNone)) (rest : List UInt8) :
    afterField (.read o' reading) rest = some ((o', none), rest) := by
  cases reading with
  | field => rfl
  | value => rfl
  | command => rfl
  | tags => exact if_neg fun hNone => hPlugin ⟨rfl, hNone⟩
  | closing completion => exact if_neg fun hAttached => hClosing ⟨completion, rfl, hAttached⟩

/-- A field whose message is completed in the same call. -/
theorem exhausts_attached {old : List UInt8} {b : Buffer} {o' : Session} {completion : Completion}
    {next : Session → Buffer → Result} {pending : List UInt8} {status : Status}
    {rest' : List UInt8} (hAttached : completion.attached o'.scannerInitState = true)
    (hAfter : afterField (.read o' (.closing completion)) b.pending = some (status, rest'))
    (hToken : token env (o, none) pending = some (status, rest'))
    (hSmooth : Smooth env old o pending)
    (hNext : ∀ o'' b', Ready o'' b'.pending →
      Passed (b.pending.take (b.pending.length - b'.pending.length)) →
      b'.pending.length ≤ b.pending.length → Smooth env old o'' b'.pending → Room b' →
      Exhausts env o'' b'.pending (next o'' b')) :
    Exhausts env o pending ((readNext old o' (.closing completion) b).resume next) := by
  simp only [afterField, if_pos hAttached] at hAfter
  obtain ⟨⟨found, rest⟩, hClosing, hEq⟩ := Option.map_eq_some_iff.mp hAfter
  obtain ⟨rfl, rfl⟩ := Prod.mk.inj hEq
  cases found with
  | false =>
      simp only [readNext, parseScannerDone_some hClosing]
      exact exhausts_stop hToken
  | true =>
      obtain ⟨hPending, hOpen⟩ := closingToken_passed hClosing
      simp only [readNext, parseScannerDone_some hClosing, if_true]
      have hState := onDone_scannerState completion (o'.setScannerState .top)
      simp only [if_true] at hToken
      cases hDone : onDone completion (o'.setScannerState .top) with
      | mk o'' ending =>
          rw [hDone] at hToken hState
          cases ending with
          | some ending => exact exhausts_stop hToken
          | none =>
              refine exhausts_token hToken ?_
              rw [← hPending]
              refine hNext o'' _ (Or.inl ?_) ?_ ?_ ?_ ?_
              · rw [show o''.scannerState = .top from hState]
                rfl
              · rw [Buffer.skip, drop_drop, Buffer.drop, take_sub_drop]
                exact passed_of_not_mem hOpen
              · simp [Buffer.skip, Buffer.drop]
              · rw [hPending]
                exact hSmooth.next hToken
              · rw [Buffer.skip, drop_drop]
                exact room_drop (by omega)

/-- The loop reads every token that is there. -/
theorem processFields_exhausts {old : List UInt8} (fuel : Nat) {o : Session} {behind : List UInt8}
    {b : Buffer} (hFuel : b.pending.length < fuel) (hReady : Ready o b.pending)
    (hPassed : Passed behind) (hSmooth : Smooth env old o b.pending)
    (hRoom : token env (o, none) b.pending = none → Room b) :
    Exhausts env o b.pending (processFields env old fuel o behind b) := by
  induction fuel generalizing o behind b with
  | zero => omega
  | succ fuel ih =>
      have hFirst : firstReading o.scannerState = .field ∨ firstReading o.scannerState = .command := by
        cases hReady with
        | inl hField => exact Or.inl hField
        | inr hServer => exact Or.inr (by rw [hServer.1]; rfl)
      cases hToken : token env (o, none) b.pending with
      | none =>
          have hNone : findSeparator old (behind ++ b.pending) = none := by
            rw [hPassed, hSmooth.here.separator hFirst hToken, Option.map_none]
          simp only [processFields, hNone]
          exact exhausts_wait (hRoom hToken) hToken rfl (Nat.le_refl _)
      | some pair =>
          obtain ⟨status, rest'⟩ := pair
          obtain ⟨n, rest, hFind, hLong, hRest, hAfter⟩ := exists_field old hReady hPassed hToken
          have hBack : ¬ n + behind.length < behind.length := by omega
          have hOverrun : ¬ b.pending.length < n + 3 := by omega
          have hShort : rest.length < fuel := by
            rw [← hRest, Buffer.drop, List.length_drop]
            omega
          simp only [processFields, hFind, if_neg hBack, Nat.add_sub_cancel]
          have hFits := onField_fits env o (fieldText (b.pending.take n))
          cases hNext : onField env o (fieldText (b.pending.take n)) with
          | fail o' =>
              rw [hNext] at hAfter
              obtain ⟨rfl, rfl⟩ := Prod.mk.inj (Option.some.inj hAfter)
              exact exhausts_stop hToken
          | fault o' fault =>
              rw [hNext] at hAfter
              obtain ⟨rfl, rfl⟩ := Prod.mk.inj (Option.some.inj hAfter)
              exact exhausts_stop hToken
          | read o' reading =>
              rw [hNext] at hAfter hFits
              subst hRest
              simp only [if_neg hOverrun]
              have hRoom' : Room (b.drop (n + 3)) := room_drop (by omega)
              by_cases hAttached : ∃ completion, reading = .closing completion ∧
                  completion.attached o'.scannerInitState = true
              · obtain ⟨completion, rfl, hAttached⟩ := hAttached
                refine exhausts_attached hAttached hAfter hToken hSmooth ?_
                intro o'' b' hReady' hPassed' hLe hSmooth' hRoom''
                exact ih (by omega) hReady' hPassed' hSmooth' fun _ => hRoom''
              · by_cases hPlugin : reading = .tags ∧ o'.currentPlugin.isNone
                · obtain ⟨rfl, hNone⟩ := hPlugin
                  simp only [afterField, if_pos hNone] at hAfter
                  obtain ⟨rfl, rfl⟩ := Prod.mk.inj (Option.some.inj hAfter)
                  simp only [readNext, if_pos hNone]
                  exact exhausts_stop hToken
                · have hPlain := afterField_plain hAttached hPlugin (b.drop (n + 3)).pending
                  rw [hPlain] at hAfter
                  obtain ⟨rfl, rfl⟩ := Prod.mk.inj (Option.some.inj hAfter)
                  have hMatch : Matches o' reading := by
                    refine matches_of_fits hFits ?_ ?_
                    · intro completion hEq
                      exact Bool.eq_false_iff.mpr fun hTrue => hAttached ⟨completion, hEq, hTrue⟩
                    · intro hTags
                      exact Option.isSome_iff_ne_none.mpr fun hNone =>
                        hPlugin ⟨hTags, by rw [hNone]; rfl⟩
                  have hSmooth' := hSmooth.next hToken
                  refine exhausts_token hToken ?_
                  refine (readNext_follows hMatch hSmooth'.here).exhausts hSmooth' (fun _ => hRoom') ?_
                  intro o'' b' hReady' hPassed' hLe hSmooth'' hRoom''
                  exact ih (by omega) hReady' hPassed' hSmooth'' hRoom''

theorem dropWhile_isBlank_isSpace (l : List UInt8) :
    (l.dropWhile isSpace).dropWhile isBlank = l.dropWhile isBlank := by
  induction l with
  | nil => rfl
  | cons c l ih =>
      cases hSpace : isSpace c with
      | true => simpa [hSpace, isBlank_of_isSpace hSpace] using ih
      | false => simp [hSpace]

theorem parseScannerBadLogin_fst (old : List UInt8) (b : Buffer) :
    (parseScannerBadLogin old b).1 = ((strchr (b.pending.dropWhile isSpace) (ch '\n')).isSome &&
      strcaseeq (lit "Bad login attempt !") ((b.pending.dropWhile isSpace ++ old).take 19)) := by
  simp only [parseScannerBadLogin, skip_pending]
  cases strchr (b.pending.dropWhile isSpace) (ch '\n') with
  | none => rfl
  | some n =>
      simp only [Option.isSome_some, Bool.true_and]
      split
      · rename_i hLogin
        exact hLogin.symm
      · rename_i hLogin
        exact (Bool.eq_false_iff.mpr hLogin).symm

theorem parseScannerBadLogin_of_false {old : List UInt8} {b : Buffer}
    (h : (parseScannerBadLogin old b).1 = false) :
    parseScannerBadLogin old b = (false, b.skip isSpace) := by
  simp only [parseScannerBadLogin] at h ⊢
  cases hNewline : strchr (b.skip isSpace).pending (ch '\n') with
  | none => rfl
  | some n =>
      simp only [hNewline] at h ⊢
      split at h
      · cases h
      · rename_i hLogin
        rw [if_neg hLogin]

/-- A refused login starts with a letter, so blanks in front of it are spaces. -/
theorem badLogin_of_blank {old : List UInt8} {b : Buffer} (h : (parseScannerBadLogin old b).1 = true) :
    (parseScannerBadLogin old ⟨0, b.pending.dropWhile isBlank⟩).1 = true := by
  rw [parseScannerBadLogin_fst] at h ⊢
  cases hText : b.pending.dropWhile isSpace with
  | nil =>
      rw [hText] at h
      cases h
  | cons c text =>
      have hLetter : tolower c = ch 'b' := by
        rw [hText, Bool.and_eq_true, strcaseeq, decide_eq_true_eq, List.cons_append,
          List.take_succ_cons, List.map_cons] at h
        have hHead : (some (ch 'b')) = some (tolower c) := congrArg List.head? h.2
        exact (Option.some.inj hHead).symm
      have hNotBlank : isBlank c = false := by
        rw [Bool.eq_false_iff]
        intro hBlank
        simp only [isBlank, Bool.or_eq_true, decide_eq_true_eq] at hBlank
        rcases hBlank with rfl | rfl <;> revert hLetter <;> decide
      have hSame : b.pending.dropWhile isBlank = b.pending.dropWhile isSpace := by
        rw [← dropWhile_isBlank_isSpace, hText, List.dropWhile_cons_of_neg (by simp [hNotBlank])]
      rw [hSame, dropWhile_idem]
      exact h

/-- The statuses with which another process asks for something. -/
def TaskStatus.isRequest : TaskStatus → Bool
  | .pauseRequested | .resumeRequested | .stopRequestedGiveup | .stopRequested | .deleteRequested
  | .deleteUltimateRequested => true
  | _ => false

/-- No request waits to be passed on to the scanner. -/
def Session.Settled (o : Session) : Prop :=
  o.currentScannerTask = 0 ∨ o.taskRunStatus.isRequest = false

theorem manageCheckCurrentTask_of_settled (h : o.Settled) :
    manageCheckCurrentTask o = (o, none) := by
  rw [manageCheckCurrentTask]
  cases h with
  | inl hTask => rw [if_pos hTask]
  | inr hStatus =>
      split
      · rfl
      · cases hCase : o.taskRunStatus <;> rw [hCase] at hStatus <;> first | rfl | cases hStatus

theorem settled_of_manageCheckCurrentTask {o' : Session}
    (h : manageCheckCurrentTask o = (o', none)) : o'.Settled := by
  rw [manageCheckCurrentTask] at h
  split at h
  · rename_i hTask
    obtain ⟨rfl, -⟩ := Prod.mk.inj h
    exact Or.inl hTask
  · cases hCase : o.taskRunStatus <;> rw [hCase] at h <;> obtain ⟨rfl, hFault⟩ := Prod.mk.inj h <;>
      first | exact Or.inr rfl | (exact Or.inr (by rw [hCase]; rfl)) | cases hFault

/-- A session as it is between two calls: a request from another process has
been passed on, and the tags of a plugin belong to one. -/
structure Sound (o : Session) : Prop where
  settled : o.Settled
  plugin : o.scannerState = .pluginListTags → o.currentPlugin.isSome

theorem matches_firstReading (h : Sound o) : Matches o (firstReading o.scannerState) := by
  cases hState : o.scannerState
  case pluginListTags => exact ⟨hState, h.plugin hState⟩
  case done => exact ⟨hState, rfl⟩
  case server => exact hState
  case preferenceValue => exact hState
  all_goals
    show firstReading o.scannerState = .field
    rw [hState]
    rfl

theorem processMessages_exhausts {old : List UInt8} {b : Buffer} (hSound : Sound o)
    (hSmooth : Smooth env old o b.pending)
    (hRoom : token env (o, none) b.pending = none → Room b) :
    Exhausts env o b.pending (processMessages env old o b) := by
  refine (readNext_follows (matches_firstReading hSound) hSmooth.here).exhausts hSmooth hRoom ?_
  intro o' b' hReady _ _ hSmooth' hRoom'
  exact processFields_exhausts _ (Nat.lt_succ_self _) hReady
    (passed_of_not_mem List.not_mem_nil) hSmooth' hRoom'

/-- One call reads every token that has arrived. -/
theorem processOtpScannerInput_exhausts {old : List UInt8} {b : Buffer} (hSound : Sound o)
    (hInit : o.scannerInitState.receiving = true) (hSmooth : Smooth env old o b.pending)
    (hRoom : token env (o, none) b.pending = none → Room b) :
    Exhausts env o b.pending (processOtpScannerInput env old o b) := by
  simp only [processOtpScannerInput, manageCheckCurrentTask_of_settled hSound.settled]
  by_cases hTop : o.scannerState = .top
  · have hLogin : parseScannerBadLogin old b = (false, b.skip isSpace) := by
      apply parseScannerBadLogin_of_false
      rw [Bool.eq_false_iff]
      intro hTrue
      have hFalse := hSmooth.here.login hTop
      rw [badLogin_of_blank hTrue] at hFalse
      cases hFalse
    have hSame : SameInput (reader env) (o, none) (b.skip isSpace).pending b.pending := by
      rw [skip_pending]
      show (b.pending.dropWhile isSpace).dropWhile (blankIn o.scannerState) =
        b.pending.dropWhile (blankIn o.scannerState)
      rw [hTop]
      exact dropWhile_isBlank_isSpace b.pending
    have hLength : (b.skip isSpace).pending.length ≤ b.pending.length := by
      rw [skip_pending]
      exact (List.dropWhile_suffix _).length_le
    have hMessages : Exhausts env o b.pending (processMessages env old o (b.skip isSpace)) := by
      refine (processMessages_exhausts hSound (hSmooth.of_sameInput hSame.symm) ?_).of_sameInput
        hSame hLength
      intro hToken
      exact (hRoom (hSame.token.symm.trans hToken)).drop _
    rw [if_pos hTop, hLogin]
    cases hCase : o.scannerInitState <;> rw [hCase] at hInit <;>
      first | exact hMessages | cases hInit
  · have hMessages := processMessages_exhausts hSound hSmooth hRoom
    rw [if_neg hTop]
    cases hCase : o.scannerInitState <;> rw [hCase] at hInit <;>
      first | exact hMessages | cases hInit

end Otp
