import OpenVAS.Lib.Incremental
import OpenVAS.Otp.Input

/-! The parser without its buffer: what it takes off the front of the input in
each state, as a reader of tokens. The closing `SERVER` belongs to the token of
the last field exactly when an effect hangs on finding both in one call. -/
namespace Otp

open CString

/-- A session, and how it ended if it has. -/
abbrev Status := Session × Option Ending

/-- Whether something happens when the closing `SERVER` is found. -/
def Completion.attached (init : InitState) : Completion → Bool
  | .nothing => false
  | .bye | .nvtInfo => true
  | .pluginList => init = .sentCompleteList || init = .sentCompleteListUpdate
  | .preferences => init = .doneCacheMode || init = .doneCacheModeUpdate

theorem onDone_of_not_attached {completion : Completion} {o : Session}
    (h : completion.attached o.scannerInitState = false) : onDone completion o = (o, none) := by
  cases completion with
  | nothing => rfl
  | bye => cases h
  | nvtInfo => cases h
  | pluginList =>
      simp only [Completion.attached, Bool.or_eq_false_iff, decide_eq_false_iff_not] at h
      simp [onDone, h]
  | preferences =>
      simp only [Completion.attached, Bool.or_eq_false_iff, decide_eq_false_iff_not] at h
      simp [onDone, h]

/-- The blanks that a state skips. -/
def blankIn : ScannerState → UInt8 → Bool
  | .top | .done => isBlank
  | .server | .pluginListTags | .preferenceValue => isSpace
  | _ => fun _ => false

/-- Six bytes behind blanks, and whether they are `SERVER`. -/
def closingToken (bytes : List UInt8) : Option (Bool × List UInt8) :=
  let bytes := bytes.dropWhile isBlank
  if bytes.length < 6 then none
  else some (strcaseeq (lit "SERVER") (bytes.take 6), bytes.drop 6)

/-- A line behind spaces. -/
def lineToken (bytes : List UInt8) : Option (List UInt8 × List UInt8) :=
  let bytes := bytes.dropWhile isSpace
  (strchr bytes (ch '\n')).map fun n => (bytes.take n, bytes.drop (n + 1))

/-- The bytes in front of a separator. -/
def fieldToken (bytes : List UInt8) : Option (List UInt8 × List UInt8) :=
  (findSeparator [] bytes).map fun i => (bytes.take i, bytes.drop (i + 3))

def failure (o : Session) : Status := (o, some (.returned (-1)))

/-- What a field leads to, with the closing `SERVER` where an effect hangs on it. -/
def afterField (next : Next) (rest : List UInt8) : Option (Status × List UInt8) :=
  match next with
  | .fail o => some (failure o, rest)
  | .fault o fault => some ((o, some (.faulted fault)), rest)
  | .read o (.closing completion) =>
      if completion.attached o.scannerInitState then
        (closingToken rest).map fun (found, rest) =>
          (if found then onDone completion (o.setScannerState .top) else failure o, rest)
      else some ((o, none), rest)
  | .read o .tags =>
      if o.currentPlugin.isNone then some ((o, some (.faulted (.assertion .currentPlugin))), rest)
      else some ((o, none), rest)
  | .read o .field | .read o .value | .read o .command => some ((o, none), rest)

/-- A field with what it leads to. A command does not go over a newline. -/
def readField (env : Env) (o : Session) (bytes : List UInt8) : Option (Status × List UInt8) :=
  (fieldToken (bytes.dropWhile (blankIn o.scannerState))).bind fun (raw, rest) =>
    if o.scannerState = .server ∧ ch '\n' ∈ raw then some (failure o, rest)
    else afterField (onField env o (fieldText raw)) rest

def token (env : Env) : Status → List UInt8 → Option (Status × List UInt8)
  | (_, some _), _ => none
  | (o, none), bytes =>
      match firstReading o.scannerState with
      | .closing _ =>
          (closingToken bytes).map fun (found, rest) =>
            (if found then (o.setScannerState .top, none) else failure o, rest)
      | .tags => (lineToken bytes).map fun (line, rest) => ((onPluginListTags o line, none), rest)
      | .value => (lineToken bytes).map fun (line, rest) => ((onPreferenceValue o line, none), rest)
      | .field | .command => readField env o bytes

/-! What the searches find. -/

@[simp]
theorem findSeparator_nil (old : List UInt8) : findSeparator old [] = none := rfl

theorem findSeparator_length {bytes : List UInt8} {i : Nat} (h : findSeparator [] bytes = some i) :
    i + 3 ≤ bytes.length := by
  induction bytes generalizing i with
  | nil => cases h
  | cons c rest ih =>
      rw [findSeparator] at h
      split at h
      · rename_i hHere
        rw [List.append_nil] at hHere
        obtain ⟨hLength, _⟩ := List.getElem?_eq_some_iff.mp hHere.2.2
        simp only [Option.some.injEq] at h
        simp only [List.length_cons]
        omega
      · obtain ⟨j, hj, rfl⟩ := Option.map_eq_some_iff.mp h
        have := ih hj
        simp only [List.length_cons]
        omega

/-- A separator is found wherever more bytes or old ones follow it. -/
theorem findSeparator_append {bytes : List UInt8} {i : Nat} (h : findSeparator [] bytes = some i)
    (old more : List UInt8) : findSeparator old (bytes ++ more) = some i := by
  induction bytes generalizing i with
  | nil => cases h
  | cons c rest ih =>
      rw [findSeparator] at h
      split at h
      · rename_i hHere
        rw [List.append_nil] at hHere
        obtain ⟨hLength, hThird⟩ := List.getElem?_eq_some_iff.mp hHere.2.2
        rw [List.cons_append, findSeparator, if_pos, h]
        refine ⟨hHere.1, ?_, ?_⟩
        · cases rest with
          | nil => cases hHere.2.1
          | cons d rest => exact hHere.2.1
        · rw [List.append_assoc, List.getElem?_append_left hLength]
          exact hHere.2.2
      · rename_i hNot
        obtain ⟨j, hj, rfl⟩ := Option.map_eq_some_iff.mp h
        have hFound : findSeparator old (rest ++ more) = some j := ih hj
        have hLong : j + 3 ≤ rest.length := findSeparator_length hj
        rw [List.cons_append, findSeparator, if_neg, hFound]
        · rfl
        · intro hHere
          refine hNot ⟨hHere.1, ?_, ?_⟩
          · cases rest with
            | nil => simp at hLong
            | cons d rest => exact hHere.2.1
          · rw [List.append_nil]
            have hSecond : 1 < rest.length := by omega
            rw [← hHere.2.2, List.append_assoc, List.getElem?_append_left hSecond]

/-- Bytes without a `<` are passed over. -/
theorem findSeparator_skip {front : List UInt8} (h : ch '<' ∉ front) (old bytes : List UInt8) :
    findSeparator old (front ++ bytes) = (findSeparator old bytes).map (· + front.length) := by
  induction front with
  | nil => simp
  | cons c front ih =>
      have hc : c ≠ ch '<' := fun hEq => h (hEq ▸ List.mem_cons_self)
      rw [List.cons_append, findSeparator, if_neg (fun hHere => hc hHere.1),
        ih (fun hMem => h (List.mem_cons_of_mem _ hMem)), Option.map_map]
      rfl

/-- A text without a separator, followed by a byte that no separator continues
with, is passed over. -/
theorem findSeparator_skip_line {line : List UInt8} (h : findSeparator [] line = none) {c : UInt8}
    (hBar : c ≠ ch '|') (hClose : c ≠ ch '>') (hOpen : c ≠ ch '<') (old bytes : List UInt8) :
    findSeparator old (line ++ c :: bytes) =
      (findSeparator old bytes).map (· + (line.length + 1)) := by
  induction line with
  | nil =>
      have hFront : ch '<' ∉ [c] := by simpa using hOpen.symm
      exact findSeparator_skip hFront old bytes
  | cons d line ih =>
      rw [findSeparator] at h
      split at h
      · cases h
      · rename_i hNot
        rw [List.cons_append, findSeparator, if_neg, ih (Option.map_eq_none_iff.mp h),
          Option.map_map]
        · rfl
        · intro hHere
          obtain ⟨hd, hHead, hThird⟩ := hHere
          cases line with
          | nil => exact hBar (Option.some.inj hHead)
          | cons e line =>
              cases line with
              | nil => exact hClose (Option.some.inj hThird)
              | cons f line => exact hNot ⟨hd, hHead, hThird⟩

theorem dropWhile_append_dropWhile {α : Type*} (p : α → Bool) (a b : List α) :
    (a.dropWhile p ++ b).dropWhile p = (a ++ b).dropWhile p := by
  induction a with
  | nil => rfl
  | cons c a ih =>
      cases hc : p c with
      | true => simpa [hc] using ih
      | false => simp [hc]

theorem dropWhile_append_of_ne_nil {α : Type*} {p : α → Bool} {a : List α}
    (h : a.dropWhile p ≠ []) (b : List α) : (a ++ b).dropWhile p = a.dropWhile p ++ b := by
  rw [List.dropWhile_append, if_neg (by simpa using h)]

theorem closingToken_append {bytes rest : List UInt8} {found : Bool}
    (h : closingToken bytes = some (found, rest)) (more : List UInt8) :
    closingToken (bytes ++ more) = some (found, rest ++ more) := by
  simp only [closingToken] at h ⊢
  split at h
  · cases h
  · rename_i hLong
    obtain ⟨rfl, rfl⟩ := Prod.mk.inj (Option.some.inj h)
    have hSix : 6 ≤ (bytes.dropWhile isBlank).length := Nat.le_of_not_lt hLong
    have hSome : bytes.dropWhile isBlank ≠ [] := List.ne_nil_of_length_pos (by omega)
    rw [dropWhile_append_of_ne_nil hSome, if_neg (by rw [List.length_append]; omega),
      List.take_append_of_le_length hSix, List.drop_append_of_le_length hSix]

theorem closingToken_length {bytes rest : List UInt8} {found : Bool}
    (h : closingToken bytes = some (found, rest)) : rest.length < bytes.length := by
  simp only [closingToken] at h
  split at h
  · cases h
  · obtain ⟨rfl, rfl⟩ := Prod.mk.inj (Option.some.inj h)
    have hShort : (bytes.dropWhile isBlank).length ≤ bytes.length :=
      (List.dropWhile_suffix isBlank).length_le
    rw [List.length_drop]
    omega

/-- A line token shows the line, its newline and the rest of the input. -/
theorem lineToken_split {bytes line rest : List UInt8} (h : lineToken bytes = some (line, rest)) :
    bytes.dropWhile isSpace = line ++ ch '\n' :: rest ∧ ch '\n' ∉ line := by
  obtain ⟨n, hn, hPair⟩ := Option.map_eq_some_iff.mp h
  obtain ⟨before, after, hText, hBefore, rfl⟩ := strchr_split hn
  rw [hText, List.take_left, ← List.singleton_append, ← List.append_assoc,
    List.drop_left' (by simp)] at hPair
  obtain ⟨rfl, rfl⟩ := Prod.mk.inj hPair
  exact ⟨hText, hBefore⟩

theorem lineToken_of_split {bytes line rest : List UInt8}
    (h : bytes.dropWhile isSpace = line ++ ch '\n' :: rest) (hLine : ch '\n' ∉ line) :
    lineToken bytes = some (line, rest) := by
  rw [lineToken, h, strchr_append_cons hLine, Option.map_some, List.take_left,
    ← List.singleton_append, ← List.append_assoc, List.drop_left' (by simp)]

theorem lineToken_append {bytes line rest : List UInt8} (h : lineToken bytes = some (line, rest))
    (more : List UInt8) : lineToken (bytes ++ more) = some (line, rest ++ more) := by
  obtain ⟨hText, hLine⟩ := lineToken_split h
  refine lineToken_of_split ?_ hLine
  rw [dropWhile_append_of_ne_nil (by rw [hText]; simp), hText, List.append_assoc, List.cons_append]

theorem lineToken_length {bytes line rest : List UInt8} (h : lineToken bytes = some (line, rest)) :
    rest.length < bytes.length := by
  have hShort : (bytes.dropWhile isSpace).length ≤ bytes.length :=
    (List.dropWhile_suffix isSpace).length_le
  rw [(lineToken_split h).1] at hShort
  simp only [List.length_append, List.length_cons] at hShort
  omega

theorem fieldToken_append {bytes raw rest : List UInt8} (h : fieldToken bytes = some (raw, rest))
    (more : List UInt8) : fieldToken (bytes ++ more) = some (raw, rest ++ more) := by
  obtain ⟨i, hi, hPair⟩ := Option.map_eq_some_iff.mp h
  obtain ⟨rfl, rfl⟩ := Prod.mk.inj hPair
  have hLength : i + 3 ≤ bytes.length := findSeparator_length hi
  rw [fieldToken, findSeparator_append hi, Option.map_some,
    List.take_append_of_le_length (by omega), List.drop_append_of_le_length hLength]

theorem fieldToken_length {bytes raw rest : List UInt8} (h : fieldToken bytes = some (raw, rest)) :
    rest.length < bytes.length := by
  obtain ⟨i, hi, hPair⟩ := Option.map_eq_some_iff.mp h
  obtain ⟨rfl, rfl⟩ := Prod.mk.inj hPair
  have hLength : i + 3 ≤ bytes.length := findSeparator_length hi
  rw [List.length_drop]
  omega

theorem afterField_append {next : Next} {rest rest' : List UInt8} {status : Status}
    (h : afterField next rest = some (status, rest')) (more : List UInt8) :
    afterField next (rest ++ more) = some (status, rest' ++ more) := by
  have hPair : ∀ {s : Status}, some (s, rest) = some (status, rest') →
      some (s, rest ++ more) = some (status, rest' ++ more) := by
    intro s hEq
    obtain ⟨rfl, rfl⟩ := Prod.mk.inj (Option.some.inj hEq)
    rfl
  cases next with
  | fail o => exact hPair h
  | fault o fault => exact hPair h
  | read o reading =>
      cases reading with
      | field => exact hPair h
      | value => exact hPair h
      | command => exact hPair h
      | tags =>
          simp only [afterField] at h ⊢
          split at h
          · rename_i hNone
            rw [if_pos hNone]
            exact hPair h
          · rename_i hSome
            rw [if_neg hSome]
            exact hPair h
      | closing completion =>
          simp only [afterField] at h ⊢
          split at h
          · rename_i hAttached
            rw [if_pos hAttached]
            obtain ⟨⟨found, after⟩, hToken, hEq⟩ := Option.map_eq_some_iff.mp h
            obtain ⟨rfl, rfl⟩ := Prod.mk.inj hEq
            rw [closingToken_append hToken, Option.map_some]
          · rename_i hPlain
            rw [if_neg hPlain]
            exact hPair h

theorem afterField_length {next : Next} {rest rest' : List UInt8} {status : Status}
    (h : afterField next rest = some (status, rest')) : rest'.length ≤ rest.length := by
  have hPair : ∀ {s : Status}, some (s, rest) = some (status, rest') →
      rest'.length ≤ rest.length := by
    intro s hEq
    obtain ⟨_, rfl⟩ := Prod.mk.inj (Option.some.inj hEq)
    exact Nat.le_refl _
  cases next with
  | fail o => exact hPair h
  | fault o fault => exact hPair h
  | read o reading =>
      cases reading with
      | field => exact hPair h
      | value => exact hPair h
      | command => exact hPair h
      | tags =>
          simp only [afterField] at h
          split at h
          · exact hPair h
          · exact hPair h
      | closing completion =>
          simp only [afterField] at h
          split at h
          · obtain ⟨⟨found, after⟩, hToken, hEq⟩ := Option.map_eq_some_iff.mp h
            obtain ⟨_, rfl⟩ := Prod.mk.inj hEq
            exact Nat.le_of_lt (closingToken_length hToken)
          · exact hPair h

theorem readField_append {env : Env} {o : Session} {a rest : List UInt8} {next : Status}
    (h : readField env o a = some (next, rest)) (b : List UInt8) :
    readField env o (a ++ b) = some (next, rest ++ b) := by
  obtain ⟨⟨raw, after⟩, hToken, hAfter⟩ := Option.bind_eq_some_iff.mp h
  have hSome : a.dropWhile (blankIn o.scannerState) ≠ [] := by
    intro hNil
    rw [hNil] at hToken
    cases hToken
  rw [readField, dropWhile_append_of_ne_nil hSome, fieldToken_append hToken, Option.bind_some]
  simp only at hAfter ⊢
  split at hAfter
  · rename_i hNewline
    obtain ⟨rfl, rfl⟩ := Prod.mk.inj (Option.some.inj hAfter)
    rw [if_pos hNewline]
  · rename_i hNewline
    rw [if_neg hNewline, afterField_append hAfter]

theorem readField_length {env : Env} {o : Session} {a rest : List UInt8} {next : Status}
    (h : readField env o a = some (next, rest)) : rest.length < a.length := by
  obtain ⟨⟨raw, after⟩, hToken, hAfter⟩ := Option.bind_eq_some_iff.mp h
  have hField : after.length < (a.dropWhile (blankIn o.scannerState)).length :=
    fieldToken_length hToken
  have hShort : (a.dropWhile (blankIn o.scannerState)).length ≤ a.length :=
    (List.dropWhile_suffix _).length_le
  simp only at hAfter
  split at hAfter
  · obtain ⟨_, rfl⟩ := Prod.mk.inj (Option.some.inj hAfter)
    omega
  · have hAfterLength : rest.length ≤ after.length := afterField_length hAfter
    omega

theorem token_append {env : Env} {status next : Status} {a rest : List UInt8} (b : List UInt8)
    (h : token env status a = some (next, rest)) :
    token env status (a ++ b) = some (next, rest ++ b) := by
  obtain ⟨o, ending⟩ := status
  cases ending with
  | some ending => cases h
  | none =>
      rw [token] at h ⊢
      cases hReading : firstReading o.scannerState with
      | closing completion =>
          rw [hReading] at h
          obtain ⟨⟨found, after⟩, hToken, hEq⟩ := Option.map_eq_some_iff.mp h
          obtain ⟨rfl, rfl⟩ := Prod.mk.inj hEq
          simp only [closingToken_append hToken, Option.map_some]
      | tags =>
          rw [hReading] at h
          obtain ⟨⟨line, after⟩, hToken, hEq⟩ := Option.map_eq_some_iff.mp h
          obtain ⟨rfl, rfl⟩ := Prod.mk.inj hEq
          simp only [lineToken_append hToken, Option.map_some]
      | value =>
          rw [hReading] at h
          obtain ⟨⟨line, after⟩, hToken, hEq⟩ := Option.map_eq_some_iff.mp h
          obtain ⟨rfl, rfl⟩ := Prod.mk.inj hEq
          simp only [lineToken_append hToken, Option.map_some]
      | field =>
          rw [hReading] at h
          exact readField_append h b
      | command =>
          rw [hReading] at h
          exact readField_append h b

theorem token_length {env : Env} {status next : Status} {a rest : List UInt8}
    (h : token env status a = some (next, rest)) : rest.length < a.length := by
  obtain ⟨o, ending⟩ := status
  cases ending with
  | some ending => cases h
  | none =>
      rw [token] at h
      cases hReading : firstReading o.scannerState with
      | closing completion =>
          rw [hReading] at h
          obtain ⟨⟨found, after⟩, hToken, hEq⟩ := Option.map_eq_some_iff.mp h
          obtain ⟨_, rfl⟩ := Prod.mk.inj hEq
          exact closingToken_length hToken
      | tags =>
          rw [hReading] at h
          obtain ⟨⟨line, after⟩, hToken, hEq⟩ := Option.map_eq_some_iff.mp h
          obtain ⟨_, rfl⟩ := Prod.mk.inj hEq
          exact lineToken_length hToken
      | value =>
          rw [hReading] at h
          obtain ⟨⟨line, after⟩, hToken, hEq⟩ := Option.map_eq_some_iff.mp h
          obtain ⟨_, rfl⟩ := Prod.mk.inj hEq
          exact lineToken_length hToken
      | field =>
          rw [hReading] at h
          exact readField_length h
      | command =>
          rw [hReading] at h
          exact readField_length h

theorem dropWhile_idem {α : Type*} (p : α → Bool) (a : List α) :
    (a.dropWhile p).dropWhile p = a.dropWhile p := by
  simpa using dropWhile_append_dropWhile p a []

theorem token_trim (env : Env) (status : Status) (a : List UInt8) :
    token env status (a.dropWhile (blankIn status.1.scannerState)) = token env status a := by
  obtain ⟨o, ending⟩ := status
  cases ending with
  | some ending => rfl
  | none =>
      cases hState : o.scannerState <;>
        simp only [token, firstReading, blankIn, hState, closingToken, lineToken, readField,
          dropWhile_idem]

/-- The parser as a reader of tokens. -/
def reader (env : Env) : Incremental.Reader Status UInt8 where
  token := token env
  trim status bytes := bytes.dropWhile (blankIn status.1.scannerState)
  token_append := token_append
  token_length := token_length
  token_trim := token_trim env
  trim_append _ a b := dropWhile_append_dropWhile _ a b

end Otp
