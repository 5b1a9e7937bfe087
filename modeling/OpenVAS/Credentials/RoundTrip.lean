import Mathlib.Logic.Equiv.Basic
import OpenVAS.Credentials.Basic

/-! What a context answers: every plaintext is read within its bounds, the cache
answers what the search would, and a written block answers its own pairs. -/
namespace Credentials

open CString

/-- The text a search leads to. -/
def Found.read (plaintext : List UInt8) : Found → Option CString
  | .valoff p => some ((plaintext.drop p).takeWhile (· ≠ 0))
  | .copy value => some value
  | .tooLong => none
  | .missing => none

/-- A value that is left in the plaintext has its end there. -/
def Found.Inside (plaintext : List UInt8) : Found → Prop
  | .valoff p => p ≠ 0 ∧ 0 ∈ plaintext.drop p
  | _ => True

theorem slice_of_le {plaintext : List UInt8} {p n : Nat} (h : p + n ≤ plaintext.length) :
    slice plaintext p n = .ok ((plaintext.drop p).take n) := by
  rw [slice, if_pos h]

theorem get32_of_le {plaintext : List UInt8} {p : Nat} (h : p + 4 ≤ plaintext.length) :
    ∃ n, get32 plaintext p = .ok n := by
  rw [get32, slice_of_le h]
  exact ⟨_, rfl⟩

theorem sameName_of_le {plaintext : List UInt8} {p n : Nat} (name : CString)
    (h : p + n ≤ plaintext.length) : ∃ same, sameName plaintext p n name = .ok same := by
  rw [sameName, slice_of_le h]
  split
  · exact ⟨_, rfl⟩
  · exact ⟨_, rfl⟩

/-- A byte behind the value is read only in the plaintext. -/
theorem terminated_of_le {plaintext : List UInt8} {p len n : Nat}
    (h : p + len = plaintext.length) :
    ∃ isEnd, terminated plaintext p len n = .ok isEnd ∧
      (isEnd = true → 0 ∈ plaintext.drop p) := by
  rw [terminated]
  by_cases hBehind : n + 1 < len
  · rw [if_pos hBehind, slice_of_le (by omega : p + n + 1 ≤ plaintext.length)]
    refine ⟨_, rfl, fun hZero => ?_⟩
    have hMem : (0 : UInt8) ∈ (plaintext.drop (p + n)).take 1 := by
      rw [eq_of_beq hZero]
      exact List.mem_singleton_self 0
    rw [← List.drop_drop] at hMem
    exact List.mem_of_mem_drop (List.mem_of_mem_take hMem)
  · rw [if_neg hBehind]
    exact ⟨false, rfl, nofun⟩

theorem findValue_inside {plaintext : List UInt8} {p len n : Nat} (hp : p ≠ 0)
    (hLen : p + len = plaintext.length) (hn : n ≤ len) :
    ∃ found, findValue plaintext p len n = .ok found ∧ found.Inside plaintext := by
  rw [findValue]
  by_cases hLong : maxValueLength < n
  · rw [if_pos hLong]
    exact ⟨_, rfl, trivial⟩
  · obtain ⟨isEnd, hEnd, hZero⟩ := terminated_of_le (n := n) hLen
    rw [if_neg hLong, hEnd, slice_of_le (by omega : p + n ≤ plaintext.length)]
    cases isEnd with
    | false => exact ⟨_, rfl, trivial⟩
    | true => exact ⟨_, rfl, hp, hZero rfl⟩

/-- The search comes to its end inside every plaintext. -/
theorem parse_inside (plaintext : List UInt8) (name : CString) {fuel p len : Nat}
    (hLen : p + len = plaintext.length) (hFuel : len < fuel) :
    ∃ found, parse plaintext name fuel p len = .ok found ∧ found.Inside plaintext := by
  induction fuel generalizing p len with
  | zero => omega
  | succ fuel ih =>
      rw [parse]
      by_cases hEmpty : len = 0
      · rw [if_pos hEmpty]
        exact ⟨_, rfl, trivial⟩
      rw [if_neg hEmpty]
      by_cases hShort : len < 4
      · rw [if_pos hShort]
        exact ⟨_, rfl, trivial⟩
      rw [if_neg hShort]
      obtain ⟨n, hn⟩ := get32_of_le (by omega : p + 4 ≤ plaintext.length)
      rw [hn]
      change ∃ found, ite _ _ _ = _ ∧ _
      by_cases hName : len - 4 < n
      · rw [if_pos hName]
        exact ⟨_, rfl, trivial⟩
      rw [if_neg hName]
      obtain ⟨same, hSame⟩ := sameName_of_le name (by omega : p + 4 + n ≤ plaintext.length)
      rw [hSame]
      change ∃ found, ite _ _ _ = _ ∧ _
      by_cases hSecond : len - 4 - n < 4
      · rw [if_pos hSecond]
        exact ⟨_, rfl, trivial⟩
      rw [if_neg hSecond]
      obtain ⟨m, hm⟩ := get32_of_le (by omega : p + 4 + n + 4 ≤ plaintext.length)
      rw [hm]
      change ∃ found, ite _ _ _ = _ ∧ _
      by_cases hValue : len - 4 - n - 4 < m
      · rw [if_pos hValue]
        exact ⟨_, rfl, trivial⟩
      rw [if_neg hValue]
      cases same with
      | true => exact findValue_inside (by omega) (by omega) (by omega)
      | false => exact ih (by omega) (by omega)

/-- What the search in a plaintext answers for a name. -/
def answerOf (plaintext : List UInt8) (name : CString) : Option CString :=
  match parse plaintext name (plaintext.length + 1) 0 plaintext.length with
  | .ok found => found.read plaintext
  | .error _ => none

/-- What is remembered is what the search answers. -/
def Context.Agrees (ctx : Context) (plaintext : List UInt8) : Prop :=
  ∀ entry ∈ ctx.namelist, entry.answer plaintext = .ok (answerOf plaintext entry.name)

theorem Context.Agrees.cons {ctx : Context} {plaintext : List UInt8} {entry : Entry}
    (h : ctx.Agrees plaintext)
    (hEntry : entry.answer plaintext = .ok (answerOf plaintext entry.name)) :
    { ctx with namelist := entry :: ctx.namelist }.Agrees plaintext := by
  intro other hOther
  rcases List.mem_cons.mp hOther with rfl | hOld
  · exact hEntry
  · exact h other hOld

theorem lookup_eq {ctx : Context} {plaintext : List UInt8} (h : ctx.Agrees plaintext)
    (hText : ctx.plaintext = some plaintext) (name : CString) :
    ∃ ctx', lookup ctx plaintext name = .ok (answerOf plaintext name, ctx') ∧
      ctx'.Agrees plaintext ∧ ctx'.plaintext = some plaintext := by
  rw [lookup]
  cases hFind : ctx.namelist.find? (·.name = name) with
  | some entry =>
      have hName : entry.name = name := by simpa using List.find?_some hFind
      simp only [h entry (List.mem_of_find?_eq_some hFind), hName]
      exact ⟨ctx, rfl, h, hText⟩
  | none =>
      obtain ⟨found, hParse, hInside⟩ := parse_inside plaintext name
        (Nat.zero_add plaintext.length) (Nat.lt_succ_self _)
      have hAnswer : answerOf plaintext name = found.read plaintext := by
        rw [answerOf, hParse]
      simp only [hParse, hAnswer]
      cases found with
      | valoff p =>
          have hEntry : (Entry.mk name p none).answer plaintext =
              .ok ((Found.valoff p).read plaintext) := by
            simp only [Entry.answer, if_neg hInside.1, stringAt, if_pos hInside.2]
            rfl
          refine ⟨{ ctx with namelist := ⟨name, p, none⟩ :: ctx.namelist }, ?_,
            h.cons (hAnswer ▸ hEntry), hText⟩
          change (do return (← (Entry.mk name p none).answer plaintext, _)) = _
          rw [hEntry]
          rfl
      | copy value =>
          exact ⟨{ ctx with namelist := ⟨name, 0, some value⟩ :: ctx.namelist }, rfl,
            h.cons (congrArg Except.ok hAnswer.symm), hText⟩
      | missing =>
          exact ⟨{ ctx with namelist := ⟨name, 0, none⟩ :: ctx.namelist }, rfl,
            h.cons (congrArg Except.ok hAnswer.symm), hText⟩
      | tooLong => exact ⟨ctx, rfl, h, hText⟩

/-- What a lookup answers once the plaintext is there. -/
def answer (disabled : Bool) (plaintext : List UInt8) (name : CString) : Option CString :=
  if name = [] ∨ disabled then none else answerOf plaintext name

theorem lscCryptDecrypt_eq (layers : Layers) (disabled : Bool) {ciphertext : Option CString}
    {plaintext : List UInt8} (hCipher : ciphertext.bind layers.doDecrypt = some plaintext)
    {ctx : Context} (h : ctx.Agrees plaintext)
    (hText : ctx.plaintext = none ∨ ctx.plaintext = some plaintext) (name : CString) :
    ∃ ctx', lscCryptDecrypt layers disabled ctx ciphertext name =
        .ok (answer disabled plaintext name, ctx') ∧ ctx'.Agrees plaintext ∧
      (ctx'.plaintext = none ∨ ctx'.plaintext = some plaintext) := by
  rw [lscCryptDecrypt, answer]
  by_cases hNone : name = [] ∨ disabled
  · rw [if_pos hNone, if_pos hNone]
    exact ⟨ctx, rfl, h, hText⟩
  rw [if_neg hNone, if_neg hNone]
  rcases hText with hText | hText
  · simp only [hText, hCipher]
    obtain ⟨ctx', hLookup, hAgrees, hKept⟩ :=
      @lookup_eq { ctx with plaintext := some plaintext } plaintext h rfl name
    exact ⟨ctx', hLookup, hAgrees, .inr hKept⟩
  · simp only [hText]
    obtain ⟨ctx', hLookup, hAgrees, hKept⟩ := lookup_eq h hText name
    exact ⟨ctx', hLookup, hAgrees, .inr hKept⟩

/-- Lookups of a readable credential answer as the search does, one by one. -/
theorem lookups_of_decrypted (layers : Layers) (disabled : Bool) {ciphertext : Option CString}
    {plaintext : List UInt8} (hCipher : ciphertext.bind layers.doDecrypt = some plaintext)
    {ctx : Context} (h : ctx.Agrees plaintext)
    (hText : ctx.plaintext = none ∨ ctx.plaintext = some plaintext) (names : List CString) :
    lookups layers disabled ciphertext ctx names = .ok (names.map (answer disabled plaintext)) := by
  induction names generalizing ctx with
  | nil => rfl
  | cons name names ih =>
      obtain ⟨ctx', hStep, hAgrees, hKept⟩ :=
        lscCryptDecrypt_eq layers disabled hCipher h hText name
      rw [lookups, hStep]
      change (do return _ :: (← lookups layers disabled ciphertext ctx' names)) = _
      rw [ih hAgrees hKept]
      rfl

/-- Lookups of a credential that does not decrypt answer nothing. -/
theorem lookups_of_broken (layers : Layers) (disabled : Bool) {ciphertext : Option CString}
    (hCipher : ciphertext.bind layers.doDecrypt = none) (names : List CString) :
    lookups layers disabled ciphertext {} names = .ok (names.map fun _ => none) := by
  induction names with
  | nil => rfl
  | cons name names ih =>
      have hStep : lscCryptDecrypt layers disabled {} ciphertext name = .ok (none, {}) := by
        rw [lscCryptDecrypt]
        split
        · rfl
        · simp only [hCipher]
      rw [lookups, hStep]
      change (do return _ :: (← lookups layers disabled ciphertext {} names)) = _
      rw [ih]
      rfl

theorem lookups_ok (layers : Layers) (disabled : Bool) (ciphertext : Option CString)
    (names : List CString) : ∃ answers, lookups layers disabled ciphertext {} names = .ok answers := by
  cases hCipher : ciphertext.bind layers.doDecrypt with
  | none => exact ⟨_, lookups_of_broken layers disabled hCipher names⟩
  | some plaintext =>
      have hFresh : (({} : Context).Agrees plaintext) := List.forall_mem_nil _
      exact ⟨_, lookups_of_decrypted layers disabled hCipher hFresh (.inl rfl) names⟩

theorem length_put32 (value : Nat) : (put32 value).length = 4 := Bytes.length_ofValue ..

theorem slice_append (before part after : List UInt8) :
    slice (before ++ part ++ after) before.length part.length = .ok part := by
  rw [slice_of_le (by simp), List.append_assoc, List.drop_left, List.take_left]

theorem get32_append (before after : List UInt8) {n : Nat} (hn : n < 2 ^ 32) :
    get32 (before ++ put32 n ++ after) before.length = .ok n := by
  have hSlice := slice_append before (put32 n) after
  rw [length_put32] at hSlice
  rw [get32, hSlice, put32, Nat.mod_eq_of_lt hn]
  exact congrArg Except.ok (Bytes.value_ofValue hn)

theorem sameName_append (before name after : List UInt8) (key : CString) :
    sameName (before ++ name ++ after) before.length name.length key = .ok (name == key) := by
  rw [sameName, slice_append]
  by_cases hLength : name.length = key.length
  · rw [if_pos hLength]
    rfl
  · rw [if_neg hLength]
    have hNe : name ≠ key := fun h => hLength (congrArg List.length h)
    rw [beq_eq_false_iff_ne.mpr hNe]

/-- The value of a pair is read back whether it is copied or left in the block. -/
theorem findValue_append (before after : List UInt8) {value : List UInt8} (hText : 0 ∉ value)
    (hMax : value.length ≤ maxValueLength) :
    ∃ found, findValue (before ++ value ++ after) before.length (value.length + after.length)
        value.length = .ok found ∧ found.read (before ++ value ++ after) = some value := by
  have hAll : ∀ c ∈ value, decide (c ≠ 0) = true :=
    fun c hc => decide_eq_true fun h => hText (h ▸ hc)
  have hTake : value.takeWhile (· ≠ 0) = value := List.takeWhile_eq_self_iff.mpr hAll
  rw [findValue, if_neg (by omega), slice_append, terminated]
  by_cases hBehind : value.length + 1 < value.length + after.length
  · obtain ⟨c, rest, rfl⟩ := List.exists_cons_of_length_pos (by omega : 0 < after.length)
    have hByte : slice (before ++ value ++ c :: rest) (before.length + value.length) 1 =
        .ok [c] := by
      have hSlice := slice_append (before ++ value) [c] rest
      rwa [List.length_append, List.append_assoc _ [c]] at hSlice
    rw [if_pos hBehind, hByte]
    by_cases hZero : c = 0
    · subst hZero
      refine ⟨.valoff before.length, rfl, ?_⟩
      rw [Found.read, List.append_assoc, List.drop_left, List.takeWhile_append_of_pos hAll]
      exact congrArg some (List.append_nil value)
    · refine ⟨.copy value, ?_, rfl⟩
      have hFlag : ([c] == [(0 : UInt8)]) = false := by simpa using hZero
      simp only [Except.map, hFlag]
      exact congrArg (fun text => Except.ok (Found.copy text)) hTake
  · rw [if_neg hBehind]
    exact ⟨.copy value, congrArg (fun text => Except.ok (Found.copy text)) hTake, rfl⟩

/-- The bytes of one pair. -/
def record (name value : List UInt8) : List UInt8 :=
  put32 name.length ++ name ++ (put32 value.length ++ value)

theorem length_record (name value : List UInt8) :
    (record name value).length = 4 + name.length + (4 + value.length) := by
  simp only [record, List.length_append, length_put32]

/-- The search over a pair ends there, or goes on behind it. -/
theorem parse_record (before after : List UInt8) {name value : List UInt8} (key : CString)
    (fuel : Nat) (hName : name.length < 2 ^ 32) (hValue : value.length < 2 ^ 32) :
    parse (before ++ record name value ++ after) key (fuel + 1) before.length
        (record name value ++ after).length =
      if name = key then
        findValue (before ++ put32 name.length ++ name ++ put32 value.length ++ value ++ after)
          (before ++ put32 name.length ++ name ++ put32 value.length).length
          (value.length + after.length) value.length
      else parse (before ++ record name value ++ after) key fuel
        (before ++ record name value).length after.length := by
  have hLen : (record name value ++ after).length =
      4 + name.length + (4 + value.length) + after.length := by
    rw [List.length_append, length_record]
  have hFirst : get32 (before ++ record name value ++ after) before.length = .ok name.length := by
    have h := get32_append before (name ++ (put32 value.length ++ value) ++ after) hName
    simpa only [record, List.append_assoc] using h
  have hSame : sameName (before ++ record name value ++ after) (before.length + 4) name.length key =
      .ok (name == key) := by
    have h := sameName_append (before ++ put32 name.length) name
      (put32 value.length ++ value ++ after) key
    rw [List.length_append, length_put32] at h
    simpa only [record, List.append_assoc] using h
  have hSecond : get32 (before ++ record name value ++ after) (before.length + 4 + name.length) =
      .ok value.length := by
    have h := get32_append (before ++ put32 name.length ++ name) (value ++ after) hValue
    rw [List.length_append, List.length_append, length_put32] at h
    simpa only [record, List.append_assoc] using h
  rw [hLen, parse, if_neg (by omega), if_neg (by omega), hFirst]
  change ite _ _ _ = _
  rw [if_neg (by omega), hSame]
  change ite _ _ _ = _
  rw [if_neg (by omega), hSecond]
  change ite _ _ _ = _
  rw [if_neg (by omega)]
  by_cases hKey : name = key
  · rw [if_pos hKey, if_pos (beq_iff_eq.mpr hKey)]
    congr 1
    · simp only [record, List.append_assoc]
    · simp only [List.length_append, length_put32]
    · omega
  · rw [if_neg hKey, if_neg (mt beq_iff_eq.mp hKey), List.length_append, length_record]
    congr 1
    · omega
    · omega

/-- The text of the first pair with a name. A missing value is an empty text. -/
def stored (pairs : List (Text × Option Text)) (name : CString) : Option CString :=
  (pairs.find? (·.1.1 = name)).map fun pair => (pair.2.map Subtype.val).getD []

theorem stored_cons_of_ne {name : Text} {value : Option Text} {pairs : List (Text × Option Text)}
    {key : CString} (h : ¬ name.1 = key) : stored ((name, value) :: pairs) key = stored pairs key := by
  rw [stored, stored, List.find?_cons_of_neg (by simpa using h)]

theorem stored_cons_of_eq {name : Text} {value : Option Text} {pairs : List (Text × Option Text)}
    {key : CString} (h : name.1 = key) :
    stored ((name, value) :: pairs) key = some ((value.map Subtype.val).getD []) := by
  rw [stored, List.find?_cons_of_pos (by simpa using h)]
  rfl

/-- The pairs fit the length fields of the block. -/
structure Fits (pairs : List (Text × Option Text)) : Prop where
  name : ∀ pair ∈ pairs, pair.1.1.length < 2 ^ 32
  value : ∀ pair ∈ pairs, ∀ value ∈ pair.2, value.1.length ≤ maxValueLength

theorem Fits.tail {pair : Text × Option Text} {pairs : List (Text × Option Text)}
    (h : Fits (pair :: pairs)) : Fits pairs :=
  ⟨fun other hOther => h.name other (List.mem_cons_of_mem _ hOther),
    fun other hOther => h.value other (List.mem_cons_of_mem _ hOther)⟩

theorem Fits.head {name : Text} {value : Option Text} {pairs : List (Text × Option Text)}
    (h : Fits ((name, value) :: pairs)) :
    ((value.map Subtype.val).getD []).length ≤ maxValueLength := by
  cases value with
  | none => exact Nat.zero_le _
  | some value => exact h.value _ List.mem_cons_self value rfl

theorem block_cons {name : Text} {value : Option Text} {pairs : List (Text × Option Text)}
    (hName : name.1 ≠ []) (h : Fits ((name, value) :: pairs)) :
    block ((name, value) :: pairs) =
      (block pairs).map (record name.1 ((value.map Subtype.val).getD []) ++ ·) := by
  rw [block, if_neg hName, if_neg (Nat.not_lt.mpr h.head)]
  rfl

theorem exists_block {pairs : List (Text × Option Text)} (h : Fits pairs) :
    ∃ bytes, block pairs = some bytes ∧ ((∃ pair ∈ pairs, pair.1.1 ≠ []) → bytes ≠ []) := by
  induction pairs with
  | nil => exact ⟨[], rfl, nofun⟩
  | cons pair pairs ih =>
      obtain ⟨name, value⟩ := pair
      obtain ⟨bytes, hBytes, hSome⟩ := ih h.tail
      by_cases hName : name.1 = []
      · rw [block, if_pos hName]
        refine ⟨bytes, hBytes, fun hPair => hSome ?_⟩
        obtain ⟨pair, hMem, hNamed⟩ := hPair
        rcases List.mem_cons.mp hMem with rfl | hMem
        · exact absurd hName hNamed
        · exact ⟨pair, hMem, hNamed⟩
      · rw [block_cons hName h, hBytes]
        refine ⟨_, rfl, fun _ hNil => ?_⟩
        have hLength := congrArg List.length hNil
        rw [List.length_append, length_record, List.length_nil] at hLength
        omega

/-- The search in a written block finds the first pair with the name. -/
theorem parse_block (before : List UInt8) {pairs : List (Text × Option Text)} {bytes : List UInt8}
    (h : Fits pairs) (hBlock : block pairs = some bytes) {key : CString} (hKey : key ≠ [])
    {fuel : Nat} (hFuel : bytes.length < fuel) :
    ∃ found, parse (before ++ bytes) key fuel before.length bytes.length = .ok found ∧
      found.read (before ++ bytes) = stored pairs key := by
  induction pairs generalizing before bytes fuel with
  | nil =>
      obtain rfl : [] = bytes := Option.some.inj hBlock
      obtain ⟨fuel, rfl⟩ := Nat.exists_eq_add_one.mpr (Nat.zero_lt_of_lt hFuel)
      exact ⟨.missing, rfl, rfl⟩
  | cons pair pairs ih =>
      obtain ⟨name, value⟩ := pair
      by_cases hName : name.1 = []
      · rw [block, if_pos hName] at hBlock
        have hOther : ¬ name.1 = key := fun hEq => hKey (hEq ▸ hName)
        rw [stored_cons_of_ne hOther]
        exact ih before h.tail hBlock hFuel
      · obtain ⟨rest, hRest, -⟩ := exists_block h.tail
        rw [block_cons hName h, hRest] at hBlock
        obtain rfl := Option.some.inj hBlock
        obtain ⟨fuel, rfl⟩ := Nat.exists_eq_add_one.mpr (Nat.zero_lt_of_lt hFuel)
        have hMax := h.head
        have hLong : maxValueLength < 2 ^ 32 := by decide
        have hParse := parse_record before rest key fuel (h.name _ List.mem_cons_self)
          (Nat.lt_of_le_of_lt hMax hLong)
        rw [← List.append_assoc, hParse]
        by_cases hFound : name.1 = key
        · rw [if_pos hFound, stored_cons_of_eq hFound]
          have hText : 0 ∉ (value.map Subtype.val).getD [] := by
            cases value with
            | none => exact List.not_mem_nil
            | some value => exact value.2
          obtain ⟨found, hFind, hRead⟩ := findValue_append
            (before ++ put32 name.1.length ++ name.1 ++ put32 _) rest hText hMax
          refine ⟨found, hFind, ?_⟩
          simpa only [record, List.append_assoc] using hRead
        · rw [if_neg hFound]
          rw [stored_cons_of_ne hFound]
          refine ih _ h.tail hRest ?_
          rw [List.length_append, length_record] at hFuel
          omega

/-- A block answers a name with its first pair of that name. -/
theorem answerOf_block {pairs : List (Text × Option Text)} {bytes : List UInt8} (h : Fits pairs)
    (hBlock : block pairs = some bytes) {key : CString} (hKey : key ≠ []) :
    answerOf bytes key = stored pairs key := by
  obtain ⟨found, hParse, hRead⟩ := parse_block [] h hBlock hKey (Nat.lt_succ_self bytes.length)
  rw [List.nil_append] at hParse hRead
  rw [answerOf, ← hRead]
  change (match parse bytes key (bytes.length + 1) 0 bytes.length with
    | .ok found => found.read bytes
    | .error _ => none) = _
  rw [show parse bytes key (bytes.length + 1) 0 bytes.length = .ok found from hParse]

theorem lscCryptEncrypt_ok {layers : Layers} (hLayers : layers.Sound)
    {pairs : List (Text × Option Text)} (h : Fits pairs) (hNamed : ∃ pair ∈ pairs, pair.1.1 ≠ []) :
    ∃ bytes ciphertext, block pairs = some bytes ∧
      lscCryptEncrypt layers pairs = .ok (some ciphertext) ∧
      layers.doDecrypt ciphertext = some bytes := by
  obtain ⟨bytes, hBlock, hSome⟩ := exists_block h
  obtain ⟨ciphertext, hNonempty, hEncrypt, hDecrypt⟩ := hLayers.gpg bytes (hSome hNamed)
  refine ⟨bytes, layers.base64Encode ciphertext, hBlock, ?_, ?_⟩
  · rw [lscCryptEncrypt, hBlock]
    simp only [if_neg (hSome hNamed), Layers.doEncrypt, hEncrypt, Option.map_some]
  · simp only [Layers.doDecrypt, hLayers.base64, if_neg hNonempty, hDecrypt]

/-- Written credentials are read back in any sequence of lookups, and no sequence
of lookups leaves the bounds of what was decrypted, whatever that is. -/
theorem lookups_lscCryptEncrypt (layers : Layers) :
    (layers.Sound → ∀ pairs : List (Text × Option Text), (∃ pair ∈ pairs, pair.1.1 ≠ []) →
      (∀ pair ∈ pairs, pair.1.1.length < 2 ^ 32) →
      (∀ pair ∈ pairs, ∀ value ∈ pair.2, value.1.length ≤ maxValueLength) →
      ∃ ciphertext, lscCryptEncrypt layers pairs = .ok (some ciphertext) ∧
        ∀ disabled names, lookups layers disabled (some ciphertext) {} names =
          .ok (names.map fun name =>
            if name = [] ∨ disabled then none else stored pairs name)) ∧
    ∀ disabled ciphertext names, ∃ answers,
      lookups layers disabled ciphertext {} names = .ok answers := by
  refine ⟨fun hLayers pairs hNamed hName hValue => ?_, lookups_ok layers⟩
  have hFits : Fits pairs := ⟨hName, hValue⟩
  obtain ⟨bytes, ciphertext, hBlock, hEncrypt, hDecrypt⟩ := lscCryptEncrypt_ok hLayers hFits hNamed
  refine ⟨ciphertext, hEncrypt, fun disabled names => ?_⟩
  have hFresh : ({} : Context).Agrees bytes := List.forall_mem_nil _
  have hCipher : (some ciphertext).bind layers.doDecrypt = some bytes := hDecrypt
  rw [lookups_of_decrypted layers disabled hCipher hFresh (.inl rfl) names]
  refine congrArg Except.ok (List.map_congr_left fun name _ => ?_)
  rw [answer]
  split
  · rfl
  · rename_i hKey
    exact answerOf_block hFits hBlock fun hNil => hKey (.inl hNil)

/-- The pairs `a`, `b` and `c` without a value. -/
def sample : List (Text × Option Text) :=
  [(⟨lit "a", by decide⟩, some ⟨lit "b", by decide⟩), (⟨lit "c", by decide⟩, none)]

/-- The block of the sample. -/
def sampleBlock : List UInt8 := [0, 0, 0, 1, 97, 0, 0, 0, 1, 98, 0, 0, 0, 1, 99, 0, 0, 0, 0]

/-- A key that changes nothing under a base64 that is right at the sample. -/
def sampleLayers : Layers where
  gpgEncrypt := some
  gpgDecrypt := some
  base64Encode := Equiv.swap sampleBlock (lit "AAAAAWEAAAABYgAAAAFjAAAAAA==")
  base64Decode := Equiv.swap sampleBlock (lit "AAAAAWEAAAABYgAAAAFjAAAAAA==")

theorem sampleLayers_sound : sampleLayers.Sound where
  gpg := fun plaintext h => ⟨plaintext, h, rfl, rfl⟩
  base64 := fun bytes => Equiv.swap_apply_self _ _ bytes

theorem lookups_lscCryptEncrypt_sample :
    ∃ ciphertext, lscCryptEncrypt sampleLayers sample = .ok (some ciphertext) ∧
      ∀ disabled names, lookups sampleLayers disabled (some ciphertext) {} names =
        .ok (names.map fun name => if name = [] ∨ disabled then none else stored sample name) :=
  (lookups_lscCryptEncrypt sampleLayers).1 sampleLayers_sound sample
    ⟨_, List.mem_cons_self, by decide⟩ (by decide) (by decide)

/-- A pair with an empty name is not written, and an empty name is not looked up. -/
theorem lookups_empty_name :
    ∃ ciphertext,
      lscCryptEncrypt sampleLayers ((⟨[], by decide⟩, some ⟨lit "x", by decide⟩) :: sample) =
        .ok (some ciphertext) ∧
      stored ((⟨[], by decide⟩, some ⟨lit "x", by decide⟩) :: sample) [] = some (lit "x") ∧
      lookups sampleLayers false (some ciphertext) {} [[]] = .ok [none] :=
  ⟨lit "AAAAAWEAAAABYgAAAAFjAAAAAA==", by decide, by decide, by decide⟩

end Credentials
