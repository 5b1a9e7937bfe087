import OpenVAS.Text.Basic

/-! `string`: the arguments one after the other, with the escape sequences of the strings decoded.
The sizes are numbers without an upper end, where the source has `int`. -/
namespace Text

open CString Packets CMemory

/-- The result and how far it is written. -/
structure StringCell where
  strVal : Buffer
  size : Int
  p2 : Nat
  /-- The bytes that have been written for the arguments. -/
  written : Nat

/-- What a round of the loop writes, the bytes that it reads and what it takes off the size. -/
structure Round where
  written : Option UInt8
  read : Nat
  less : Int

def hexByte (high low : UInt8) : UInt8 := UInt8.ofNat (16 * xdigitValue high + xdigitValue low)

def stringRound (p1 : CString) : Round :=
  if byteAt p1 0 = ch '\\' ∧ byteAt p1 1 ≠ 0 then
    if byteAt p1 1 = ch 'n' then ⟨some (ch '\n'), 2, 1⟩
    else if byteAt p1 1 = ch 't' then ⟨some (ch '\t'), 2, 1⟩
    else if byteAt p1 1 = ch 'r' then ⟨some (ch '\r'), 2, 1⟩
    else if byteAt p1 1 = ch '\\' then ⟨some (ch '\\'), 2, 1⟩
    else if byteAt p1 1 = ch 'x' then
      if isxdigit (byteAt p1 2) ∧ isxdigit (byteAt p1 3) then
        ⟨some (hexByte (byteAt p1 2) (byteAt p1 3)), 4, 2 + 1⟩
      else ⟨none, 2, 1⟩
    else ⟨none, 2, 1 + 1⟩
  else ⟨some (byteAt p1 0), 1, 0⟩

/-- `*p2++ = byte`. -/
def StringCell.put (cell : StringCell) : Option UInt8 → Option StringCell
  | none => some cell
  | some byte => (memcpy cell.strVal cell.p2 [byte]).map fun strVal =>
      { cell with strVal := strVal, p2 := cell.p2 + 1, written := cell.written + 1 }

def stringLoop : Nat → CString → StringCell → Option StringCell
  | 0, _, _ => none
  | fuel + 1, p1, cell =>
      if byteAt p1 0 = 0 then some cell
      else do
        let cell ← cell.put (stringRound p1).written
        stringLoop fuel (p1.drop (stringRound p1).read)
          { cell with size := cell.size - (stringRound p1).less }

/-- One argument. -/
def appendVar (cell : StringCell) : Option Var → Option StringCell
  | none => some cell
  | some var =>
      let s := (var2str (some var.argument)).getD []
      let sz := sizeOr s (getVarSize (some var.argument))
      let newlen := cell.size + sz
      let grown : StringCell :=
        ⟨erealloc cell.strVal (newlen + 1).toNat, newlen, cell.size.toNat, cell.written⟩
      match var with
      | .string _ => stringLoop (s.length + 1) s grown
      | _ => (memcpy grown.strVal grown.p2 (s.take sz)).map fun strVal =>
          { grown with
            strVal := strVal.set (grown.p2 + sz) (some 0)
            p2 := grown.p2 + sz
            written := grown.written + sz }

def naslString (lexic : Lexic) : Option StringCell := do
  let cell ← lexic.ctxVars.foldlM appendVar ⟨emalloc 0, 0, 0, 0⟩
  return { cell with strVal := cell.strVal.set cell.size.toNat (some 0) }

/-! What is to come out. -/

/-- A byte that stands for itself, `\c` or `\xHH`. -/
inductive Token where
  | plain (c : UInt8)
  | escape (c : UInt8)
  | hex (high low : UInt8)
deriving DecidableEq

/-- Unknown and malformed ones stand for nothing. -/
def Token.bytes : Token → CString
  | .plain c => [c]
  | .hex high low => [hexByte high low]
  | .escape c =>
      if c = ch 'n' then [ch '\n']
      else if c = ch 't' then [ch '\t']
      else if c = ch 'r' then [ch '\r']
      else if c = ch '\\' then [ch '\\']
      else []

/-- An `\x` without its two digits is an escape of its own. -/
def tokens : CString → List Token
  | [] => []
  | c :: rest =>
      if c = ch '\\' ∧ byteAt rest 0 ≠ 0 then
        if byteAt rest 0 = ch 'x' ∧ isxdigit (byteAt rest 1) ∧ isxdigit (byteAt rest 2) then
          .hex (byteAt rest 1) (byteAt rest 2) :: tokens (rest.drop 3)
        else .escape (byteAt rest 0) :: tokens (rest.drop 1)
      else .plain c :: tokens rest
termination_by s => s.length
decreasing_by all_goals (simp only [List.length_drop, List.length_cons]; omega)

def decoded (s : CString) : CString := (tokens s).flatMap Token.bytes

/-- Every `\x` has its digits, and there is no zero byte. -/
structure Clean (s : CString) : Prop where
  hex : Token.escape (ch 'x') ∉ tokens s
  zero : (0 : UInt8) ∉ s

/-- What an argument adds to the result. -/
def Var.decoded : Var → CString
  | .int vInt => showInt vInt.toInt
  | .data sVal => sVal
  | .string sVal => Text.decoded sVal

/-- All arguments that are defined. -/
def Lexic.decoded (lexic : Lexic) : CString := (lexic.ctxVars.filterMap id).flatMap Var.decoded

/-! One round. -/

theorem ne_zero_of_isxdigit {c : UInt8} (h : isxdigit c = true) : c ≠ 0 := by
  rintro rfl
  revert h
  decide

/-- A round reads one token. -/
structure Reads (p1 : CString) (round : Round) (token : Token) : Prop where
  tokens : tokens p1 = token :: tokens (p1.drop round.read)
  written : token.bytes = round.written.toList
  less : (round.written.toList.length : Int) + round.less + (if token = .escape (ch 'x') then 1 else 0) =
    round.read
  nonneg : 0 ≤ round.less
  progress : 1 ≤ round.read ∧ round.read ≤ p1.length
  nonzero : 0 ∉ p1.take round.read

theorem Reads.plain {c : UInt8} {rest : CString} (hZero : c ≠ 0) (h : ¬ (c = ch '\\' ∧ byteAt rest 0 ≠ 0)) :
    Reads (c :: rest) ⟨some c, 1, 0⟩ (.plain c) := by
  refine ⟨by rw [Text.tokens, if_neg h]; rfl, rfl, by simp, by simp, by simp, ?_⟩
  simpa using hZero.symm

theorem Reads.hex {high low : UInt8} {rest : CString} (h : isxdigit high ∧ isxdigit low) :
    Reads (ch '\\' :: ch 'x' :: high :: low :: rest) ⟨some (hexByte high low), 4, 2 + 1⟩
      (.hex high low) := by
  have hHigh := ne_zero_of_isxdigit h.1
  have hLow := ne_zero_of_isxdigit h.2
  refine ⟨?_, rfl, by simp, by simp, by simp, ?_⟩
  · have hX : ch 'x' ≠ 0 := by decide
    rw [Text.tokens, if_pos ⟨rfl, hX⟩, if_pos ⟨rfl, h⟩]
    rfl
  · simp only [List.take_succ_cons, List.take_zero, List.mem_cons, List.not_mem_nil, or_false, not_or]
    exact ⟨by decide, by decide, hHigh.symm, hLow.symm⟩

theorem Reads.escape {e : UInt8} {rest : CString} {written : Option UInt8} {less : Int} (hZero : e ≠ 0)
    (h : ¬ (e = ch 'x' ∧ isxdigit (byteAt rest 0) ∧ isxdigit (byteAt rest 1)))
    (hWritten : (Token.escape e).bytes = written.toList)
    (hNonneg : 0 ≤ less)
    (hLess : (written.toList.length : Int) + less + (if e = ch 'x' then 1 else 0) = 2) :
    Reads (ch '\\' :: e :: rest) ⟨written, 2, less⟩ (.escape e) := by
  refine ⟨?_, hWritten, by simpa using hLess, hNonneg, by simp, ?_⟩
  · have hNot : ¬ (byteAt (e :: rest) 0 = ch 'x' ∧ isxdigit (byteAt (e :: rest) 1) ∧
        isxdigit (byteAt (e :: rest) 2)) := h
    rw [Text.tokens, if_pos ⟨rfl, hZero⟩, if_neg hNot]
    rfl
  · simp only [List.take_succ_cons, List.take_zero, List.mem_cons, List.not_mem_nil, or_false, not_or]
    exact ⟨by decide, hZero.symm⟩

theorem stringRound_escape {e : UInt8} (rest : CString) (hZero : e ≠ 0) :
    stringRound (ch '\\' :: e :: rest) =
      if e = ch 'n' then ⟨some (ch '\n'), 2, 1⟩
      else if e = ch 't' then ⟨some (ch '\t'), 2, 1⟩
      else if e = ch 'r' then ⟨some (ch '\r'), 2, 1⟩
      else if e = ch '\\' then ⟨some (ch '\\'), 2, 1⟩
      else if e = ch 'x' then
        if isxdigit (byteAt rest 0) ∧ isxdigit (byteAt rest 1) then
          ⟨some (hexByte (byteAt rest 0) (byteAt rest 1)), 4, 2 + 1⟩
        else ⟨none, 2, 1⟩
      else ⟨none, 2, 1 + 1⟩ :=
  if_pos ⟨rfl, hZero⟩

theorem stringRound_hex (rest : CString) :
    stringRound (ch '\\' :: ch 'x' :: rest) =
      if isxdigit (byteAt rest 0) ∧ isxdigit (byteAt rest 1) then
        ⟨some (hexByte (byteAt rest 0) (byteAt rest 1)), 4, 2 + 1⟩
      else ⟨none, 2, 1⟩ := rfl

theorem escapeRound_reads {e : UInt8} {rest : CString} (hZero : e ≠ 0) :
    ∃ token, Reads (ch '\\' :: e :: rest) (stringRound (ch '\\' :: e :: rest)) token := by
  by_cases hX : e = ch 'x'
  · subst hX
    rw [stringRound_hex]
    by_cases hDigits : isxdigit (byteAt rest 0) ∧ isxdigit (byteAt rest 1)
    · obtain ⟨high, low, rest, rfl⟩ : ∃ high low rest', rest = high :: low :: rest' := by
        match rest with
        | [] => exact absurd hDigits.1 (by decide)
        | [_] => exact absurd hDigits.2 (by simp; decide)
        | high :: low :: rest' => exact ⟨high, low, rest', rfl⟩
      rw [if_pos hDigits]
      exact ⟨_, Reads.hex hDigits⟩
    · rw [if_neg hDigits]
      exact ⟨_, Reads.escape hZero (fun h => hDigits h.2) (by decide) (by decide) (by decide)⟩
  · have hNot : ¬ (e = ch 'x' ∧ isxdigit (byteAt rest 0) ∧ isxdigit (byteAt rest 1)) := fun h => hX h.1
    refine ⟨.escape e, ?_⟩
    rw [stringRound_escape rest hZero]
    by_cases hN : e = ch 'n'
    · rw [if_pos hN]
      exact Reads.escape hZero hNot (by rw [hN]; decide) (by decide) (by rw [hN]; decide)
    by_cases hT : e = ch 't'
    · rw [if_neg hN, if_pos hT]
      exact Reads.escape hZero hNot (by rw [hT]; decide) (by decide) (by rw [hT]; decide)
    by_cases hR : e = ch 'r'
    · rw [if_neg hN, if_neg hT, if_pos hR]
      exact Reads.escape hZero hNot (by rw [hR]; decide) (by decide) (by rw [hR]; decide)
    by_cases hB : e = ch '\\'
    · rw [if_neg hN, if_neg hT, if_neg hR, if_pos hB]
      exact Reads.escape hZero hNot (by rw [hB]; decide) (by decide) (by rw [hB]; decide)
    rw [if_neg hN, if_neg hT, if_neg hR, if_neg hB, if_neg hX]
    refine Reads.escape hZero hNot ?_ (by decide) (by rw [if_neg hX]; rfl)
    rw [Token.bytes, if_neg hN, if_neg hT, if_neg hR, if_neg hB]
    rfl

theorem stringRound_reads {p1 : CString} (h : byteAt p1 0 ≠ 0) :
    ∃ token, Reads p1 (stringRound p1) token := by
  cases p1 with
  | nil => exact absurd rfl h
  | cons c rest =>
      change c ≠ 0 at h
      by_cases hEscape : c = ch '\\' ∧ byteAt rest 0 ≠ 0
      · obtain ⟨rfl, hZero⟩ := hEscape
        cases rest with
        | nil => exact absurd rfl hZero
        | cons e rest =>
            rw [byteAt_cons_zero] at hZero
            exact escapeRound_reads hZero
      · have hRound : stringRound (c :: rest) = ⟨some c, 1, 0⟩ := if_neg hEscape
        rw [hRound]
        exact ⟨_, Reads.plain h hEscape⟩

/-! The loop over one string. -/

theorem clean_nil : Clean [] := ⟨by rw [tokens]; exact List.not_mem_nil, List.not_mem_nil⟩

theorem Reads.clean_iff {p1 : CString} {round : Round} {token : Token} (h : Reads p1 round token) :
    Clean p1 ↔ token ≠ .escape (ch 'x') ∧ Clean (p1.drop round.read) := by
  have hZero : (0 : UInt8) ∈ p1 ↔ 0 ∈ p1.drop round.read := by
    conv_lhs => rw [← List.take_append_drop round.read p1]
    rw [List.mem_append, or_iff_right h.nonzero]
  constructor
  · rintro ⟨hHex, hNone⟩
    rw [h.tokens, List.mem_cons, not_or] at hHex
    exact ⟨fun hToken => hHex.1 hToken.symm, hHex.2, fun hMem => hNone (hZero.mpr hMem)⟩
  · rintro ⟨hToken, hHex, hNone⟩
    refine ⟨?_, fun hMem => hNone (hZero.mp hMem)⟩
    rw [h.tokens, List.mem_cons, not_or]
    exact ⟨fun hEq => hToken hEq.symm, hHex⟩

theorem Reads.decoded {p1 : CString} {round : Round} {token : Token} (h : Reads p1 round token) :
    Text.decoded p1 = round.written.toList ++ Text.decoded (p1.drop round.read) := by
  rw [Text.decoded, h.tokens, List.flatMap_cons, h.written]
  rfl

theorem StringCell.put_written {cell cell' : StringCell} {byte : Option UInt8} (h : cell.put byte = some cell') :
    cell'.written = cell.written + byte.toList.length ∧ cell'.size = cell.size := by
  cases byte with
  | none =>
      obtain rfl : cell = cell' := by simpa [StringCell.put] using h
      exact ⟨rfl, rfl⟩
  | some byte =>
      obtain ⟨strVal, _, rfl⟩ := Option.map_eq_some_iff.mp h
      exact ⟨rfl, rfl⟩

/-- The size is lowered by no more than what is left out, and by less if a round goes wrong. -/
theorem stringLoop_count {fuel : Nat} {p1 : CString} {cell cell' : StringCell}
    (h : stringLoop fuel p1 cell = some cell') :
    (cell'.written : Int) - cell.written + (cell.size - cell'.size) ≤ p1.length ∧
      ((cell'.written : Int) - cell.written + (cell.size - cell'.size) = p1.length → Clean p1) := by
  induction fuel generalizing p1 cell with
  | zero => cases h
  | succ fuel ih =>
      rw [stringLoop] at h
      split at h
      · rename_i hEnd
        obtain rfl : cell = cell' := by simpa using h
        refine ⟨by omega, fun hAll => ?_⟩
        have hNil : p1 = [] := List.eq_nil_of_length_eq_zero (by omega)
        rw [hNil]
        exact clean_nil
      · rename_i hGoOn
        obtain ⟨token, hReads⟩ := stringRound_reads hGoOn
        obtain ⟨put, hPut, hLoop⟩ := Option.bind_eq_some_iff.mp h
        obtain ⟨hWritten, hSize⟩ := StringCell.put_written hPut
        obtain ⟨hLe, hClean⟩ := ih hLoop
        have hLess := hReads.less
        have hProgress := hReads.progress
        rw [List.length_drop] at hLe hClean
        simp only [hWritten, hSize] at hLe hClean
        rw [hReads.clean_iff]
        constructor
        · split at hLess <;> omega
        · intro hAll
          split at hLess
          · omega
          · rename_i hToken
            exact ⟨hToken, hClean (by omega)⟩

/-- The cell holds what has been written, behind which the writing goes on. -/
structure StringCell.Holds (cell : StringCell) (out : CString) : Prop where
  p2 : cell.p2 = out.length
  holds : cell.strVal.Holds out

theorem StringCell.Holds.put {cell : StringCell} {out : CString} (h : cell.Holds out) {byte : Option UInt8}
    (hRoom : out.length + byte.toList.length ≤ cell.strVal.length) :
    ∃ cell', cell.put byte = some cell' ∧ cell'.strVal.length = cell.strVal.length ∧
      cell'.Holds (out ++ byte.toList) := by
  cases byte with
  | none =>
      rw [Option.toList_none, List.append_nil]
      exact ⟨cell, rfl, rfl, h⟩
  | some byte =>
      obtain ⟨buf, hCopy, hSame, hHolds⟩ := @Buffer.Holds.memcpy _ _ h.holds [byte] hRoom
      refine ⟨{ cell with strVal := buf, p2 := cell.p2 + 1, written := cell.written + 1 }, ?_, hSame, ?_,
        hHolds⟩
      · rw [StringCell.put, h.p2, hCopy]
        rfl
      · change cell.p2 + 1 = _
        rw [h.p2, List.length_append]
        rfl

/-- A clean string is decoded behind the bytes before it. -/
theorem stringLoop_holds {fuel : Nat} {p1 : CString} {cell : StringCell} {out : CString}
    (hClean : Clean p1) (hHolds : cell.Holds out) (hRoom : out.length + p1.length ≤ cell.strVal.length)
    (hFuel : p1.length < fuel) :
    ∃ cell', stringLoop fuel p1 cell = some cell' ∧ cell'.Holds (out ++ decoded p1) ∧
      cell'.written = cell.written + (decoded p1).length ∧
      cell'.size = cell.size - p1.length + (decoded p1).length := by
  induction fuel generalizing p1 cell out with
  | zero => omega
  | succ fuel ih =>
      rw [stringLoop]
      split
      · rename_i hEnd
        cases p1 with
        | nil =>
            have hNil : decoded [] = [] := by rw [decoded, tokens]; rfl
            rw [hNil, List.append_nil]
            exact ⟨cell, rfl, hHolds, by simp, by simp⟩
        | cons c rest => exact absurd (hEnd ▸ List.mem_cons_self) hClean.zero
      · rename_i hGoOn
        obtain ⟨token, hReads⟩ := stringRound_reads hGoOn
        have hLess := hReads.less
        have hProgress := hReads.progress
        obtain ⟨hToken, hRest⟩ := hReads.clean_iff.mp hClean
        rw [if_neg hToken] at hLess
        have hNonneg := hReads.nonneg
        obtain ⟨put, hPut, hSame, hPutHolds⟩ := @StringCell.Holds.put _ _ hHolds (stringRound p1).written
          (by omega)
        obtain ⟨hWritten, hSize⟩ := StringCell.put_written hPut
        have hBelow : (p1.drop (stringRound p1).read).length = p1.length - (stringRound p1).read :=
          List.length_drop
        obtain ⟨cell', hLoop, hHolds', hWritten', hSize'⟩ :=
          @ih _ { put with size := put.size - (stringRound p1).less } _ hRest
            ⟨hPutHolds.p2, hPutHolds.holds⟩ (by
              rw [hBelow, List.length_append]
              change _ ≤ put.strVal.length
              omega) (by omega)
        rw [hReads.decoded, ← List.append_assoc]
        refine ⟨cell', by rw [hPut]; exact hLoop, hHolds', ?_, ?_⟩
        · rw [hWritten', hWritten, List.length_append]
          omega
        · rw [hSize', hSize, hBelow, List.length_append]
          push_cast
          omega

/-! The arguments. -/

/-- What an argument has to be for the size to be right. -/
def Var.Clean : Var → Prop
  | .string sVal => Text.Clean sVal
  | _ => True

/-- How far the size is ahead of the bytes that have been written. -/
def StringCell.lag (cell : StringCell) : Int := cell.size - cell.written

theorem appendVar_string (cell : StringCell) (s : CString) :
    appendVar cell (some (.string s)) =
      stringLoop (s.length + 1) s ⟨erealloc cell.strVal (cell.size + s.length + 1).toNat,
        cell.size + s.length, cell.size.toNat, cell.written⟩ := by
  simp only [appendVar, Var.argument, getVarSize, var2str, Option.getD_some, sizeOr_length]

theorem cText_showInt (i : Int) : cText (showInt i) = showInt i := by
  refine List.takeWhile_eq_self_iff.mpr fun c hMem => ?_
  have hNot : (0 : UInt8) ∉ showInt i := not_mem_showInt (by decide) (by decide) i
  exact decide_eq_true fun hZero => hNot (hZero ▸ hMem)

/-- Other arguments are copied as they are. -/
theorem appendVar_copy (cell : StringCell) {v : Var} (h : ∀ s, v ≠ .string s) :
    appendVar cell (some v) =
      (memcpy (erealloc cell.strVal (cell.size + v.decoded.length + 1).toNat) cell.size.toNat
        v.decoded).map fun strVal =>
          ⟨strVal.set (cell.size.toNat + v.decoded.length) (some 0), cell.size + v.decoded.length,
            cell.size.toNat + v.decoded.length, cell.written + v.decoded.length⟩ := by
  cases v with
  | string s => exact absurd rfl (h s)
  | int vInt =>
      have hSize : sizeOr (showInt vInt.toInt) 0 = (showInt vInt.toInt).length := by
        rw [sizeOr, if_pos rfl, cText_showInt]
      simp only [appendVar, Var.argument, getVarSize, var2str, Option.getD_some, hSize, List.take_length,
        Var.decoded]
  | data sVal =>
      simp only [appendVar, Var.argument, getVarSize, var2str, Option.getD_some, sizeOr_length,
        List.take_length, Var.decoded]

theorem appendVar_lag {cell cell' : StringCell} {var : Option Var} (h : appendVar cell var = some cell') :
    cell.lag ≤ cell'.lag ∧ (cell.lag = cell'.lag → ∀ v, var = some v → v.Clean) := by
  cases var with
  | none =>
      obtain rfl : cell = cell' := Option.some.inj h
      exact ⟨Int.le_refl _, fun _ v hNone => nomatch hNone⟩
  | some var =>
      by_cases hString : ∃ s, var = .string s
      · obtain ⟨s, rfl⟩ := hString
        rw [appendVar_string] at h
        obtain ⟨hLe, hClean⟩ := stringLoop_count h
        simp only at hLe hClean
        simp only [StringCell.lag]
        refine ⟨by omega, fun hSame v hVar => ?_⟩
        obtain rfl : Var.string s = v := Option.some.inj hVar
        exact hClean (by omega)
      · rw [appendVar_copy cell fun s hEq => hString ⟨s, hEq⟩] at h
        obtain ⟨strVal, _, rfl⟩ := Option.map_eq_some_iff.mp h
        simp only [StringCell.lag]
        refine ⟨by omega, fun _ v hVar => ?_⟩
        obtain rfl : var = v := Option.some.inj hVar
        cases var with
        | string s => exact absurd ⟨s, rfl⟩ hString
        | int vInt => trivial
        | data sVal => trivial

theorem foldlM_appendVar_lag {vars : List (Option Var)} {cell cell' : StringCell}
    (h : vars.foldlM appendVar cell = some cell') :
    cell.lag ≤ cell'.lag ∧ (cell.lag = cell'.lag → ∀ v, some v ∈ vars → v.Clean) := by
  induction vars generalizing cell with
  | nil =>
      obtain rfl : cell = cell' := by simpa using h
      exact ⟨Int.le_refl _, fun _ v hMem => absurd hMem List.not_mem_nil⟩
  | cons var vars ih =>
      rw [List.foldlM_cons] at h
      obtain ⟨next, hFirst, hRest⟩ := Option.bind_eq_some_iff.mp h
      obtain ⟨hLe, hClean⟩ := appendVar_lag hFirst
      obtain ⟨hLe', hClean'⟩ := ih hRest
      refine ⟨by omega, fun hSame v hMem => ?_⟩
      rcases List.mem_cons.mp hMem with hHead | hTail
      · exact hClean (by omega) v hHead.symm
      · exact hClean' (by omega) v hTail

/-- The size and the bytes agree. -/
structure StringCell.Sized (cell : StringCell) (out : CString) : Prop where
  size : cell.size = out.length
  written : cell.written = out.length
  holds : cell.strVal.Holds out

theorem StringCell.Sized.appendVar {cell : StringCell} {out : CString} (h : cell.Sized out) {v : Var}
    (hClean : v.Clean) :
    ∃ cell', Text.appendVar cell (some v) = some cell' ∧ cell'.Sized (out ++ v.decoded) := by
  have hGrown : ∀ n : Nat, (erealloc cell.strVal (cell.size + n + 1).toNat).length = out.length + n + 1 ∧
      (erealloc cell.strVal (cell.size + n + 1).toNat).Holds out := by
    intro n
    have hLength := length_erealloc cell.strVal (cell.size + n + 1).toNat
    have hSize := h.size
    exact ⟨by omega, holds_erealloc h.holds (by omega)⟩
  by_cases hString : ∃ s, v = .string s
  · obtain ⟨s, rfl⟩ := hString
    obtain ⟨hLength, hHolds⟩ := hGrown s.length
    rw [appendVar_string]
    obtain ⟨cell', hRun, hHolds', hWritten, hSize⟩ := @stringLoop_holds (s.length + 1) s
      ⟨erealloc cell.strVal (cell.size + s.length + 1).toNat, cell.size + s.length, cell.size.toNat,
        cell.written⟩ out hClean ⟨by rw [h.size]; rfl, hHolds⟩ (by
        simp only
        omega) (by omega)
    have hOut := h.size
    have hBefore := h.written
    simp only at hSize hWritten
    refine ⟨cell', hRun, ?_, ?_, hHolds'.holds⟩
    · rw [hSize, List.length_append]
      change _ = ((out.length + (Text.decoded s).length : Nat) : Int)
      omega
    · rw [hWritten, List.length_append]
      change _ = out.length + (Text.decoded s).length
      omega
  · rw [appendVar_copy cell fun s hEq => hString ⟨s, hEq⟩]
    obtain ⟨hLength, hHolds⟩ := hGrown v.decoded.length
    obtain ⟨buf, hCopy, _, hHolds'⟩ := @Buffer.Holds.memcpy _ _ hHolds v.decoded (by omega)
    have hOut := h.size
    have hBefore := h.written
    rw [show cell.size.toNat = out.length by omega, hCopy]
    refine ⟨_, rfl, ?_, ?_, ?_, ?_⟩
    · simp only [List.length_append]
      omega
    · simp only [List.length_append]
      omega
    · rw [List.length_set]
      exact hHolds'.length
    · rw [List.take_set_of_le (by rw [List.length_append])]
      exact hHolds'.content

theorem StringCell.Sized.foldlM {vars : List (Option Var)} {cell : StringCell} {out : CString}
    (h : cell.Sized out) (hClean : ∀ v, some v ∈ vars → v.Clean) :
    ∃ cell', vars.foldlM Text.appendVar cell = some cell' ∧
      cell'.Sized (out ++ (vars.filterMap id).flatMap Var.decoded) := by
  induction vars generalizing cell out with
  | nil => exact ⟨cell, rfl, by simpa using h⟩
  | cons var vars ih =>
      have hRest := fun v hMem => hClean v (List.mem_cons_of_mem _ hMem)
      cases var with
      | none =>
          obtain ⟨cell', hRun, hSized⟩ := ih h hRest
          exact ⟨cell', by rw [List.foldlM_cons]; exact hRun, hSized⟩
      | some v =>
          obtain ⟨next, hFirst, hSized⟩ := h.appendVar (hClean v List.mem_cons_self)
          obtain ⟨cell', hRun, hSized'⟩ := ih hSized hRest
          refine ⟨cell', by rw [List.foldlM_cons, hFirst]; exact hRun, ?_⟩
          simpa using hSized'

/-- The size is the number of the bytes written and the content is that of the arguments exactly if
every string is clean. -/
theorem naslString_decoded_iff (lexic : Lexic) :
    (∃ cell, naslString lexic = some cell ∧ cell.size = cell.written ∧
      cell.size = lexic.decoded.length ∧
      cell.strVal.take lexic.decoded.length = lexic.decoded.map some) ↔
      ∀ s, some (.string s) ∈ lexic.ctxVars → Clean s := by
  constructor
  · rintro ⟨cell, hRun, hSize, _⟩ s hMem
    obtain ⟨last, hFold, hLast⟩ := Option.bind_eq_some_iff.mp hRun
    obtain ⟨_, hClean⟩ := foldlM_appendVar_lag hFold
    refine hClean ?_ _ hMem
    have hEq := Option.some.inj hLast
    rw [← hEq] at hSize
    change (0 : Int) - 0 = last.size - last.written
    change last.size = last.written at hSize
    omega
  · intro hClean
    have hStart : StringCell.Sized ⟨emalloc 0, 0, 0, 0⟩ [] := ⟨rfl, rfl, Buffer.holds_nil _⟩
    obtain ⟨cell, hFold, hSized⟩ := @StringCell.Sized.foldlM lexic.ctxVars _ _ hStart (by
      intro v hMem
      cases v with
      | string s => exact hClean s hMem
      | int vInt => trivial
      | data sVal => trivial)
    rw [List.nil_append] at hSized
    change cell.Sized lexic.decoded at hSized
    refine ⟨{ cell with strVal := cell.strVal.set cell.size.toNat (some 0) },
      by rw [naslString, hFold]; rfl, hSized.size.trans (by rw [hSized.written]), hSized.size, ?_⟩
    change (cell.strVal.set cell.size.toNat (some 0)).take lexic.decoded.length = _
    rw [hSized.size, Int.toNat_natCast, List.take_set_of_le (Nat.le_refl _)]
    exact hSized.holds.content

/-- `string ("\\xZ")`: two bytes are reported, of which one has been written. -/
theorem naslString_malformed :
    ∃ cell, naslString ⟨[some (.string (lit "\\xZ"))], fun _ => none⟩ = some cell ∧
      cell.size = 2 ∧ cell.written = 1 ∧ decoded (lit "\\xZ") = lit "Z" :=
  ⟨_, rfl, rfl, rfl, by simp [decoded, tokens, lit, ch]; decide⟩

end Text
