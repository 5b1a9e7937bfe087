import OpenVAS.Lib.CString

/-! Reading a line, after `recv_line` of `network.c`. -/
namespace Network

open CString

/-- What an attempt to read one byte gives; a plain socket is waited for, so that there may be none
in time. -/
inductive Event where
  | byte (b : UInt8)
  | closed
  | failed
  | timeout
deriving DecidableEq

/-- What a call returns, with the buffer and the events that it leaves. -/
structure Line where
  ret : Int
  buf : List UInt8
  rest : List Event

/-- The end of the text behind the bytes that were read, if there are any. -/
def terminated (bufsiz : Nat) (buf : List UInt8) (ret : Nat) : List UInt8 :=
  if 0 < ret then
    if buf.getD (ret - 1) 0 ≠ 0 then
      if ret < bufsiz then buf.set ret 0 else buf.set (bufsiz - 1) 0
    else buf
  else buf

/-- The loop; on a stream a wait in vain is an end of the data. -/
def recvLoop (stream : Bool) (bufsiz : Nat) : List Event → List UInt8 → Nat → Line
  | [], buf, ret => ⟨ret, buf, []⟩
  | .closed :: rest, buf, ret => ⟨ret, buf, rest⟩
  | .failed :: rest, buf, ret => ⟨if ret = 0 then -1 else ret, buf, rest⟩
  | .timeout :: rest, buf, ret =>
      if stream then ⟨ret, buf, rest⟩ else ⟨ret, terminated bufsiz buf ret, rest⟩
  | .byte b :: rest, buf, ret =>
      if b ≠ 0 ∧ b ≠ ch '\n' ∧ ret + 1 < bufsiz then recvLoop stream bufsiz rest (buf.set ret b) (ret + 1)
      else ⟨(ret + 1 : Nat), terminated bufsiz (buf.set ret b) (ret + 1), rest⟩

def recvLine (stream : Bool) (bufsiz : Nat) (buf : List UInt8) (events : List Event) : Line :=
  recvLoop stream bufsiz events (if stream then buf.set 0 0 else buf) 0

/-! What is to come out. -/

/-- The bytes among the events. -/
def bytesOf (events : List Event) : List UInt8 :=
  events.filterMap fun
    | .byte b => some b
    | _ => none

/-- The text up to the first zero byte; `none` if there is no zero byte. -/
def cString (buf : List UInt8) : Option CString := if 0 ∈ buf then some (buf.takeWhile (· ≠ 0)) else none

/-- Successive calls with one buffer. -/
def recvLines (stream : Bool) (bufsiz : Nat) : Nat → List UInt8 → List Event → List Line
  | 0, _, _ => []
  | n + 1, buf, events =>
      let line := recvLine stream bufsiz buf events
      line :: recvLines stream bufsiz n line.buf line.rest

/-- The events that are left after some calls. -/
def left (events : List Event) (lines : List Line) : List Event := (lines.getLast?.map Line.rest).getD events

/-- The texts in the buffer make up the bytes that were consumed, and their lengths are returned. -/
def Exact (events : List Event) (lines : List Line) : Prop :=
  ∃ texts : List CString, lines.map (cString ·.buf) = texts.map some ∧
    lines.map Line.ret = texts.map (fun text => (text.length : Int)) ∧
    bytesOf events = texts.flatten ++ bytesOf (left events lines)

/-- Why a line ends. -/
inductive Stop where
  | newline
  | timeout
  | failed
  | closed
deriving DecidableEq

/-- A line of the data and why it ends, however long it is. -/
def lineOf : List Event → List UInt8 × Stop
  | [] | .closed :: _ => ([], .closed)
  | .failed :: _ => ([], .failed)
  | .timeout :: _ => ([], .timeout)
  | .byte b :: rest => if b = ch '\n' then ([b], .newline) else (b :: (lineOf rest).1, (lineOf rest).2)

/-- The call puts a zero byte behind the line: at a line feed, or when a plain socket has been waited for
with some bytes there. -/
def ends (stream : Bool) (line : List UInt8 × Stop) : Bool :=
  line.2 = .newline || (line.2 = .timeout && !stream && !line.1.isEmpty)

/-- The line is shorter than the buffer, the call does not fail at once, and there is a zero byte
behind the line: one of the call, the one that a stream starts with, or one that was there. -/
def Fits (stream : Bool) (bufsiz : Nat) (buf : List UInt8) (events : List Event) : Prop :=
  (lineOf events).1.length < bufsiz ∧ ¬ lineOf events = ([], .failed) ∧
    (ends stream (lineOf events) = true ∨ (stream = true ∧ (lineOf events).1 = []) ∨
      buf[(lineOf events).1.length]? = some 0)

/-- Every call meets the condition when it is made. -/
def AllFit (stream : Bool) (bufsiz : Nat) : Nat → List UInt8 → List Event → Prop
  | 0, _, _ => True
  | n + 1, buf, events =>
      let line := recvLine stream bufsiz buf events
      Fits stream bufsiz buf events ∧ AllFit stream bufsiz n line.buf line.rest

/-! What a call consumes. -/

@[simp] theorem bytesOf_byte (b : UInt8) (rest : List Event) : bytesOf (.byte b :: rest) = b :: bytesOf rest :=
  rfl

theorem length_terminated (bufsiz : Nat) (buf : List UInt8) (ret : Nat) :
    (terminated bufsiz buf ret).length = buf.length := by
  unfold terminated
  split
  · split
    · split <;> rw [List.length_set]
    · rfl
  · rfl

/-- The bytes that the call takes, and whether it returns their number. -/
structure Consumes (line : Line) (events : List Event) (bufsiz ret : Nat) (taken : List UInt8) : Prop where
  bytes : bytesOf events = taken ++ bytesOf line.rest
  ret : line.ret = (ret + taken.length : Nat) ∨ (ret = 0 ∧ line.ret = -1 ∧ taken = [])
  length : line.buf.length = bufsiz

theorem recvLoop_consumes (stream : Bool) (events : List Event) {bufsiz : Nat} {buf : List UInt8} (ret : Nat)
    (hBuf : buf.length = bufsiz) :
    ∃ taken, Consumes (recvLoop stream bufsiz events buf ret) events bufsiz ret taken := by
  induction events generalizing buf ret with
  | nil => exact ⟨[], rfl, Or.inl rfl, hBuf⟩
  | cons event rest ih =>
      cases event with
      | closed => exact ⟨[], rfl, Or.inl rfl, hBuf⟩
      | failed =>
          refine ⟨[], rfl, ?_, hBuf⟩
          rw [recvLoop]
          dsimp only
          split
          · rename_i hZero
            exact Or.inr ⟨hZero, rfl, rfl⟩
          · exact Or.inl rfl
      | timeout =>
          rw [recvLoop]
          split
          · exact ⟨[], rfl, Or.inl rfl, hBuf⟩
          · exact ⟨[], rfl, Or.inl rfl, (length_terminated _ _ _).trans hBuf⟩
      | byte b =>
          rw [recvLoop]
          split
          · obtain ⟨taken, hBytes, hRet, hLength⟩ := @ih (buf.set ret b) (ret + 1) (by rw [List.length_set, hBuf])
            refine ⟨b :: taken, by rw [bytesOf_byte, hBytes]; rfl, ?_, hLength⟩
            rcases hRet with hSum | hFailed
            · refine Or.inl ?_
              rw [hSum, List.length_cons]
              omega
            · exact absurd hFailed.1 (Nat.succ_ne_zero ret)
          · refine ⟨[b], rfl, Or.inl rfl, ?_⟩
            rw [length_terminated, List.length_set, hBuf]

/-! What a call leaves in the buffer. -/

theorem terminated_append {bufsiz : Nat} {w tail : List UInt8} (hNonzero : 0 ∉ w) (hSome : w ≠ [])
    (hLess : w.length < bufsiz) : terminated bufsiz (w ++ tail) w.length = w ++ tail.set 0 0 := by
  have hPos := List.length_pos_iff.mpr hSome
  have hLast : (w ++ tail).getD (w.length - 1) 0 ≠ 0 := by
    rw [List.getD_eq_getElem?_getD, List.getElem?_append_left (by omega), List.getElem?_eq_getElem (by omega),
      Option.getD_some]
    exact fun hZero => hNonzero (hZero ▸ List.getElem_mem _)
  rw [terminated, if_pos hPos, if_pos hLast, if_pos hLess, List.set_append_right _ _ (Nat.le_refl _),
    Nat.sub_self]

theorem terminated_full {bufsiz : Nat} {w : List UInt8} (hNonzero : 0 ∉ w) (hSome : w ≠ [])
    (hFull : w.length = bufsiz) : terminated bufsiz w w.length = w.set (bufsiz - 1) 0 := by
  have hPos := List.length_pos_iff.mpr hSome
  have hLast : w.getD (w.length - 1) 0 ≠ 0 := by
    rw [List.getD_eq_getElem?_getD, List.getElem?_eq_getElem (by omega), Option.getD_some]
    exact fun hZero => hNonzero (hZero ▸ List.getElem_mem _)
  rw [terminated, if_pos hPos, if_pos hLast, if_neg (by omega)]

/-- The rest of the buffer behind a line. -/
def behind (ended : Bool) (tail : List UInt8) : List UInt8 := if ended then tail.set 0 0 else tail

theorem set_append_cons (w : List UInt8) (c b : UInt8) (tail : List UInt8) :
    (w ++ c :: tail).set w.length b = (w ++ [b]) ++ tail := by
  rw [List.set_append_right _ _ (Nat.le_refl _), Nat.sub_self, List.append_assoc]
  rfl

/-- A line that is shorter than the buffer. -/
theorem recvLoop_short (stream : Bool) {events : List Event} {bufsiz : Nat} {w tail : List UInt8}
    (hBuf : w.length + tail.length = bufsiz) (hNonzero : 0 ∉ w ++ (lineOf events).1)
    (hShort : w.length + (lineOf events).1.length < bufsiz) :
    (recvLoop stream bufsiz events (w ++ tail) w.length).buf =
        (w ++ (lineOf events).1) ++ behind (ends stream (w ++ (lineOf events).1, (lineOf events).2))
          (tail.drop (lineOf events).1.length) ∧
      (recvLoop stream bufsiz events (w ++ tail) w.length).ret =
        if (w ++ (lineOf events).1, (lineOf events).2) = ([], .failed) then -1
        else ((w.length + (lineOf events).1.length : Nat) : Int) := by
  induction events generalizing w tail with
  | nil => simp [recvLoop, lineOf, ends, behind]
  | cons event rest ih =>
      cases event with
      | closed => simp [recvLoop, lineOf, ends, behind]
      | failed => simp [recvLoop, lineOf, ends, behind]
      | timeout =>
          rw [lineOf, List.append_nil] at hNonzero
          rw [lineOf, List.length_nil, Nat.add_zero] at hShort
          cases stream with
          | true => simp [recvLoop, lineOf, ends, behind]
          | false =>
              by_cases hNil : w = []
              · subst hNil
                simp [recvLoop, lineOf, ends, behind, terminated]
              · simp [recvLoop, lineOf, ends, behind, terminated_append hNonzero hNil hShort, hNil]
      | byte b =>
          cases tail with
          | nil => simp only [List.length_nil] at hBuf; omega
          | cons c tail =>
              have hSet := set_append_cons w c b tail
              have hLength : (w ++ [b]).length = w.length + 1 := List.length_append
              by_cases hNewline : b = ch '\n'
              · have hLine : lineOf (.byte b :: rest) = ([b], .newline) := if_pos hNewline
                rw [hLine] at hNonzero hShort ⊢
                have hNot : ¬ (b ≠ 0 ∧ b ≠ ch '\n' ∧ w.length + 1 < bufsiz) := fun hAll => hAll.2.1 hNewline
                have hEnd := @terminated_append bufsiz (w ++ [b]) tail hNonzero (by simp)
                  (by rw [hLength]; exact hShort)
                rw [hLength] at hEnd
                rw [recvLoop, if_neg hNot, hSet, hEnd]
                exact ⟨rfl, by rw [if_neg (by simp)]; rfl⟩
              · have hLine : lineOf (.byte b :: rest) = (b :: (lineOf rest).1, (lineOf rest).2) := if_neg hNewline
                rw [hLine] at hNonzero hShort ⊢
                rw [List.length_cons] at hShort
                have hGoOn : b ≠ 0 ∧ b ≠ ch '\n' ∧ w.length + 1 < bufsiz :=
                  ⟨fun hZero => hNonzero (by simp [hZero]), hNewline, by omega⟩
                have hAppend : (w ++ [b]) ++ (lineOf rest).1 = w ++ b :: (lineOf rest).1 := by
                  rw [List.append_assoc]
                  rfl
                have hRest := @ih (w ++ [b]) tail (by rw [hLength]; simp only [List.length_cons] at hBuf; omega)
                  (by rw [hAppend]; exact hNonzero) (by rw [hLength]; omega)
                rw [hAppend, hLength] at hRest
                rw [recvLoop, if_pos hGoOn, hSet]
                refine ⟨hRest.1, hRest.2.trans ?_⟩
                rw [List.length_cons, Nat.add_right_comm, Nat.add_assoc]

/-- A line for which there is no room with a zero byte behind it. -/
theorem recvLoop_long (stream : Bool) {events : List Event} {bufsiz : Nat} {w tail : List UInt8}
    (hBuf : w.length + tail.length = bufsiz) (hNonzero : 0 ∉ w ++ (lineOf events).1)
    (hRoom : w.length < bufsiz) (hLong : bufsiz ≤ w.length + (lineOf events).1.length) :
    (recvLoop stream bufsiz events (w ++ tail) w.length).buf[bufsiz - 1]? = some 0 ∧
      (recvLoop stream bufsiz events (w ++ tail) w.length).ret = bufsiz := by
  induction events generalizing w tail with
  | nil => simp only [lineOf, List.length_nil] at hLong; omega
  | cons event rest ih =>
      cases event with
      | closed => simp only [lineOf, List.length_nil] at hLong; omega
      | failed => simp only [lineOf, List.length_nil] at hLong; omega
      | timeout => simp only [lineOf, List.length_nil] at hLong; omega
      | byte b =>
          cases tail with
          | nil => simp only [List.length_nil] at hBuf; omega
          | cons c tail =>
              have hSet := set_append_cons w c b tail
              have hLength : (w ++ [b]).length = w.length + 1 := List.length_append
              have hPrefix : ∃ l, (lineOf (.byte b :: rest)).1 = b :: l := by
                rw [lineOf]
                split
                · exact ⟨[], rfl⟩
                · exact ⟨(lineOf rest).1, rfl⟩
              have hHead : 0 ∉ w ++ [b] := by
                obtain ⟨l, hl⟩ := hPrefix
                rw [hl] at hNonzero
                simp only [List.mem_append, List.mem_cons, not_or] at hNonzero ⊢
                exact ⟨hNonzero.1, hNonzero.2.1, List.not_mem_nil⟩
              simp only [List.length_cons] at hBuf
              by_cases hFull : w.length + 1 = bufsiz
              · have hTail : tail = [] := List.eq_nil_of_length_eq_zero (by omega)
                have hNot : ¬ (b ≠ 0 ∧ b ≠ ch '\n' ∧ w.length + 1 < bufsiz) := fun hAll => by omega
                have hEnd := terminated_full hHead (by simp) (hLength.trans hFull)
                rw [hLength] at hEnd
                rw [recvLoop, if_neg hNot, hSet, hTail, List.append_nil, hEnd]
                refine ⟨?_, congrArg _ hFull⟩
                rw [List.getElem?_set_self (by omega)]
              · have hNewline : b ≠ ch '\n' := by
                  intro hNewline
                  have hLine : lineOf (.byte b :: rest) = ([b], .newline) := if_pos hNewline
                  rw [hLine, List.length_singleton] at hLong
                  omega
                have hLine : lineOf (.byte b :: rest) = (b :: (lineOf rest).1, (lineOf rest).2) := if_neg hNewline
                rw [hLine] at hNonzero hLong
                rw [List.length_cons] at hLong
                have hGoOn : b ≠ 0 ∧ b ≠ ch '\n' ∧ w.length + 1 < bufsiz :=
                  ⟨fun hZero => hHead (by simp [hZero]), hNewline, by omega⟩
                have hAppend : (w ++ [b]) ++ (lineOf rest).1 = w ++ b :: (lineOf rest).1 := by
                  rw [List.append_assoc]
                  rfl
                have hRest := @ih (w ++ [b]) tail (by rw [hLength]; omega) (by rw [hAppend]; exact hNonzero)
                  (by rw [hLength]; omega) (by rw [hLength]; omega)
                rw [hLength] at hRest
                rw [recvLoop, if_pos hGoOn, hSet]
                exact hRest

/-! One call. -/

/-- The text in the buffer is the one that the call takes, and its length is returned. -/
def Line.Stores (line : Line) (events : List Event) (text : CString) : Prop :=
  cString line.buf = some text ∧ line.ret = text.length ∧ bytesOf events = text ++ bytesOf line.rest

theorem cString_append {l tail : List UInt8} (h : 0 ∉ l) :
    cString (l ++ tail) = some l ↔ tail.head? = some 0 := by
  have hTake : (l ++ tail).takeWhile (fun c => decide (c ≠ 0)) = l ++ tail.takeWhile (fun c => decide (c ≠ 0)) :=
    List.takeWhile_append_of_pos fun c hMem => decide_eq_true fun hZero => h (hZero ▸ hMem)
  rw [cString, hTake]
  cases tail with
  | nil =>
      rw [List.append_nil, if_neg h]
      exact ⟨fun hNone => (nomatch hNone), fun hNone => (nomatch hNone)⟩
  | cons c tail =>
      rw [List.head?_cons]
      by_cases hZero : c = 0
      · subst hZero
        simp
      · simp [hZero]

theorem cString_length {buf text : List UInt8} {n : Nat} (h : cString buf = some text)
    (hZero : buf[n]? = some 0) : text.length ≤ n := by
  unfold cString at h
  split at h
  · obtain rfl := Option.some.inj h
    by_contra hLong
    obtain ⟨hLess, hElem⟩ := List.getElem?_eq_some_iff.mp hZero
    have hInside : n < (buf.takeWhile (fun c => decide (c ≠ 0))).length := by omega
    have hSame : (buf.takeWhile (fun c => decide (c ≠ 0)))[n] = buf[n] :=
      List.IsPrefix.getElem (List.takeWhile_prefix _) hInside
    have hNonzero := List.mem_takeWhile_imp (List.getElem_mem hInside)
    rw [hSame, hElem] at hNonzero
    revert hNonzero
    decide
  · cases h

theorem lineOf_prefix (events : List Event) : (lineOf events).1 <+: bytesOf events := by
  induction events with
  | nil => exact List.nil_prefix
  | cons event rest ih =>
      cases event with
      | closed => exact List.nil_prefix
      | failed => exact List.nil_prefix
      | timeout => exact List.nil_prefix
      | byte b =>
          rw [lineOf, bytesOf_byte]
          split
          · exact List.prefix_append [b] _
          · exact List.prefix_cons_inj b |>.mpr ih

/-- A zero byte stands behind the line. -/
theorem behind_head {buf l : List UInt8} (hLess : l.length < buf.length) (stream ended : Bool) :
    (behind ended ((if stream then buf.set 0 0 else buf).drop l.length)).head? = some 0 ↔
      ended = true ∨ (stream = true ∧ l = []) ∨ buf[l.length]? = some 0 := by
  have hLength : (if stream then buf.set 0 0 else buf).length = buf.length := by
    split
    · rw [List.length_set]
    · rfl
  cases ended with
  | true =>
      rw [behind, if_pos rfl, List.head?_eq_getElem?, List.getElem?_set_self (by
        rw [List.length_drop, hLength]
        omega)]
      simp
  | false =>
      rw [behind, if_neg Bool.false_ne_true, List.head?_drop]
      cases stream with
      | false => simp
      | true =>
          cases l with
          | nil =>
              rw [if_pos rfl, List.length_nil, List.getElem?_set_self (by rw [List.length_nil] at hLess; exact hLess)]
              simp
          | cons c l =>
              rw [if_pos rfl, List.getElem?_set_ne (by rw [List.length_cons]; omega)]
              simp

theorem recvLine_stores_iff {stream : Bool} {bufsiz : Nat} {buf : List UInt8} {events : List Event}
    (hSize : 0 < bufsiz) (hBuf : buf.length = bufsiz) (hNonzero : 0 ∉ bytesOf events) :
    (∃ text, (recvLine stream bufsiz buf events).Stores events text) ↔ Fits stream bufsiz buf events := by
  have hStart : (if stream then buf.set 0 0 else buf).length = bufsiz := by
    split
    · rw [List.length_set, hBuf]
    · exact hBuf
  have hPrefix := lineOf_prefix events
  have hLine : 0 ∉ (lineOf events).1 := fun hMem => hNonzero (hPrefix.subset hMem)
  obtain ⟨taken, hTaken, hRet, _⟩ := recvLoop_consumes stream events 0 hStart
  change bytesOf events = taken ++ bytesOf (recvLine stream bufsiz buf events).rest at hTaken
  change (recvLine stream bufsiz buf events).ret = _ ∨ _ ∧ (recvLine stream bufsiz buf events).ret = _ ∧ _ at hRet
  have hShort := @recvLoop_short stream events bufsiz [] (if stream then buf.set 0 0 else buf)
  have hLong := @recvLoop_long stream events bufsiz [] (if stream then buf.set 0 0 else buf)
  simp only [List.nil_append, List.length_nil, Nat.zero_add] at hShort hLong hRet
  by_cases hRoom : (lineOf events).1.length < bufsiz
  · obtain ⟨hStored, hReturned⟩ := hShort hStart hLine hRoom
    change (recvLine stream bufsiz buf events).buf = _ at hStored
    change (recvLine stream bufsiz buf events).ret = _ at hReturned
    have hBehind := @behind_head buf (lineOf events).1 (by omega) stream
      (ends stream ((lineOf events).1, (lineOf events).2))
    have hText := @cString_append (lineOf events).1
      (behind (ends stream ((lineOf events).1, (lineOf events).2))
        ((if stream then buf.set 0 0 else buf).drop (lineOf events).1.length)) hLine
    rw [← hStored, hBehind] at hText
    by_cases hFailed : lineOf events = ([], .failed)
    · rw [if_pos hFailed] at hReturned
      constructor
      · rintro ⟨text, _, hLength, _⟩
        omega
      · intro hFits
        exact absurd hFailed hFits.2.1
    · rw [if_neg hFailed] at hReturned
      constructor
      · rintro ⟨text, hCString, hLength, hBytes⟩
        have hSame : text = (lineOf events).1 :=
          List.prefix_of_prefix_length_le (hBytes ▸ List.prefix_append text _) hPrefix (by omega)
            |>.eq_of_length (by omega)
        rw [hSame] at hCString
        exact ⟨hRoom, hFailed, hText.mp hCString⟩
      · rintro ⟨_, _, hEnd⟩
        refine ⟨(lineOf events).1, hText.mpr hEnd, hReturned, ?_⟩
        have hLength : taken.length = (lineOf events).1.length := by omega
        have hSame : taken = (lineOf events).1 :=
          List.prefix_of_prefix_length_le (hTaken ▸ List.prefix_append taken _) hPrefix (by omega)
            |>.eq_of_length hLength
        rw [← hSame]
        exact hTaken
  · obtain ⟨hZero, hReturned⟩ := hLong hStart hLine hSize (by omega)
    constructor
    · rintro ⟨text, hCString, hLength, _⟩
      have hLe := cString_length hCString hZero
      change (recvLine stream bufsiz buf events).ret = _ at hReturned
      omega
    · intro hFits
      exact absurd hFits.1 hRoom

/-! Any number of calls. -/

theorem left_cons (events : List Event) (line : Line) (lines : List Line) :
    left events (line :: lines) = left line.rest lines := by
  rw [left, left, List.getLast?_cons]
  cases lines.getLast? <;> rfl

/-- A call leaves a buffer of the same size, and a part of the events. -/
theorem recvLine_consumes (stream : Bool) {bufsiz : Nat} {buf : List UInt8} (events : List Event)
    (hBuf : buf.length = bufsiz) :
    ∃ taken, Consumes (recvLine stream bufsiz buf events) events bufsiz 0 taken := by
  refine recvLoop_consumes stream events 0 ?_
  split
  · rw [List.length_set, hBuf]
  · exact hBuf

theorem exact_cons_iff {line : Line} {events : List Event} {bufsiz : Nat} {taken : List UInt8}
    (hConsumes : Consumes line events bufsiz 0 taken) (lines : List Line) :
    Exact events (line :: lines) ↔ (∃ text, line.Stores events text) ∧ Exact line.rest lines := by
  have hBytes := hConsumes.bytes
  have hRet := hConsumes.ret
  rw [Nat.zero_add] at hRet
  constructor
  · rintro ⟨texts, hTexts, hRets, hAll⟩
    cases texts with
    | nil => cases hTexts
    | cons text texts =>
        rw [List.map_cons, List.map_cons, List.cons.injEq] at hTexts hRets
        rw [left_cons, List.flatten_cons, List.append_assoc] at hAll
        have hLength : text.length = taken.length := by
          have hFirst := hRets.1
          omega
        rw [hAll] at hBytes
        obtain ⟨hSame, hRest⟩ := List.append_inj hBytes hLength
        refine ⟨⟨text, hTexts.1, hRets.1, ?_⟩, texts, hTexts.2, hRets.2, hRest.symm⟩
        rw [hAll, hRest]
  · rintro ⟨⟨text, hText, hTextRet, hFirst⟩, texts, hTexts, hRets, hAll⟩
    refine ⟨text :: texts, ?_, ?_, ?_⟩
    · rw [List.map_cons, List.map_cons, hText, hTexts]
    · rw [List.map_cons, List.map_cons, hTextRet, hRets]
    · rw [left_cons, List.flatten_cons, List.append_assoc, ← hAll]
      exact hFirst

/-- The texts make up what is consumed and their lengths are returned exactly if each call meets the
condition. -/
theorem recvLines_exact_iff {stream : Bool} {bufsiz : Nat} (hSize : 2 ≤ bufsiz) {buf : List UInt8}
    (hBuf : buf.length = bufsiz) {events : List Event} (hNonzero : 0 ∉ bytesOf events) (n : Nat) :
    Exact events (recvLines stream bufsiz n buf events) ↔ AllFit stream bufsiz n buf events := by
  induction n generalizing buf events with
  | zero => exact ⟨fun _ => trivial, fun _ => ⟨[], rfl, rfl, rfl⟩⟩
  | succ n ih =>
      obtain ⟨taken, hConsumes⟩ := recvLine_consumes stream events hBuf
      have hRest : 0 ∉ bytesOf (recvLine stream bufsiz buf events).rest := by
        intro hMem
        rw [hConsumes.bytes] at hNonzero
        exact hNonzero (List.mem_append_right _ hMem)
      rw [recvLines, exact_cons_iff hConsumes, recvLine_stores_iff (by omega) hBuf hNonzero,
        ih hConsumes.length hRest]
      rfl

/-- The events of some bytes. -/
def received (data : String) : List Event := (lit data).map .byte

theorem recvLines_exact_iff_two :
    Exact (received "ab\nc\n") (recvLines true 8 2 (List.replicate 8 7) (received "ab\nc\n")) ↔
      AllFit true 8 2 (List.replicate 8 7) (received "ab\nc\n") :=
  @recvLines_exact_iff true 8 (by decide) (List.replicate 8 7) rfl (received "ab\nc\n") (by decide) 2

/-- `abc` and a line feed with room for two bytes: of the two bytes that are consumed one is stored. -/
theorem recvLine_cuts :
    recvLine true 2 [7, 7] (received "abc\n") = ⟨2, [ch 'a', 0], received "c\n"⟩ ∧
      ¬ Exact (received "abc\n") (recvLines true 2 1 [7, 7] (received "abc\n")) := by
  refine ⟨rfl, ?_⟩
  rintro ⟨texts, hTexts, hRets, _⟩
  cases texts with
  | nil => cases hTexts
  | cons text texts =>
      have hText : some (lit "a") = some text := (List.cons.inj hTexts).1
      have hRet : (2 : Int) = text.length := (List.cons.inj hRets).1
      rw [← Option.some.inj hText] at hRet
      revert hRet
      decide

end Network
