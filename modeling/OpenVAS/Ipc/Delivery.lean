import OpenVAS.Ipc.Basic
import OpenVAS.Lib.Run

/-! What a peer receives of a sequence of messages. The conversation is followed
along one order of whole transfers, which stands for every run; what is left is
a function of the messages and of the text the peer's buffer holds. -/
namespace Ipc

open Channel

variable {α β : Type}

@[simp] theorem length_intBytes (value : Int32) : (intBytes value).length = 4 := by
  simp [intBytes, Bytes.length_ofValue]

@[simp] theorem intOfBytes_intBytes (value : Int32) : intOfBytes (intBytes value) = value := by
  have hLt : value.toUInt32.toNat < 256 ^ 4 := value.toUInt32.toNat_lt
  simp [intOfBytes, intBytes, Bytes.value_ofValue hLt]

theorem ofNat_not_neg {n : Nat} (h : n < 2 ^ 31) : ¬ Int32.ofNat n < 0 := by
  rw [Int32.lt_iff_toInt_lt, Int32.toInt_ofNat_of_lt h]
  simp

theorem toNatClampNeg_ofNat_le (n : Nat) : (Int32.ofNat n).toNatClampNeg ≤ n := by
  have hInt : (Int32.ofNat n).toInt ≤ n := by
    rw [Int32.toInt_ofNat']
    simp only [Int.bmod, Int32.size]
    split <;> omega
  exact Int.toNat_le.mpr hInt

theorem emits_osSendFrom (buf : List UInt8) (len : Int32) (f : Int32 → Proc α)
    (hLen : len.toNatClampNeg ≤ buf.length) (n : Nat) (hn : n ≤ len.toNatClampNeg) :
    Emits (f (Int32.ofNat len.toNatClampNeg)) (osSendFrom buf len n >>= f)
      ((buf.drop n).take (len.toNatClampNeg - n)) := by
  induction hLeft : len.toNatClampNeg - n using Nat.strong_induction_on generalizing n with
  | _ left ih =>
      rw [osSendFrom]
      split
      · rename_i hLt
        have hLength : ((buf.drop n).take left).length = left := by simp; omega
        rw [hLeft, Proc.send_bind]
        have hPos : 0 < ((buf.drop n).take left).length := by omega
        refine .send_all (List.length_pos_iff.mp hPos) fun count hPos hCount => ?_
        simp only [Nat.ne_of_gt hPos, if_false]
        have hRest := ih (left - count) (by omega) (n + count) (by omega) (by omega)
        simpa [List.drop_take, List.drop_drop] using hRest
      · have hEnd : n = len.toNatClampNeg := by omega
        have hZero : left = 0 := by omega
        subst hEnd hZero
        exact .done

/-- `os_send` puts out the bytes asked for; a negative length asks for none. -/
theorem emits_osSend (buf : List UInt8) (len : Int32) (f : Int32 → Proc α)
    (hLen : len.toNatClampNeg ≤ buf.length) :
    Emits (f (Int32.ofNat len.toNatClampNeg)) (osSend buf len >>= f)
      (buf.take len.toNatClampNeg) :=
  emits_osSendFrom buf len f hLen 0 (by omega)

theorem collects_osRecvInto (len : Int32) (f : Int32 × List UInt8 → Proc α) (buf : List UInt8)
    (hBuf : buf.length ≤ len.toNatClampNeg) :
    Collects (fun bytes => f (Int32.ofNat len.toNatClampNeg, buf ++ bytes))
      (osRecvInto buf len >>= f) (len.toNatClampNeg - buf.length) := by
  induction hLeft : len.toNatClampNeg - buf.length using Nat.strong_induction_on
    generalizing buf with
  | _ left ih =>
      rw [osRecvInto]
      split
      · rw [hLeft, Proc.recv_bind]
        refine .recv (by omega) (by omega) fun chunk hChunk hLength => ?_
        simp only [hChunk, if_false]
        have hPos : 0 < chunk.length := List.length_pos_of_ne_nil hChunk
        have hRest := ih (left - chunk.length) (by omega) (buf ++ chunk) (by simp; omega)
          (by simp; omega)
        simpa using hRest
      · have hEnd : buf.length = len.toNatClampNeg := by omega
        have hZero : left = 0 := by omega
        subst hZero
        have hDone : Collects (fun bytes => f (Int32.ofNat buf.length, buf ++ bytes))
            (f (Int32.ofNat buf.length, buf ++ [])) 0 := .done
        simpa [hEnd] using hDone

/-- `os_recv` takes in as many bytes as asked for. -/
theorem collects_osRecv (len : Int32) (f : Int32 × List UInt8 → Proc α) :
    Collects (fun bytes => f (Int32.ofNat len.toNatClampNeg, bytes)) (osRecv len >>= f)
      len.toNatClampNeg := by
  have h := collects_osRecvInto len f [] (by simp)
  simpa only [osRecv, List.nil_append, List.length_nil, Nat.sub_zero] using h

theorem four_not_neg : ¬ (4 : Int32) < 0 := by decide

theorem emits_sendInt {value : Int32} {f : Int32 → Proc α} {rest : Proc α} {bytes : List UInt8}
    (hRest : Emits rest (f 4) bytes) :
    Emits rest (osSend (intBytes value) sizeofInt >>= f) (intBytes value ++ bytes) := by
  have h := emits_osSend (intBytes value) sizeofInt f (by simp [sizeofInt])
  have hTake : (intBytes value).take sizeofInt.toNatClampNeg = intBytes value :=
    List.take_of_length_le (by simp [sizeofInt])
  rw [hTake] at h
  exact h.trans hRest

/-- The bytes one call of `internal_send` puts out before it waits. -/
def frame (message : Message) : List UInt8 :=
  intBytes message.type ++
    if IsCtrl message.type then []
    else
      let len := Int32.ofNat message.data.length
      intBytes len ++ message.data.take len.toNatClampNeg

theorem emits_internalSend (message : Message) (f : Int32 → Proc α) :
    Emits (awaitAck >>= f) (internalSend message.data message.type >>= f) (frame message) := by
  rw [internalSend, frame, Proc.bind_assoc]
  refine emits_sendInt ?_
  by_cases hCtrl : IsCtrl message.type
  · simp only [four_not_neg, hCtrl, if_true, if_false]
    exact .done
  · simp only [four_not_neg, hCtrl, if_false, Proc.bind_assoc]
    refine emits_sendInt ?_
    simp only [four_not_neg, if_false, Proc.bind_assoc]
    have hEmits := emits_osSend message.data (Int32.ofNat message.data.length)
      (fun e => (if e < 0 then pure (-1) else awaitAck) >>= f) (toNatClampNeg_ofNat_le _)
    simpa only [ofNat_not_neg (Int32.toNatClampNeg_lt _), if_false] using hEmits

theorem Settles.of_sendInt_right {final : Config α β → Prop} {left : Proc α} {value : Int32}
    {f : Int32 → Proc β} {toRight toLeft : List UInt8}
    (h : Settles final ⟨left, f 4, toRight, toLeft ++ intBytes value⟩) :
    Settles final ⟨left, osSend (intBytes value) sizeofInt >>= f, toRight, toLeft⟩ := by
  refine Settles.of_emits_right (emits_sendInt .done) ?_
  simpa using h

theorem Settles.of_osRecv_right {final : Config α β → Prop} {left : Proc α} {len : Int32}
    {f : Int32 × List UInt8 → Proc β} {bytes tail toLeft : List UInt8}
    (hLen : bytes.length = len.toNatClampNeg)
    (h : Settles final ⟨left, f (Int32.ofNat bytes.length, bytes), tail, toLeft⟩) :
    Settles final ⟨left, osRecv len >>= f, bytes ++ tail, toLeft⟩ := by
  refine Settles.of_collects_right (collects_osRecv len f) (by simp; omega) ?_
  rwa [List.take_left' hLen, List.drop_left' hLen, ← hLen]

theorem Settles.of_recvInt_right {final : Config α β → Prop} {left : Proc α} {value : Int32}
    {f : Int32 × List UInt8 → Proc β} {tail toLeft : List UInt8}
    (h : Settles final ⟨left, f (4, intBytes value), tail, toLeft⟩) :
    Settles final ⟨left, osRecv sizeofInt >>= f, intBytes value ++ tail, toLeft⟩ := by
  refine Settles.of_osRecv_right (by simp [sizeofInt]) ?_
  rwa [length_intBytes]

/-- The sender goes on when the acknowledgement is there. -/
theorem Settles.of_awaitAck {final : Config α β → Prop} {right : Proc β} {value : Int32}
    {f : Int32 → Proc α} {toRight : List UInt8} (h : Settles final ⟨f 0, right, toRight, []⟩) :
    Settles final ⟨awaitAck >>= f, right, toRight, intBytes value⟩ := by
  rw [awaitAck, Proc.bind_assoc]
  refine Settles.of_collects_left (collects_osRecv sizeofInt _) (by simp [sizeofInt]) ?_
  have hDrop : (intBytes value).drop sizeofInt.toNatClampNeg = [] :=
    List.drop_of_length_le (by simp [sizeofInt])
  have hFour : Int32.ofNat sizeofInt.toNatClampNeg = 4 := rfl
  simpa [hDrop, hFour, four_not_neg] using h

/-- A buffer has at least the size on record, which is at least the first one.
With a peer that frees large buffers it is exactly that. -/
def Inbox.Ok (releases : Bool) (inbox : Inbox) : Prop :=
  ∀ buf, inbox.data = some buf → 65535 ≤ inbox.dataSz ∧
    inbox.dataSz.toNatClampNeg ≤ buf.length ∧ (releases → inbox.dataSz = 65535)

theorem workingBuffer_ok {releases : Bool} {inbox : Inbox} (hOk : inbox.Ok releases) :
    Inbox.Ok releases ⟨some (workingBuffer inbox).1, (workingBuffer inbox).2⟩ := by
  intro buf hBuf
  obtain ⟨data, dataSz⟩ := inbox
  cases data with
  | none =>
      simp only [workingBuffer, Option.some.injEq] at hBuf ⊢
      subst hBuf
      exact ⟨by decide, by rw [emalloc, List.length_replicate]; decide, fun _ => trivial⟩
  | some old =>
      simp only [workingBuffer, Option.some.injEq] at hBuf ⊢
      subst hBuf
      exact hOk old rfl

theorem stringAt_emalloc (size : Nat) : stringAt (emalloc size) = [] := by
  simp [stringAt, emalloc, List.replicate_succ]

theorem stringAt_workingBuffer (inbox : Inbox) :
    stringAt (workingBuffer inbox).1 = inbox.held.getD [] := by
  obtain ⟨data, dataSz⟩ := inbox
  cases data with
  | none => exact stringAt_emalloc 65535
  | some buf => rfl

/-- What is read back after some bytes were received into a buffer. -/
theorem stringAt_set {bytes buf : List UInt8} (hBytes : 0 ∉ bytes)
    (hLength : bytes.length < buf.length) :
    stringAt ((bytes ++ buf.drop bytes.length).set bytes.length 0) = bytes := by
  have hRest : 0 < (buf.drop bytes.length).length := by simp; omega
  obtain ⟨first, rest, hDrop⟩ := List.exists_cons_of_length_pos hRest
  have hAll : ∀ b ∈ bytes, decide (b ≠ 0) = true := by
    intro b hMem
    have hNe : b ≠ 0 := fun h => hBytes (h ▸ hMem)
    simpa using hNe
  rw [hDrop, List.set_append_right _ _ (Nat.le_refl _), Nat.sub_self, List.set_cons_zero, stringAt,
    List.takeWhile_append_of_pos hAll]
  simp

/-- The text behind `data` after a body of this text was received. -/
def bodyRead (held : Option CString) (data : CString) : CString :=
  let len := Int32.ofNat data.length
  if 0 < len then data.take len.toNatClampNeg else held.getD []

theorem Settles.of_acknowledge {final : Config α β → Prop} {left : Proc α}
    {f : Option Receipt → Proc β} {tail toLeft : List UInt8} {inbox : Inbox}
    {len type msgType : Int32}
    (h : Settles final ⟨left, f (some ⟨len, inbox, type⟩), tail, toLeft ++
      intBytes (internalCommMsgTypeCtrl ||| internalCommCtrlAck)⟩) :
    Settles final ⟨left, acknowledge len inbox type msgType >>= f, tail, toLeft⟩ := by
  rw [acknowledge, Proc.bind_assoc]
  refine Settles.of_sendInt_right ?_
  simpa only [four_not_neg, if_false, Proc.pure_eq, Proc.ret_bind] using h

/-- A control message leaves the pair as it is. -/
theorem Settles.of_internalRecv_ctrl {final : Config α β → Prop} {left : Proc α}
    {f : Option Receipt → Proc β} {tail toLeft : List UInt8} {junk : Nat → UInt8} {inbox : Inbox}
    {msgType : Int32} {message : Message} (hCtrl : IsCtrl message.type)
    (h : Settles final ⟨left, f (some ⟨0, inbox, message.type⟩), tail, toLeft ++
      intBytes (internalCommMsgTypeCtrl ||| internalCommCtrlAck)⟩) :
    Settles final ⟨left, internalRecv junk inbox msgType >>= f, frame message ++ tail, toLeft⟩ := by
  rw [internalRecv, frame, Proc.bind_assoc]
  simp only [hCtrl, if_true, List.append_nil]
  refine Settles.of_recvInt_right ?_
  simp only [four_not_neg, if_false, intOfBytes_intBytes, hCtrl, if_true]
  exact Settles.of_acknowledge h

/-- The buffer after a body. -/
def filled (buf : List UInt8) (len : Int32) (bytes : List UInt8) : List UInt8 :=
  if 0 < len then (bytes ++ buf.drop bytes.length).set len.toNatClampNeg 0 else buf

theorem Settles.of_recvBody {final : Config α β → Prop} {left : Proc α}
    {f : Option Receipt → Proc β} {bytes tail toLeft buf : List UInt8}
    {sz len type msgType : Int32} (hBytes : bytes.length = len.toNatClampNeg)
    (h : Settles final ⟨left, f (some ⟨len, ⟨some (filled buf len bytes), sz⟩, type⟩), tail,
      toLeft ++ intBytes (internalCommMsgTypeCtrl ||| internalCommCtrlAck)⟩) :
    Settles final ⟨left, recvBody buf sz len type msgType >>= f, bytes ++ tail, toLeft⟩ := by
  rw [recvBody]
  by_cases hPos : 0 < len
  · simp only [hPos, if_true, Proc.bind_assoc]
    refine Settles.of_osRecv_right hBytes ?_
    have hNotNeg : ¬ Int32.ofNat bytes.length < 0 :=
      ofNat_not_neg (by rw [hBytes]; exact len.toNatClampNeg_lt)
    simp only [hNotNeg, if_false]
    simp only [filled, hPos, if_true] at h
    exact Settles.of_acknowledge h
  · have hNil : bytes = [] := by
      rw [← List.length_eq_zero_iff, hBytes]
      simpa using Int32.not_lt.mp hPos
    simp only [hPos, if_false, hNil, List.nil_append]
    simp only [filled, hPos, if_false] at h
    exact Settles.of_acknowledge h

/-- The pair after a message with a body; `none` says that the process has ended. -/
def stored (junk : Nat → UInt8) (inbox : Inbox) (data : CString) : Option Inbox :=
  let len := Int32.ofNat data.length
  let bytes := data.take len.toNatClampNeg
  if (workingBuffer inbox).2 ≤ len then
    (erealloc junk (workingBuffer inbox).1 (len + 1)).map fun buf =>
      ⟨some (filled buf len bytes), len + 1⟩
  else some ⟨some (filled (workingBuffer inbox).1 len bytes), (workingBuffer inbox).2⟩

theorem Settles.of_internalRecv_body {final : Config α β → Prop} {left : Proc α}
    {f : Option Receipt → Proc β} {tail toLeft : List UInt8} {junk : Nat → UInt8} {inbox : Inbox}
    {msgType : Int32} {message : Message} (hCtrl : ¬ IsCtrl message.type)
    (hSome : ∀ box, stored junk inbox message.data = some box →
      Settles final ⟨left, f (some ⟨Int32.ofNat message.data.length, box, message.type⟩), tail,
        toLeft ++ intBytes (internalCommMsgTypeCtrl ||| internalCommCtrlAck)⟩)
    (hNone : stored junk inbox message.data = none →
      Settles final ⟨left, f none,
        message.data.take (Int32.ofNat message.data.length).toNatClampNeg ++ tail, toLeft⟩) :
    Settles final ⟨left, internalRecv junk inbox msgType >>= f, frame message ++ tail, toLeft⟩ := by
  have hLength : (message.data.take (Int32.ofNat message.data.length).toNatClampNeg).length =
      (Int32.ofNat message.data.length).toNatClampNeg := by
    simpa using toNatClampNeg_ofNat_le message.data.length
  rw [internalRecv, frame, Proc.bind_assoc]
  simp only [hCtrl, if_false, List.append_assoc]
  refine Settles.of_recvInt_right ?_
  simp only [four_not_neg, if_false, intOfBytes_intBytes, hCtrl, Proc.bind_assoc]
  refine Settles.of_recvInt_right ?_
  simp only [four_not_neg, if_false, intOfBytes_intBytes]
  rw [stored] at hSome hNone
  split
  · rename_i hGrow
    simp only [hGrow, if_true] at hSome hNone
    split
    · rename_i hRealloc
      exact hNone (by rw [hRealloc]; rfl)
    · rename_i hRealloc
      exact Settles.of_recvBody hLength (hSome _ (by rw [hRealloc]; rfl))
  · rename_i hFits
    simp only [hFits, if_false] at hSome
    exact Settles.of_recvBody hLength (hSome _ rfl)

theorem toInt_succ {len : Int32} (h : len ≠ Int32.maxValue) : (len + 1).toInt = len.toInt + 1 := by
  have hNe : len.toInt ≠ 2147483647 := fun hEq => h (Int32.toInt_inj.mp hEq)
  have hLe : len.toInt ≤ 2147483647 := len.toInt_le
  have hGe : -2147483648 ≤ len.toInt := len.le_toInt
  have hOne : (1 : Int32).toInt = 1 := rfl
  rw [Int32.toInt_add, hOne]
  exact Int.bmod_eq_of_le (by omega) (by omega)

theorem erealloc_eq_none {junk : Nat → UInt8} {buf : List UInt8} {len : Int32} (hLen : 0 ≤ len) :
    erealloc junk buf (len + 1) = none ↔ len = Int32.maxValue := by
  rw [erealloc]
  constructor
  · intro h
    by_contra hNe
    have hNeg : len + 1 < 0 := by
      by_contra hNot
      simp [hNot] at h
    rw [Int32.le_iff_toInt_le, Int32.toInt_zero] at hLen
    rw [Int32.lt_iff_toInt_lt, toInt_succ hNe, Int32.toInt_zero] at hNeg
    omega
  · intro h
    subst h
    exact if_pos (by decide)

theorem length_erealloc {junk : Nat → UInt8} {buf buf' : List UInt8} {size : Int32}
    (h : erealloc junk buf size = some buf') : buf'.length = size.toNatClampNeg := by
  rw [erealloc] at h
  split at h
  · cases h
  · cases h
    simp

/-- Only the largest length makes the new size overflow. -/
theorem stored_eq_none_iff {releases : Bool} {junk : Nat → UInt8} {inbox : Inbox}
    {data : CString} (hOk : inbox.Ok releases) :
    stored junk inbox data = none ↔ Int32.ofNat data.length = Int32.maxValue := by
  have hSz : 65535 ≤ (workingBuffer inbox).2 := (workingBuffer_ok hOk _ rfl).1
  rw [stored]
  split
  · rename_i hGrow
    have hLen : 0 ≤ Int32.ofNat data.length :=
      Int32.le_trans (Int32.le_trans (by decide) hSz) hGrow
    rw [Option.map_eq_none_iff, erealloc_eq_none hLen]
  · rename_i hFits
    refine iff_of_false (by simp) fun hMax => hFits ?_
    rw [hMax]
    exact Int32.le_maxValue _

theorem stringAt_filled {held : Option CString} {buf : List UInt8} {data : CString}
    (hData : 0 ∉ data) (hHeld : ¬ 0 < Int32.ofNat data.length → stringAt buf = held.getD [])
    (hLength : (Int32.ofNat data.length).toNatClampNeg < buf.length) :
    stringAt (filled buf (Int32.ofNat data.length)
      (data.take (Int32.ofNat data.length).toNatClampNeg)) = bodyRead held data := by
  set len := Int32.ofNat data.length with hLen
  have hTake : (data.take len.toNatClampNeg).length = len.toNatClampNeg := by
    simpa using toNatClampNeg_ofNat_le data.length
  rw [filled, bodyRead, ← hLen]
  split
  · have hBytes : 0 ∉ data.take len.toNatClampNeg := fun h => hData (List.mem_of_mem_take h)
    have hSet := stringAt_set hBytes (hTake ▸ hLength)
    rwa [hTake] at hSet ⊢
  · rename_i hNot
    exact hHeld hNot

theorem length_filled {buf : List UInt8} {len : Int32} {bytes : List UInt8}
    (hBytes : bytes.length ≤ buf.length) : (filled buf len bytes).length = buf.length := by
  rw [filled]
  split
  · simp
    omega
  · rfl

/-- What a message with a body leaves in the pair. -/
structure Stored (releases : Bool) (inbox : Inbox) (data : CString) (box : Inbox) : Prop where
  held : box.held = some (bodyRead inbox.held data)
  size : 65535 ≤ box.dataSz
  room : ∀ buf, box.data = some buf → box.dataSz.toNatClampNeg ≤ buf.length
  large : releases → (65535 < box.dataSz ↔ 65535 ≤ Int32.ofNat data.length)

theorem stored_spec {releases : Bool} {junk : Nat → UInt8} {inbox box : Inbox} {data : CString}
    (hOk : inbox.Ok releases) (hData : 0 ∉ data) (h : stored junk inbox data = some box) :
    Stored releases inbox data box := by
  obtain ⟨hSz, hRoom, hFirst⟩ := workingBuffer_ok hOk _ rfl
  dsimp only at hSz hRoom hFirst
  have hNotMax : Int32.ofNat data.length ≠ Int32.maxValue := by
    intro hMax
    rw [(stored_eq_none_iff hOk).mpr hMax] at h
    cases h
  have hTake : (data.take (Int32.ofNat data.length).toNatClampNeg).length ≤
      (Int32.ofNat data.length).toNatClampNeg := List.length_take_le _ _
  rw [stored] at h
  split at h
  · rename_i hGrow
    rw [Option.map_eq_some_iff] at h
    obtain ⟨buf, hRealloc, rfl⟩ := h
    have hLarge : 65535 ≤ Int32.ofNat data.length := Int32.le_trans hSz hGrow
    have hPos : 0 < Int32.ofNat data.length := Int32.lt_of_lt_of_le (by decide) hLarge
    have hNext := toInt_succ hNotMax
    have hLength := length_erealloc hRealloc
    have hLess : (Int32.ofNat data.length).toNatClampNeg < buf.length := by
      rw [Int32.lt_iff_toInt_lt, Int32.toInt_zero] at hPos
      simp only [Int32.toNatClampNeg, hNext] at hLength ⊢
      omega
    rw [Int32.le_iff_toInt_le] at hLarge
    exact
      { held := congrArg some (stringAt_filled hData (fun hNot => absurd hPos hNot) hLess)
        size := by
          rw [Int32.le_iff_toInt_le, hNext]
          omega
        room := by
          intro buf' hBuf
          cases hBuf
          rw [length_filled (by omega), hLength]
        large := by
          intro _
          rw [Int32.lt_iff_toInt_lt, Int32.le_iff_toInt_le, hNext]
          omega }
  · rename_i hFits
    cases h
    have hLess : (Int32.ofNat data.length).toNatClampNeg < (workingBuffer inbox).1.length := by
      rw [Int32.not_le, Int32.lt_iff_toInt_lt] at hFits
      rw [Int32.le_iff_toInt_le] at hSz
      have hConst : (65535 : Int32).toInt = 65535 := rfl
      simp only [Int32.toNatClampNeg] at hRoom ⊢
      omega
    exact
      { held := congrArg some
          (stringAt_filled hData (fun _ => stringAt_workingBuffer inbox) hLess)
        size := hSz
        room := by
          intro buf' hBuf
          cases hBuf
          rwa [length_filled (by omega)]
        large := by
          intro hReleases
          rw [hFirst hReleases] at hFits ⊢
          exact iff_of_false (fun hLt => Int32.lt_irrefl hLt) hFits }

theorem releaseLarge_of_ok {releases : Bool} {inbox : Inbox} (hOk : inbox.Ok releases) :
    (releaseLarge releases inbox).Ok releases ∧
      (releaseLarge releases inbox).held = inbox.held := by
  rw [releaseLarge]
  split
  · rename_i hLarge
    refine ⟨(fun buf hBuf => nomatch hBuf), ?_⟩
    cases hData : inbox.data with
    | none => simp [Inbox.held, hData]
    | some buf =>
        have hSz := (hOk buf hData).2.2 hLarge.1
        rw [hSz] at hLarge
        exact absurd hLarge.2 (fun hLt => Int32.lt_irrefl hLt)
  · exact ⟨hOk, rfl⟩

theorem releaseLarge_of_stored {releases : Bool} {inbox box : Inbox} {data : CString}
    (h : Stored releases inbox data box) :
    (releaseLarge releases box).Ok releases ∧ (releaseLarge releases box).held =
      if releases ∧ 65535 ≤ Int32.ofNat data.length then none
      else some (bodyRead inbox.held data) := by
  have hLarge : releases ∧ 65535 < box.dataSz ↔ releases ∧ 65535 ≤ Int32.ofNat data.length :=
    and_congr_right h.large
  rw [releaseLarge, ← if_congr hLarge rfl rfl]
  split
  · exact ⟨(fun buf hBuf => nomatch hBuf), rfl⟩
  · rename_i hKept
    refine ⟨fun buf hBuf => ⟨h.size, h.room buf hBuf, fun hReleases => ?_⟩, h.held⟩
    have hNot : ¬ 65535 < box.dataSz := fun hLt => hKept ⟨hReleases, hLt⟩
    exact Int32.le_antisymm (Int32.not_lt.mp hNot) h.size

/-- What a peer whose `data` points to `held` finds, message by message. -/
def received (releases : Bool) : Option CString → List Message → List Received
  | _, [] => []
  | held, message :: rest =>
      if IsCtrl message.type then ⟨message.type, held⟩ :: received releases held rest
      else
        let len := Int32.ofNat message.data.length
        if len < 0 ∨ len = Int32.maxValue then []
        else
          let read := bodyRead held message.data
          ⟨message.type, some read⟩ ::
            received releases (if releases ∧ 65535 ≤ len then none else some read) rest

theorem not_step_ret {a : α} {b : β} {toRight toLeft : List UInt8} (c : Config α β) :
    ¬ Step ⟨.ret a, .ret b, toRight, toLeft⟩ c := by
  intro h
  cases h with
  | left h => cases h
  | right h => cases h

theorem not_step_awaitAck {f : Int32 → Proc α} {b : β} {toRight : List UInt8} (c : Config α β) :
    ¬ Step ⟨awaitAck >>= f, .ret b, toRight, []⟩ c := by
  have hRecv : ∃ next, awaitAck >>= f = .recv 4 next := by
    rw [awaitAck, osRecv, osRecvInto]
    exact ⟨_, rfl⟩
  obtain ⟨next, hNext⟩ := hRecv
  rw [hNext]
  intro h
  cases h with
  | left h =>
      cases h with
      | recv hPos _ hAvailable =>
          have : 0 < 0 := Nat.lt_of_lt_of_le hPos hAvailable
          omega
  | right h => cases h

/-- A sender whose peer has stopped comes to rest. -/
theorem settles_sendAll_ret {final : Config Unit β → Prop} {b : β} (messages : List Message)
    {toRight : List UInt8} (hFinal : ∀ left toRight, final ⟨left, .ret b, toRight, []⟩) :
    Settles final ⟨sendAll messages, .ret b, toRight, []⟩ := by
  cases messages with
  | nil => exact .of_stuck (hFinal _ _) not_step_ret
  | cons message rest =>
      refine Settles.of_emits_left (emits_internalSend message fun _ => sendAll rest) ?_
      exact .of_stuck (hFinal _ _) not_step_awaitAck

theorem settles_received (junk : Nat → UInt8) (releases : Bool) (messages : List Message)
    (hData : ∀ message ∈ messages, 0 ∉ message.data) (inbox : Inbox) (log : List Received)
    (hOk : inbox.Ok releases) :
    Settles (fun c => c.right = .ret (log ++ received releases inbox.held messages))
      ⟨sendAll messages, receiveAll junk releases messages.length inbox log, [], []⟩ := by
  induction messages generalizing inbox log with
  | nil => exact .of_stuck (by simp [receiveAll, received]) not_step_ret
  | cons message rest ih =>
      have hRest : ∀ message ∈ rest, 0 ∉ message.data := fun m hm => hData m (by simp [hm])
      refine Settles.of_emits_left (emits_internalSend message fun _ => sendAll rest) ?_
      rw [List.length_cons, receiveAll, processInternalMsg, Proc.bind_assoc,
        List.nil_append, ← List.append_nil (frame message)]
      by_cases hCtrl : IsCtrl message.type
      · refine Settles.of_internalRecv_ctrl hCtrl (Settles.of_awaitAck ?_)
        have hNot : ¬ (0 : Int32) < 0 := by decide
        obtain ⟨hKept, hHeld⟩ := releaseLarge_of_ok hOk
        have hIh := ih hRest _ (log ++ [⟨message.type, inbox.held⟩]) hKept
        rw [hHeld, List.append_assoc] at hIh
        simpa [received, hCtrl, hNot] using hIh
      · refine Settles.of_internalRecv_body hCtrl ?_ ?_
        · intro box hStored
          have hStore := stored_spec hOk (hData message (by simp)) hStored
          have hNotMax : Int32.ofNat message.data.length ≠ Int32.maxValue := by
            rw [Ne, ← stored_eq_none_iff hOk, hStored]
            simp
          refine Settles.of_awaitAck ?_
          by_cases hNeg : Int32.ofNat message.data.length < 0
          · simp only [hNeg, if_true, Proc.pure_eq, Proc.ret_bind]
            refine settles_sendAll_ret rest fun _ _ => ?_
            simp [received, hCtrl, hNeg]
          · obtain ⟨hKept, hHeld⟩ := releaseLarge_of_stored hStore
            have hIh := ih hRest _ (log ++ [⟨message.type, box.held⟩]) hKept
            rw [hHeld, hStore.held, List.append_assoc] at hIh
            simpa [received, hCtrl, hNeg, hNotMax, hStore.held] using hIh
        · intro hStored
          have hMax := (stored_eq_none_iff hOk).mp hStored
          simp only [Proc.pure_eq, Proc.ret_bind]
          refine .of_stuck ?_ not_step_awaitAck
          simp [received, hCtrl, hMax]

/-- The type is the one sent, and so is the text of a message with a body. -/
def Arrived (sent : Message) (got : Received) : Prop :=
  got.type = sent.type ∧ (¬ IsCtrl sent.type → got.data = some sent.data)

/-- In every run the peer ends with exactly the messages that were sent. -/
def Delivers (junk : Nat → UInt8) (releases : Bool) (messages : List Message) : Prop :=
  Settles (fun c => ∃ got, c.right = .ret got ∧ List.Forall₂ Arrived messages got)
    (conversation junk releases messages)

theorem delivers_iff_received {junk : Nat → UInt8} {releases : Bool} {messages : List Message}
    (hData : ∀ message ∈ messages, 0 ∉ message.data) :
    Delivers junk releases messages ↔
      List.Forall₂ Arrived messages (received releases none messages) := by
  have hRun := settles_received junk releases messages hData ⟨none, 0⟩ []
    (fun buf hBuf => nomatch hBuf)
  constructor
  · intro h
    obtain ⟨c, ⟨got, hGot, hArrived⟩, hEnd⟩ := h.common hRun
    rw [hGot] at hEnd
    cases hEnd
    exact hArrived
  · intro h
    exact hRun.mono fun c hEnd => ⟨_, hEnd, h⟩

/-- The text of the last message with a body. -/
def lastText (last : Option CString) (message : Message) : Option CString :=
  if IsCtrl message.type then last else some message.data

/-- A text whose length fits an `int`, with room for the NUL, is read back. An
empty one is not written at all: it is read back when the last text is gone from
the buffer, because it was empty itself or its buffer was freed. -/
def Readable (releases : Bool) (last : Option CString) (message : Message) : Prop :=
  ¬ IsCtrl message.type → message.data.length < 2 ^ 31 - 1 ∧
    (message.data = [] → ∀ text, last = some text →
      text = [] ∨ (releases ∧ 65535 ≤ text.length))

/-- What the buffer holds of the last text. -/
def heldOf (releases : Bool) : Option CString → Option CString
  | none => none
  | some text => if releases ∧ 65535 ≤ text.length then none else some text

theorem toInt_length {data : CString} (h : data.length < 2 ^ 31 - 1) :
    (Int32.ofNat data.length).toInt = data.length := Int32.toInt_ofNat_of_lt (by omega)

theorem not_stop {data : CString} (h : data.length < 2 ^ 31 - 1) :
    ¬ (Int32.ofNat data.length < 0 ∨ Int32.ofNat data.length = Int32.maxValue) := by
  have hMax : Int32.maxValue.toInt = 2147483647 := rfl
  rw [Int32.lt_iff_toInt_lt, ← Int32.toInt_inj, toInt_length h, hMax, Int32.toInt_zero]
  omega

theorem bodyRead_of_short {held : Option CString} {data : CString} (h : data.length < 2 ^ 31 - 1) :
    bodyRead held data = if data = [] then held.getD [] else data := by
  have hPos : 0 < Int32.ofNat data.length ↔ ¬ data = [] := by
    rw [Int32.lt_iff_toInt_lt, toInt_length h, Int32.toInt_zero, ← List.length_eq_zero_iff]
    omega
  have hTake : (Int32.ofNat data.length).toNatClampNeg = data.length := by
    rw [Int32.toNatClampNeg, toInt_length h, Int.toNat_natCast]
  simp only [bodyRead, hTake, List.take_length, hPos, ite_not]

/-- Nothing as long as the largest length is ever read. -/
theorem length_bodyRead_lt {held : Option CString} {data : CString}
    (hHeld : (held.getD []).length < 2 ^ 31 - 1)
    (hMax : Int32.ofNat data.length ≠ Int32.maxValue) :
    (bodyRead held data).length < 2 ^ 31 - 1 := by
  rw [bodyRead]
  split
  · have hNe : (Int32.ofNat data.length).toInt ≠ 2147483647 := fun h =>
      hMax (Int32.toInt_inj.mp h)
    have hLe : (Int32.ofNat data.length).toInt ≤ 2147483647 := Int32.toInt_le _
    rw [List.length_take, Int32.toNatClampNeg]
    omega
  · exact hHeld

theorem getD_heldOf (releases : Bool) (last : Option CString) :
    (heldOf releases last).getD [] = [] ↔ ∀ text, last = some text →
      text = [] ∨ (releases ∧ 65535 ≤ text.length) := by
  cases last with
  | none => simp [heldOf]
  | some text =>
      by_cases hLarge : releases ∧ 65535 ≤ text.length
      · simp [heldOf, hLarge]
      · simp [heldOf, hLarge]

theorem length_heldOf_lt {releases : Bool} {last : Option CString}
    (hLast : ∀ text, last = some text → text.length < 2 ^ 31 - 1) :
    ((heldOf releases last).getD []).length < 2 ^ 31 - 1 := by
  cases last with
  | none => simp [heldOf]
  | some text =>
      rw [heldOf]
      split
      · simp
      · exact hLast text rfl

/-- The text of a message is read back exactly under the condition. -/
theorem bodyRead_heldOf {releases : Bool} {last : Option CString} {message : Message}
    (hCtrl : ¬ IsCtrl message.type) (hLast : ∀ text, last = some text → text.length < 2 ^ 31 - 1)
    (hMax : Int32.ofNat message.data.length ≠ Int32.maxValue) :
    bodyRead (heldOf releases last) message.data = message.data ↔
      Readable releases last message := by
  by_cases hShort : message.data.length < 2 ^ 31 - 1
  · rw [bodyRead_of_short hShort]
    by_cases hEmpty : message.data = []
    · simp [Readable, hCtrl, hEmpty, getD_heldOf]
    · simpa [Readable, hCtrl, hEmpty] using hShort
  · have hHeld : ((heldOf releases last).getD []).length < 2 ^ 31 - 1 := length_heldOf_lt hLast
    have hRead := length_bodyRead_lt hHeld hMax
    refine iff_of_false (fun h => ?_) fun h => hShort (h hCtrl).1
    rw [h] at hRead
    exact hShort hRead

theorem forall₂_received_iff (releases : Bool) (messages : List Message) (last : Option CString)
    (hLast : ∀ text, last = some text → text.length < 2 ^ 31 - 1) :
    List.Forall₂ Arrived messages (received releases (heldOf releases last) messages) ↔
      Run.AllSteps lastText (Readable releases) last messages := by
  induction messages generalizing last with
  | nil => simp [received, Run.AllSteps]
  | cons message rest ih =>
      rw [received, Run.AllSteps, lastText]
      by_cases hCtrl : IsCtrl message.type
      · simp [hCtrl, Arrived, Readable, ih last hLast]
      · simp only [hCtrl, if_false]
        split
        · rename_i hStop
          refine iff_of_false (fun h => nomatch h) fun h => ?_
          exact not_stop (h.1 hCtrl).1 hStop
        · rename_i hGo
          have hRead : bodyRead (heldOf releases last) message.data = message.data ↔
              Readable releases last message :=
            bodyRead_heldOf hCtrl hLast fun h => hGo (.inr h)
          have hArrived : Arrived message
              ⟨message.type, some (bodyRead (heldOf releases last) message.data)⟩ ↔
              Readable releases last message := by
            rw [← hRead]
            simp [Arrived, hCtrl]
          rw [List.forall₂_cons, hArrived]
          refine and_congr_right fun hReadable => ?_
          have hShort := (hReadable hCtrl).1
          have hLarge : 65535 ≤ Int32.ofNat message.data.length ↔ 65535 ≤ message.data.length := by
            have hConst : (65535 : Int32).toInt = 65535 := rfl
            rw [Int32.le_iff_toInt_le, toInt_length hShort, hConst]
            omega
          rw [hRead.mpr hReadable, ← ih (some message.data) (by simpa using hShort)]
          simp only [hLarge, heldOf]

/-- The messages of a sequence are all read back as sent, in every run, exactly
when each of them is readable after those before it. -/
theorem messages_arrive_iff (junk : Nat → UInt8) (releases : Bool) (messages : List Message)
    (hData : ∀ message ∈ messages, 0 ∉ message.data) :
    Delivers junk releases messages ↔
      Run.AllSteps lastText (Readable releases) none messages := by
  rw [delivers_iff_received hData, ← forall₂_received_iff releases messages none (by simp)]
  rfl

theorem messages_arrive_text_end : Delivers (fun _ => 0) true
    [⟨internalCommMsgTypeData, CString.lit "open"⟩, ⟨internalCommMsgTypeCtrl ||| 1, []⟩] := by
  refine (messages_arrive_iff (fun _ => 0) true _ ?_).mpr ?_
  · decide
  · simp only [Run.AllSteps, Readable]
    decide

/-- An empty text behind a text of one byte is read as that text again. -/
theorem empty_message_reads_last :
    (∀ message ∈ [(⟨internalCommMsgTypeData, CString.lit "a"⟩ : Message),
      ⟨internalCommMsgTypeData, []⟩], 0 ∉ message.data) ∧
    ¬ Delivers (fun _ => 0) true
      [⟨internalCommMsgTypeData, CString.lit "a"⟩, ⟨internalCommMsgTypeData, []⟩] := by
  have hData : ∀ message ∈ [(⟨internalCommMsgTypeData, CString.lit "a"⟩ : Message),
      ⟨internalCommMsgTypeData, []⟩], 0 ∉ message.data := by decide
  refine ⟨hData, ?_⟩
  rw [delivers_iff_received hData]
  have hReceived : received true none [⟨internalCommMsgTypeData, CString.lit "a"⟩,
      ⟨internalCommMsgTypeData, []⟩] =
      [⟨internalCommMsgTypeData, some (CString.lit "a")⟩,
        ⟨internalCommMsgTypeData, some (CString.lit "a")⟩] := by decide +kernel
  rw [hReceived, List.forall₂_cons, List.forall₂_cons]
  intro h
  have hEmpty : some (CString.lit "a") = some [] := h.2.1.2 (by decide)
  exact absurd hEmpty (by decide)

end Ipc
