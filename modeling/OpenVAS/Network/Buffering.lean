import OpenVAS.Lib.Buffer

/-! Reading from a connection through its buffer, after `network.c`. -/
namespace Network

open CMemory

/-- What `read_stream_connection_unbuffered` gives: bytes and their number, or no bytes and a value
that is not positive. -/
structure Chunk where
  bytes : List UInt8
  ret : Int
  valid : ret = bytes.length ∨ (bytes = [] ∧ ret ≤ 0)

/-- Its answers, which are as long as requested at most. -/
structure Unbuffered where
  read : (minLen : Int) → (maxLen : Nat) → Chunk
  bounded : ∀ minLen maxLen, (read minLen maxLen).bytes.length ≤ maxLen

/-- What the field `buf` points to. -/
inductive BufferPtr where
  | null
  | live (buf : Buffer)
  /-- A block that `realloc` has moved to another place. -/
  | freed

/-- The block that may be accessed. -/
def BufferPtr.deref : BufferPtr → Option Buffer
  | .live buf => some buf
  | .null | .freed => none

/-- The buffer of an `openvas_connection`. -/
structure Connection where
  buf : BufferPtr
  bufsz : Nat
  bufptr : Nat
  bufcnt : Nat

/-- A connection of `get_connection_fd`, which is filled with zero bytes. -/
def newConnection : Connection := ⟨.null, 0, 0, 0⟩

/-- What a call stores in `buf0` and returns, and the bytes that it takes from the stream. -/
structure Read where
  buf0 : Buffer
  ret : Int
  fp : Connection
  taken : List UInt8

/-- `l2` bytes have been copied out of the buffer. -/
def Connection.served (fp : Connection) (buf : Buffer) (l2 : Nat) : Connection :=
  let bufcnt := fp.bufcnt - l2
  if bufcnt = 0 then { fp with buf := .live (buf.set 0 (some 0)), bufptr := 0, bufcnt := 0 }
  else { fp with bufptr := fp.bufptr + l2, bufcnt }

/-- What comes behind the `l2` bytes from the buffer: it is read past the buffer or into it. -/
def readMore (recv : Unbuffered) (fp : Connection) (buf0 : Buffer) (minLen : Int) (l2 maxLen : Nat) :
    Option Read :=
  if minLen > fp.bufsz then
    let chunk := recv.read minLen maxLen
    some ⟨buf0 ++ chunk.bytes.map some, if chunk.ret > 0 then chunk.ret + l2 else l2, fp, chunk.bytes⟩
  else
    let chunk := recv.read minLen fp.bufsz
    if chunk.ret ≤ 0 then some ⟨buf0, l2, fp, []⟩
    else do
      let buf ← memcpy (← fp.buf.deref) 0 chunk.bytes
      let bufcnt := chunk.bytes.length
      let l1 := if maxLen > bufcnt then bufcnt else maxLen
      let out ← slice buf fp.bufptr l1
      let bufptr := if bufcnt - l1 = 0 then 0 else fp.bufptr + l1
      return ⟨buf0 ++ out, l1 + l2, { fp with buf := .live buf, bufptr, bufcnt := bufcnt - l1 }, chunk.bytes⟩

/-- `none` is an access outside of the buffer, or to a block that has been freed. -/
def readStreamConnectionMin (recv : Unbuffered) (fp : Connection) (minLen : Int) (maxLen : Nat) :
    Option Read :=
  match fp.buf with
  | .null =>
      let chunk := recv.read minLen maxLen
      some ⟨chunk.bytes.map some, chunk.ret, fp, chunk.bytes⟩
  | .live _ | .freed =>
      let minLen := if maxLen = 1 then 1 else minLen
      let l2 := if maxLen > fp.bufcnt then fp.bufcnt else maxLen
      if 0 < l2 then do
        let buf ← fp.buf.deref
        let out ← slice buf fp.bufptr l2
        let fp := fp.served buf l2
        if l2 ≥ minLen ∨ l2 ≥ maxLen then return ⟨out, l2, fp, []⟩
        else readMore recv fp out (minLen - l2) l2 (maxLen - l2)
      else readMore recv fp [] minLen 0 maxLen

/-- The bytes that are buffered are moved to the start. -/
def Connection.compacted (p : Connection) : Option Connection :=
  if 0 < p.bufcnt then do
    let buf ← p.buf.deref
    let bytes ← slice buf p.bufptr p.bufcnt
    let buf ← memmove buf 0 bytes
    return { p with buf := .live buf, bufptr := 0 }
  else some p

/-- What `malloc` or `realloc` does: there is no memory, the block is at the place of the old one
if there is one, or it is at another place and the old one is freed. -/
inductive Allocation where
  | fails
  | stays
  | moves
  deriving DecidableEq

/-- The result and the connection. What `realloc` returns is not stored in `buf`. -/
def streamSetBuffer (p : Connection) (sz : Int) (allocation : Allocation) :
    Option (Int × Connection) :=
  if sz < p.bufcnt then some (-1, p)
  else if sz = 0 then
    match p.buf with
    | .freed => none
    | .null | .live _ => some (0, { p with buf := .null, bufsz := 0 })
  else
    match p.buf with
    | .null =>
        if allocation = .fails then some (-1, p)
        else some (0, ⟨.live (List.replicate sz.toNat none), sz.toNat, 0, 0⟩)
    | .live _ | .freed => do
        let p ← p.compacted
        let buf ← p.buf.deref
        match allocation with
        | .fails => return (-1, p)
        | .stays => return (0, { p with buf := .live (realloc buf sz.toNat), bufsz := sz.toNat })
        | .moves => return (0, { p with buf := .freed, bufsz := sz.toNat })

/-! A sequence of calls. -/

inductive Call where
  | read (recv : Unbuffered) (minLen : Int) (maxLen : Nat)
  | setBuffer (sz : Int) (allocation : Allocation)

/-- The connection, the bytes that the reads have returned and those taken from the stream. -/
structure Session where
  fp : Connection
  returned : Buffer
  taken : List UInt8

def step (s : Session) : Call → Option Session
  | .read recv minLen maxLen =>
      (readStreamConnectionMin recv s.fp minLen maxLen).map fun r =>
        ⟨r.fp, s.returned ++ r.buf0.take r.ret.toNat, s.taken ++ r.taken⟩
  | .setBuffer sz allocation =>
      (streamSetBuffer s.fp sz allocation).map fun r => { s with fp := r.2 }

def run (s : Session) (calls : List Call) : Option Session := calls.foldlM step s

/-- The bytes that are still in the buffer, which are not known when it has been freed. -/
def Connection.buffered (fp : Connection) : Buffer :=
  match fp.buf with
  | .null => []
  | .live buf => (buf.drop fp.bufptr).take fp.bufcnt
  | .freed => List.replicate fp.bufcnt none

/-! What holds between the calls. -/

/-- The buffer holds these bytes, and is used from its start if it holds none. Only an empty buffer
may have been freed. -/
structure Connection.Pending (fp : Connection) (bytes : List UInt8) : Prop where
  size : ∀ buf, fp.buf = .live buf → buf.length = fp.bufsz
  count : fp.bufcnt = bytes.length
  bound : fp.bufptr + fp.bufcnt ≤ (fp.buf.deref.getD []).length
  content : fp.buffered = bytes.map some
  start : fp.bufcnt = 0 → fp.bufptr = 0

theorem pending_newConnection : newConnection.Pending [] where
  size := fun _ hBuf => nomatch hBuf
  count := rfl
  bound := Nat.le_refl _
  content := rfl
  start := fun _ => rfl

/-- Without a block that can be accessed there are no bytes. -/
theorem Connection.Pending.eq_nil {fp : Connection} {bytes : List UInt8} (h : fp.Pending bytes)
    (hBuf : fp.buf.deref = none) : bytes = [] := by
  have hBound := h.bound
  have hCount := h.count
  rw [hBuf, Option.getD_none, List.length_nil] at hBound
  exact List.eq_nil_of_length_eq_zero (by omega)

/-- What was buffered and what is taken is returned or buffered now, in this order. -/
def Delivers (before : List UInt8) (r : Read) : Prop :=
  ∃ out after, r.buf0 = out.map some ∧ r.ret.toNat = out.length ∧ r.fp.Pending after ∧
    before ++ r.taken = out ++ after

theorem Chunk.bytes_of_ret {chunk : Chunk} (h : chunk.ret ≤ 0) : chunk.bytes = [] := by
  rcases chunk.valid with hLength | hNothing
  · exact List.eq_nil_of_length_eq_zero (by omega)
  · exact hNothing.1

theorem Chunk.ret_of_pos {chunk : Chunk} (h : 0 < chunk.ret) : chunk.ret = chunk.bytes.length := by
  rcases chunk.valid with hLength | hNothing
  · exact hLength
  · omega

theorem Chunk.toNat_ret (chunk : Chunk) : chunk.ret.toNat = chunk.bytes.length := by
  by_cases hPos : 0 < chunk.ret
  · rw [Chunk.ret_of_pos hPos]
    rfl
  · rw [Chunk.bytes_of_ret (by omega), List.length_nil]
    omega

theorem buffered_live {fp : Connection} {buf : Buffer} (hBuf : fp.buf = .live buf) :
    fp.buffered = (buf.drop fp.bufptr).take fp.bufcnt := by
  rw [Connection.buffered, hBuf]

/-- The first bytes of the buffer, as far as it holds them. -/
theorem Connection.Pending.slice {fp : Connection} {buf : Buffer} {bytes : List UInt8} (h : fp.Pending bytes)
    (hBuf : fp.buf = .live buf) {n : Nat} (hCount : n ≤ fp.bufcnt) :
    CMemory.slice buf fp.bufptr n = some ((bytes.take n).map some) := by
  have hBound := h.bound
  have hContent := h.content
  rw [buffered_live hBuf] at hContent
  rw [hBuf, BufferPtr.deref, Option.getD_some] at hBound
  rw [CMemory.slice, if_pos (by omega), List.map_take, ← hContent, List.take_take,
    Nat.min_eq_left hCount]

/-- The buffer behind the bytes that have been copied out. -/
theorem Connection.Pending.served {fp : Connection} {buf : Buffer} {bytes : List UInt8} (h : fp.Pending bytes)
    (hBuf : fp.buf = .live buf) {l2 : Nat} (hCount : l2 ≤ fp.bufcnt) :
    (fp.served buf l2).Pending (bytes.drop l2) ∧ ∃ buf', (fp.served buf l2).buf = .live buf' := by
  have hBound := h.bound
  have hSize := h.size buf hBuf
  have hContent := h.content
  have hLength := h.count
  rw [buffered_live hBuf] at hContent
  rw [hBuf, BufferPtr.deref, Option.getD_some] at hBound
  unfold Connection.served
  dsimp only
  split
  · rename_i hZero
    have hNil : bytes.drop l2 = [] := List.drop_of_length_le (by omega)
    refine ⟨⟨?_, ?_, ?_, ?_, fun _ => rfl⟩, _, rfl⟩
    · intro buf' hBuf'
      rw [← BufferPtr.live.inj hBuf', List.length_set]
      exact hSize
    · rw [hNil]
      rfl
    · exact Nat.zero_le _
    · rw [hNil]
      rfl
  · rename_i hMore
    refine ⟨⟨h.size, ?_, ?_, ?_, fun hNone => absurd hNone hMore⟩, buf, hBuf⟩
    · rw [List.length_drop]
      change fp.bufcnt - l2 = _
      omega
    · change fp.bufptr + l2 + (fp.bufcnt - l2) ≤ (fp.buf.deref.getD []).length
      rw [hBuf, BufferPtr.deref, Option.getD_some]
      omega
    · simp only [Connection.buffered, hBuf]
      rw [List.map_drop, ← hContent, List.drop_take, List.drop_drop]

/-- With nothing in the buffer the bytes come from the stream. -/
theorem readMore_delivers (recv : Unbuffered) {fp : Connection} (h : fp.Pending [])
    (front : List UInt8) (minLen : Int) (maxLen : Nat)
    (hBuf : (∃ buf, fp.buf = .live buf) ∨ (fp.bufsz : Int) < minLen ∨
      (recv.read minLen fp.bufsz).ret ≤ 0) :
    ∃ r, readMore recv fp (front.map some) minLen front.length maxLen = some r ∧
      Delivers front r := by
  unfold readMore
  dsimp only
  split
  · refine ⟨_, rfl, front ++ (recv.read minLen maxLen).bytes, [], ?_, ?_, h, ?_⟩
    · rw [List.map_append]
    · rw [List.length_append]
      dsimp only
      split
      · rename_i hPos
        rw [Chunk.ret_of_pos hPos]
        omega
      · rename_i hNone
        rw [Chunk.bytes_of_ret (by omega), List.length_nil]
        rfl
    · rw [List.append_nil]
  · rename_i hFits
    split
    · exact ⟨_, rfl, front, [], rfl, rfl, h, rfl⟩
    · rename_i hPos
      obtain ⟨buf, hBuf⟩ := hBuf.resolve_right fun hElse => hElse.elim hFits hPos
      have hRet := Chunk.ret_of_pos (Int.not_le.mp hPos)
      have hFits := recv.bounded minLen fp.bufsz
      have hSize := h.size buf hBuf
      have hStart := h.start h.count
      generalize (recv.read minLen fp.bufsz).bytes = bytes at hRet hFits ⊢
      obtain ⟨filled, hCopy, hLength, hContent⟩ := @exists_memcpy_front buf bytes (by omega)
      have hLeast : (if maxLen > bytes.length then bytes.length else maxLen) ≤ bytes.length := by
        split <;> omega
      generalize (if maxLen > bytes.length then bytes.length else maxLen) = l1 at hLeast ⊢
      obtain ⟨hSlice, hRest⟩ := hContent l1 hLeast
      rw [← hStart] at hSlice
      simp only [hBuf, BufferPtr.deref, hCopy, Option.bind_eq_bind, Option.bind_some, hSlice]
      refine ⟨_, rfl, front ++ bytes.take l1, bytes.drop l1, ?_, ?_, ?_, ?_⟩
      · rw [List.map_append]
      · rw [List.length_append, List.length_take]
        dsimp only
        omega
      · constructor
        · intro buf' hBuf'
          rw [← BufferPtr.live.inj hBuf', hLength]
          exact hSize
        · rw [List.length_drop]
        · rw [BufferPtr.deref, Option.getD_some, hLength, hSize]
          dsimp only
          split <;> omega
        · rw [buffered_live rfl]
          dsimp only
          by_cases hAll : bytes.length - l1 = 0
          · rw [hAll, List.drop_of_length_le (by omega : bytes.length ≤ l1)]
            rfl
          · rw [if_neg hAll, hStart, Nat.zero_add]
            exact hRest
        · intro hNone
          exact if_pos hNone
      · rw [List.append_assoc, List.take_append_drop]

/-- The least number of bytes that a read waits for. -/
def leastLen (minLen : Int) (maxLen : Nat) : Int := if maxLen = 1 then 1 else minLen

/-- A read does not need a buffer that has been freed: it goes past the buffer, or nothing comes. -/
def ReadSafe (fp : Connection) (recv : Unbuffered) (minLen : Int) (maxLen : Nat) : Prop :=
  fp.buf = .freed → (fp.bufsz : Int) < leastLen minLen maxLen ∨
    (recv.read (leastLen minLen maxLen) fp.bufsz).ret ≤ 0

/-- A read of a buffer that holds bytes. -/
theorem readStreamConnectionMin_live (recv : Unbuffered) {fp : Connection} {buf : Buffer}
    {bytes : List UInt8} (h : fp.Pending bytes) (hBuf : fp.buf = .live buf) (minLen : Int)
    {maxLen : Nat} (hMax : 1 ≤ maxLen) :
    ∃ r, readStreamConnectionMin recv fp minLen maxLen = some r ∧ Delivers bytes r := by
  rw [readStreamConnectionMin, hBuf]
  dsimp only
  generalize (if maxLen = 1 then (1 : Int) else minLen) = minLen
  have hLeast : (if maxLen > fp.bufcnt then fp.bufcnt else maxLen) ≤ fp.bufcnt ∧
      ((if maxLen > fp.bufcnt then fp.bufcnt else maxLen) < maxLen →
        (if maxLen > fp.bufcnt then fp.bufcnt else maxLen) = fp.bufcnt) := by
    split <;> omega
  generalize (if maxLen > fp.bufcnt then fp.bufcnt else maxLen) = l2 at hLeast ⊢
  have hCount := h.count
  split
  · obtain ⟨hServed, hLive⟩ := h.served hBuf hLeast.1
    rw [BufferPtr.deref, Option.bind_eq_bind, Option.bind_some, h.slice hBuf hLeast.1]
    simp only [Option.bind_some]
    split
    · refine ⟨_, rfl, bytes.take l2, bytes.drop l2, rfl, ?_, hServed, ?_⟩
      · rw [List.length_take]
        dsimp only
        omega
      · rw [List.append_nil, List.take_append_drop]
    · rename_i hGoOn
      have hAll : l2 = fp.bufcnt := hLeast.2 (by omega)
      have hTake : bytes.take l2 = bytes := List.take_of_length_le (by omega)
      have hDrop : bytes.drop l2 = [] := List.drop_of_length_le (by omega)
      rw [hDrop] at hServed
      rw [hTake, show l2 = bytes.length by omega]
      rw [show l2 = bytes.length by omega] at hServed hLive
      exact readMore_delivers recv hServed bytes _ _ (.inl hLive)
  · have hEmpty : bytes = [] := List.eq_nil_of_length_eq_zero (by omega)
    subst hEmpty
    exact readMore_delivers recv h [] _ _ (.inl ⟨buf, hBuf⟩)

/-- A read of a buffer that has been freed. -/
theorem readStreamConnectionMin_freed (recv : Unbuffered) {fp : Connection} {bytes : List UInt8}
    (h : fp.Pending bytes) (hBuf : fp.buf = .freed) (minLen : Int) {maxLen : Nat}
    (hMax : 1 ≤ maxLen) :
    readStreamConnectionMin recv fp minLen maxLen =
      readMore recv fp [] (leastLen minLen maxLen) 0 maxLen := by
  have hNil := h.eq_nil (by rw [hBuf]; rfl)
  have hNone : ¬ 0 < if maxLen > fp.bufcnt then fp.bufcnt else maxLen := by
    rw [h.count, hNil, List.length_nil, if_pos (Nat.lt_of_lt_of_le Nat.zero_lt_one hMax)]
    exact Nat.lt_irrefl 0
  rw [readStreamConnectionMin, hBuf]
  dsimp only
  rw [if_neg hNone]
  rfl

theorem readStreamConnectionMin_delivers {recv : Unbuffered} {fp : Connection} {bytes : List UInt8}
    (h : fp.Pending bytes) {minLen : Int} {maxLen : Nat} (hMax : 1 ≤ maxLen)
    (hSafe : ReadSafe fp recv minLen maxLen) :
    ∃ r, readStreamConnectionMin recv fp minLen maxLen = some r ∧ Delivers bytes r := by
  cases hBuf : fp.buf with
  | null =>
      obtain rfl := h.eq_nil (by rw [hBuf]; rfl)
      refine ⟨⟨(recv.read minLen maxLen).bytes.map some, (recv.read minLen maxLen).ret, fp,
        (recv.read minLen maxLen).bytes⟩, by rw [readStreamConnectionMin, hBuf], ?_⟩
      exact ⟨(recv.read minLen maxLen).bytes, [], rfl, Chunk.toNat_ret _, h, (List.append_nil _).symm⟩
  | live buf => exact readStreamConnectionMin_live recv h hBuf minLen hMax
  | freed =>
      rw [readStreamConnectionMin_freed recv h hBuf minLen hMax]
      obtain rfl := h.eq_nil (by rw [hBuf]; rfl)
      exact readMore_delivers recv h [] _ _ (.inr (hSafe hBuf))

theorem readStreamConnectionMin_of_not_safe {recv : Unbuffered} {fp : Connection}
    {bytes : List UInt8} (h : fp.Pending bytes) {minLen : Int} {maxLen : Nat} (hMax : 1 ≤ maxLen)
    (hNot : ¬ ReadSafe fp recv minLen maxLen) :
    readStreamConnectionMin recv fp minLen maxLen = none := by
  obtain ⟨hBuf, hUsed⟩ := Classical.not_imp.mp hNot
  obtain ⟨hFits, hPos⟩ := not_or.mp hUsed
  rw [readStreamConnectionMin_freed recv h hBuf minLen hMax, readMore, if_neg hFits]
  simp [hPos, hBuf, BufferPtr.deref]

theorem compacted_pending {p : Connection} {buf : Buffer} {bytes : List UInt8} (h : p.Pending bytes)
    (hBuf : p.buf = .live buf) :
    ∃ q buf', p.compacted = some q ∧ q.Pending bytes ∧ q.buf = .live buf' ∧ q.bufptr = 0 ∧
      q.bufcnt = p.bufcnt := by
  have hCount := h.count
  have hBound := h.bound
  have hSize := h.size buf hBuf
  unfold Connection.compacted
  split
  · rw [hBuf, BufferPtr.deref, Option.getD_some] at hBound
    have hSlice := h.slice hBuf (Nat.le_refl _)
    have hTake : bytes.take p.bufcnt = bytes := List.take_of_length_le (by omega)
    have hFront := @memmove_front buf (bytes.map some) (by rw [List.length_map]; omega)
    rw [hTake] at hSlice
    rw [List.length_map] at hFront
    rw [hBuf, BufferPtr.deref, Option.bind_eq_bind, Option.bind_some, hSlice]
    dsimp only [Option.bind_eq_bind, Option.bind_some]
    rw [hFront]
    have hLength : (bytes.map some ++ buf.drop bytes.length).length = p.bufsz := by
      rw [List.length_append, List.length_map, List.length_drop]
      omega
    refine ⟨_, _, rfl, ⟨?_, hCount, ?_, ?_, fun _ => rfl⟩, rfl, rfl, rfl⟩
    · intro buf' hMoved
      rw [← BufferPtr.live.inj hMoved]
      exact hLength
    · rw [BufferPtr.deref, Option.getD_some, hLength]
      dsimp only
      omega
    · rw [buffered_live rfl]
      change (bytes.map some ++ buf.drop bytes.length).take p.bufcnt = _
      rw [hCount]
      conv_lhs => rw [← List.length_map (some : UInt8 → Option UInt8), List.take_left]
  · rename_i hNone
    exact ⟨p, buf, rfl, h, hBuf, h.start (by omega), rfl⟩

/-- A buffer that holds bytes is not moved, and one that has been freed is not used again. -/
structure SetSafe (p : Connection) (sz : Int) (allocation : Allocation) : Prop where
  freed : p.buf = .freed → sz < p.bufcnt
  moved : ∀ buf, p.buf = .live buf → (p.bufcnt : Int) ≤ sz → sz ≠ 0 → allocation = .moves →
    p.bufcnt = 0

/-- The buffer behind a `realloc` that leaves the block where it is. -/
theorem realloc_pending {q : Connection} {buf : Buffer} {bytes : List UInt8} (h : q.Pending bytes)
    (hBuf : q.buf = .live buf) (hPtr : q.bufptr = 0) {sz : Int} (hSize : (q.bufcnt : Int) ≤ sz) :
    Connection.Pending { q with buf := .live (realloc buf sz.toNat), bufsz := sz.toNat } bytes := by
  have hBound := h.bound
  have hContent := h.content
  have hStart := h.start
  rw [buffered_live hBuf, hPtr, List.drop_zero] at hContent
  rw [hBuf, BufferPtr.deref, Option.getD_some, hPtr] at hBound
  refine ⟨?_, h.count, ?_, ?_, hStart⟩
  · intro buf' hNew
    rw [← BufferPtr.live.inj hNew, length_realloc]
  · rw [BufferPtr.deref, Option.getD_some, length_realloc, hPtr]
    dsimp only
    omega
  · rw [buffered_live rfl]
    dsimp only
    rw [hPtr, List.drop_zero, take_realloc (by omega) (by omega), hContent]

/-- What a call of `stream_set_buffer` does to a buffer that can be accessed. -/
theorem streamSetBuffer_live {p : Connection} {buf : Buffer} {bytes : List UInt8}
    (h : p.Pending bytes) (hBuf : p.buf = .live buf) {sz : Int} (hSize : (p.bufcnt : Int) ≤ sz)
    (hZero : sz ≠ 0) (allocation : Allocation) :
    ∃ r, streamSetBuffer p sz allocation = some r ∧
      if allocation = .moves then r.2.buf = .freed ∧ r.2.bufptr = 0 ∧ r.2.bufcnt = p.bufcnt
      else r.2.Pending bytes := by
  obtain ⟨q, buf', hCompacted, hPending, hBuf', hPtr, hCnt⟩ := compacted_pending h hBuf
  rw [streamSetBuffer, if_neg (Int.not_lt.mpr hSize), if_neg hZero, hBuf]
  dsimp only
  rw [hCompacted, Option.bind_eq_bind, Option.bind_some, hBuf', BufferPtr.deref]
  cases allocation with
  | fails => exact ⟨_, rfl, hPending⟩
  | stays => exact ⟨_, rfl, realloc_pending hPending hBuf' hPtr (hCnt ▸ hSize)⟩
  | moves => exact ⟨_, rfl, rfl, hPtr, hCnt⟩

theorem streamSetBuffer_delivers {p : Connection} {bytes : List UInt8} (h : p.Pending bytes)
    {sz : Int} {allocation : Allocation} (hSafe : SetSafe p sz allocation) :
    ∃ r, streamSetBuffer p sz allocation = some r ∧ r.2.Pending bytes := by
  have hCount := h.count
  by_cases hSize : sz < p.bufcnt
  · exact ⟨_, by rw [streamSetBuffer, if_pos hSize], h⟩
  by_cases hZero : sz = 0
  · have hNil : bytes = [] := List.eq_nil_of_length_eq_zero (by omega)
    have hStart := h.start (by rw [hCount, hNil]; rfl)
    subst hNil
    have hDropped : Connection.Pending { p with buf := .null, bufsz := 0 } [] := by
      refine ⟨fun _ hBuf => (nomatch hBuf), hCount, ?_, rfl, h.start⟩
      change p.bufptr + p.bufcnt ≤ 0
      rw [hStart, hCount]
      exact Nat.le_refl _
    rw [streamSetBuffer, if_neg hSize, if_pos hZero]
    cases hBuf : p.buf with
    | null => exact ⟨_, rfl, hDropped⟩
    | live buf => exact ⟨_, rfl, hDropped⟩
    | freed => exact absurd (hSafe.freed hBuf) hSize
  cases hBuf : p.buf with
  | null =>
      obtain rfl := h.eq_nil (by rw [hBuf]; rfl)
      rw [streamSetBuffer, if_neg hSize, if_neg hZero, hBuf]
      dsimp only
      split
      · exact ⟨_, rfl, h⟩
      · refine ⟨_, rfl, ⟨?_, rfl, Nat.zero_le _, rfl, fun _ => rfl⟩⟩
        intro buf hNew
        rw [← BufferPtr.live.inj hNew, List.length_replicate]
  | live buf =>
      obtain ⟨r, hRun, hAfter⟩ := streamSetBuffer_live h hBuf (Int.not_lt.mp hSize) hZero allocation
      refine ⟨r, hRun, ?_⟩
      split at hAfter
      · rename_i hMoves
        have hNone := hSafe.moved buf hBuf (Int.not_lt.mp hSize) hZero hMoves
        obtain ⟨hFreed, hPtr, hCnt⟩ := hAfter
        have hNil : bytes = [] := List.eq_nil_of_length_eq_zero (by omega)
        subst hNil
        refine ⟨fun _ hLive => (nomatch hFreed.symm.trans hLive), hCnt.trans hCount, ?_, ?_,
          fun _ => hPtr⟩
        · rw [hPtr, hCnt, hNone]
          exact Nat.zero_le _
        · rw [Connection.buffered, hFreed]
          dsimp only
          rw [hCnt, hNone]
          rfl
      · exact hAfter
  | freed => exact absurd (hSafe.freed hBuf) hSize

/-! Any sequence of calls. -/

/-- What has been returned, and then what is buffered, is what was taken. -/
def Session.Delivered (s : Session) : Prop :=
  s.returned ++ s.fp.buffered = s.taken.map some ∧ s.fp.bufptr + s.fp.bufcnt ≤ s.fp.bufsz

/-- What holds as long as no call has gone wrong. -/
def Session.Intact (s : Session) : Prop :=
  ∃ out bytes, s.returned = out.map some ∧ s.fp.Pending bytes ∧ out ++ bytes = s.taken

theorem Session.Intact.delivered {s : Session} (h : s.Intact) : s.Delivered := by
  obtain ⟨out, bytes, hReturned, hPending, hTaken⟩ := h
  refine ⟨by rw [hReturned, hPending.content, ← List.map_append, hTaken], ?_⟩
  have hBound := hPending.bound
  cases hBuf : s.fp.buf with
  | live buf =>
      rw [hBuf, BufferPtr.deref, Option.getD_some, hPending.size buf hBuf] at hBound
      exact hBound
  | null =>
      rw [hBuf, BufferPtr.deref, Option.getD_none, List.length_nil] at hBound
      omega
  | freed =>
      rw [hBuf, BufferPtr.deref, Option.getD_none, List.length_nil] at hBound
      omega

/-- The calls that go well in a state. -/
def Safe (fp : Connection) : Call → Prop
  | .read recv minLen maxLen => ReadSafe fp recv minLen maxLen
  | .setBuffer sz allocation => SetSafe fp sz allocation

/-- The reads of a sequence have room for a byte. -/
def Reading (calls : List Call) : Prop :=
  ∀ recv minLen maxLen, .read recv minLen maxLen ∈ calls → 1 ≤ maxLen

theorem step_intact {s : Session} (h : s.Intact) {call : Call}
    (hMax : ∀ recv minLen maxLen, call = .read recv minLen maxLen → 1 ≤ maxLen)
    (hSafe : Safe s.fp call) : ∃ s', step s call = some s' ∧ s'.Intact := by
  obtain ⟨out, bytes, hReturned, hPending, hTaken⟩ := h
  cases call with
  | read recv minLen maxLen =>
      obtain ⟨r, hRun, out', after, hBuf0, hRet, hAfter, hAll⟩ :=
        readStreamConnectionMin_delivers hPending (hMax recv minLen maxLen rfl) hSafe
      refine ⟨_, by rw [step, hRun]; rfl, ⟨out ++ out', after, ?_, hAfter, ?_⟩⟩
      · dsimp only
        rw [hReturned, hBuf0, hRet, List.take_of_length_le (Nat.le_of_eq (List.length_map some)), List.map_append]
      · dsimp only
        rw [List.append_assoc, ← hAll, ← hTaken, List.append_assoc]
  | setBuffer sz allocation =>
      obtain ⟨r, hRun, hAfter⟩ := streamSetBuffer_delivers hPending hSafe
      exact ⟨{ s with fp := r.2 }, by rw [step, hRun]; rfl, ⟨out, bytes, hReturned, hAfter, hTaken⟩⟩

/-- Bytes that are not known are not those of the stream. -/
theorem not_delivered_of_freed {s : Session} (hBuf : s.fp.buf = .freed) (hCount : s.fp.bufcnt ≠ 0) :
    ¬ s.Delivered := by
  rintro ⟨hBytes, -⟩
  have hMem : none ∈ s.taken.map some := by
    rw [← hBytes, Connection.buffered, hBuf]
    exact List.mem_append_right _ (List.mem_replicate.mpr ⟨hCount, rfl⟩)
  obtain ⟨b, -, hNone⟩ := List.mem_map.mp hMem
  cases hNone

theorem step_of_not_safe {s s' : Session} (h : s.Intact) {call : Call}
    (hMax : ∀ recv minLen maxLen, call = .read recv minLen maxLen → 1 ≤ maxLen)
    (hNot : ¬ Safe s.fp call) (hStep : step s call = some s') : ¬ s'.Delivered := by
  obtain ⟨out, bytes, -, hPending, -⟩ := h
  cases call with
  | read recv minLen maxLen =>
      rw [step, readStreamConnectionMin_of_not_safe hPending (hMax recv minLen maxLen rfl) hNot] at hStep
      cases hStep
  | setBuffer sz allocation =>
      by_cases hSize : sz < s.fp.bufcnt
      · exact absurd ⟨fun _ => hSize, fun _ _ hLe => absurd hSize (Int.not_lt.mpr hLe)⟩ hNot
      cases hBuf : s.fp.buf with
      | null =>
          exact absurd ⟨fun hFreed => (nomatch hBuf.symm.trans hFreed),
            fun _ hLive => (nomatch hBuf.symm.trans hLive)⟩ hNot
      | freed =>
          have hFault : streamSetBuffer s.fp sz allocation = none := by
            have hNil := hPending.eq_nil (by rw [hBuf]; rfl)
            have hNone : ¬ 0 < s.fp.bufcnt := by
              rw [hPending.count, hNil]
              exact Nat.lt_irrefl 0
            rw [streamSetBuffer, if_neg hSize, hBuf]
            dsimp only
            rw [Connection.compacted, if_neg hNone, Option.bind_eq_bind, Option.bind_some, hBuf]
            simp [BufferPtr.deref]
          rw [step, hFault] at hStep
          cases hStep
      | live buf =>
          have hMoved : sz ≠ 0 ∧ allocation = .moves ∧ s.fp.bufcnt ≠ 0 := by
            by_contra hElse
            refine hNot ⟨fun hFreed => (nomatch hBuf.symm.trans hFreed), fun _ _ _ hZero hMoves => ?_⟩
            by_contra hCount
            exact hElse ⟨hZero, hMoves, hCount⟩
          obtain ⟨r, hRun, hAfter⟩ :=
            streamSetBuffer_live hPending hBuf (Int.not_lt.mp hSize) hMoved.1 allocation
          rw [if_pos hMoved.2.1] at hAfter
          rw [step, hRun] at hStep
          obtain rfl := Option.some.inj hStep
          exact not_delivered_of_freed hAfter.1 (hAfter.2.2 ▸ hMoved.2.2)

/-- The calls of a sequence go well, one after the other. -/
def SafeFrom (s : Session) : List Call → Prop
  | [] => True
  | call :: calls => Safe s.fp call ∧ ∀ s', step s call = some s' → SafeFrom s' calls

/-- The property holds after every call. -/
def DeliversFrom (s : Session) (calls : List Call) : Prop :=
  ∀ front, front <+: calls → ∃ s', run s front = some s' ∧ s'.Delivered

theorem deliversFrom_cons {s s' : Session} {call : Call} (hStep : step s call = some s')
    (hHere : s.Delivered) (calls : List Call) :
    DeliversFrom s (call :: calls) ↔ DeliversFrom s' calls := by
  have hRun (front : List Call) : run s (call :: front) = run s' front := by
    rw [run, List.foldlM_cons, hStep]
    rfl
  constructor
  · intro h front hFront
    rw [← hRun]
    exact h (call :: front) (List.cons_prefix_cons.mpr ⟨rfl, hFront⟩)
  · intro h front hFront
    cases front with
    | nil => exact ⟨s, rfl, hHere⟩
    | cons first front =>
        obtain ⟨rfl, hRest⟩ := List.cons_prefix_cons.mp hFront
        rw [hRun]
        exact h front hRest

theorem deliversFrom_iff {s : Session} (h : s.Intact) {calls : List Call} (hMax : Reading calls) :
    DeliversFrom s calls ↔ SafeFrom s calls := by
  induction calls generalizing s with
  | nil =>
      refine iff_of_true (fun front hFront => ?_) trivial
      obtain rfl := List.prefix_nil.mp hFront
      exact ⟨s, rfl, h.delivered⟩
  | cons call calls ih =>
      have hFirst : ∀ recv minLen maxLen, call = .read recv minLen maxLen → 1 ≤ maxLen :=
        fun recv minLen maxLen hCall => hMax recv minLen maxLen (hCall ▸ List.mem_cons_self)
      have hRest : Reading calls := fun recv minLen maxLen hMem =>
        hMax recv minLen maxLen (List.mem_cons_of_mem _ hMem)
      by_cases hSafe : Safe s.fp call
      · obtain ⟨s', hStep, hIntact⟩ := step_intact h hFirst hSafe
        rw [deliversFrom_cons hStep h.delivered, ih hIntact hRest, SafeFrom]
        constructor
        · intro hAll
          refine ⟨hSafe, fun other hOther => ?_⟩
          obtain rfl := Option.some.inj (hStep.symm.trans hOther)
          exact hAll
        · exact fun hAll => hAll.2 s' hStep
      · refine iff_of_false (fun hAll => ?_) fun hAll => hSafe hAll.1
        obtain ⟨s', hRun, hDelivered⟩ := hAll [call] (List.cons_prefix_cons.mpr ⟨rfl, List.nil_prefix⟩)
        rw [run, List.foldlM_cons] at hRun
        obtain ⟨next, hStep, hNext⟩ := Option.bind_eq_some_iff.mp hRun
        obtain rfl : next = s' := Option.some.inj hNext
        exact step_of_not_safe h hFirst hSafe hStep hDelivered

/-- After every call the bytes of the reads, followed by those in the buffer, are the bytes of the
stream, exactly when no call moves bytes away or needs a buffer that has been moved away. -/
theorem run_delivers_iff {calls : List Call} (hMax : Reading calls) :
    DeliversFrom ⟨newConnection, [], []⟩ calls ↔ SafeFrom ⟨newConnection, [], []⟩ calls :=
  deliversFrom_iff ⟨[], [], rfl, pending_newConnection, rfl⟩ hMax

/-- Two bytes wherever so many are requested. -/
def twoBytes : Unbuffered where
  read _ maxLen := ⟨[1, 2].take maxLen, ([1, 2].take maxLen).length, Or.inl rfl⟩
  bounded _ maxLen := by
    rw [List.length_take]
    exact Nat.min_le_left _ _

/-- A buffer that is made larger when it holds a byte. -/
def enlarging (allocation : Allocation) : List Call :=
  [.setBuffer 4 .stays, .read twoBytes 1 1, .setBuffer 8 allocation, .read twoBytes (-1) 3]

theorem enlarging_reading (allocation : Allocation) : Reading (enlarging allocation) := by
  intro recv minLen maxLen hMem
  simp only [enlarging, List.mem_cons, List.not_mem_nil, or_false, reduceCtorEq, false_or,
    Call.read.injEq] at hMem
  omega

theorem run_delivers_iff_enlarging :
    DeliversFrom ⟨newConnection, [], []⟩ (enlarging .stays) ↔
      SafeFrom ⟨newConnection, [], []⟩ (enlarging .stays) :=
  run_delivers_iff (enlarging_reading .stays)

/-- The block is moved, and the byte is read where it was: `buf` still points there. -/
theorem enlarging_moves :
    Reading (enlarging .moves) ∧ run ⟨newConnection, [], []⟩ (enlarging .moves) = none ∧
      ¬ DeliversFrom ⟨newConnection, [], []⟩ (enlarging .moves) := by
  have hFault : run ⟨newConnection, [], []⟩ (enlarging .moves) = none := rfl
  refine ⟨enlarging_reading .moves, hFault, fun hAll => ?_⟩
  obtain ⟨s, hRun, -⟩ := hAll _ (List.prefix_refl _)
  rw [hFault] at hRun
  cases hRun

end Network
