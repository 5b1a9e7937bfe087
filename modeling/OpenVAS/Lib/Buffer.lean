import Mathlib.Data.List.Basic

/-! Blocks of memory that are written piece by piece. A byte that has never been written is `none`;
an access outside of the block is not possible. -/
namespace CMemory

abbrev Buffer := List (Option UInt8)

/-- The block behind `ptr` with another size. -/
def realloc (ptr : Buffer) (size : Nat) : Buffer :=
  ptr.take size ++ List.replicate (size - ptr.length) none

/-- The bytes of a block from an offset on; `none` if there are not so many. -/
def slice (src : Buffer) (offset size : Nat) : Option Buffer :=
  if offset + size ≤ src.length then some ((src.drop offset).take size) else none

/-- Bytes that are written from an offset on; `none` if they do not all fit. -/
def memmove (dest : Buffer) (offset : Nat) (src : Buffer) : Option Buffer :=
  if offset + src.length ≤ dest.length then
    some (dest.take offset ++ src ++ dest.drop (offset + src.length))
  else none

def memcpy (dest : Buffer) (offset : Nat) (src : List UInt8) : Option Buffer :=
  memmove dest offset (src.map some)

@[simp] theorem length_realloc (ptr : Buffer) (size : Nat) : (realloc ptr size).length = size := by
  simp only [realloc, List.length_append, List.length_take, List.length_replicate]
  omega

theorem take_realloc {ptr : Buffer} {size n : Nat} (hPtr : n ≤ ptr.length) (hSize : n ≤ size) :
    (realloc ptr size).take n = ptr.take n := by
  rw [realloc, List.take_append_of_le_length (by rw [List.length_take]; omega), List.take_take,
    Nat.min_eq_left hSize]

theorem memmove_length {dest src buf : Buffer} {offset : Nat} (h : memmove dest offset src = some buf) :
    buf.length = dest.length := by
  unfold memmove at h
  split at h
  · obtain rfl := Option.some.inj h
    simp only [List.length_append, List.length_take, List.length_drop]
    omega
  · cases h

/-- What is written at the front stands there. -/
theorem memmove_front {dest src : Buffer} (h : src.length ≤ dest.length) :
    memmove dest 0 src = some (src ++ dest.drop src.length) := by
  rw [memmove, if_pos (by omega), Nat.zero_add]
  rfl

/-- Bytes that are copied to the start of a buffer are found there, one part after the other. -/
theorem exists_memcpy_front {buf : Buffer} {bytes : List UInt8} (h : bytes.length ≤ buf.length) :
    ∃ filled, memcpy buf 0 bytes = some filled ∧ filled.length = buf.length ∧
      ∀ n ≤ bytes.length, slice filled 0 n = some ((bytes.take n).map some) ∧
        (filled.drop n).take (bytes.length - n) = (bytes.drop n).map some := by
  have hCopy := @memmove_front buf (bytes.map some) (by rw [List.length_map]; exact h)
  refine ⟨_, hCopy, memmove_length hCopy, fun n hn => ?_⟩
  have hLength : n ≤ (bytes.map some).length := by
    rw [List.length_map]
    exact hn
  rw [slice, if_pos (by rw [List.length_append]; omega), List.drop_zero,
    List.take_append_of_le_length hLength, List.map_take, List.drop_append_of_le_length hLength,
    List.map_drop]
  exact ⟨rfl, List.take_left' (by rw [List.length_drop, List.length_map])⟩

/-- The buffer starts with these bytes. -/
structure Buffer.Holds (buf : Buffer) (out : List UInt8) : Prop where
  length : out.length ≤ buf.length
  content : buf.take out.length = out.map some

theorem Buffer.holds_nil (buf : Buffer) : buf.Holds [] := ⟨Nat.zero_le _, rfl⟩

/-- More bytes are written behind them. -/
theorem Buffer.Holds.memcpy {buf : Buffer} {out : List UInt8} (h : buf.Holds out) {src : List UInt8}
    (hRoom : out.length + src.length ≤ buf.length) :
    ∃ buf', CMemory.memcpy buf out.length src = some buf' ∧ buf'.length = buf.length ∧
      buf'.Holds (out ++ src) := by
  have hRun : CMemory.memcpy buf out.length src =
      some (buf.take out.length ++ src.map some ++ buf.drop (out.length + src.length)) := by
    rw [CMemory.memcpy, memmove, List.length_map, if_pos hRoom]
  have hLength : (buf.take out.length ++ src.map some).length = out.length + src.length := by
    rw [List.length_append, List.length_take, List.length_map, Nat.min_eq_left h.length]
  have hSame := memmove_length hRun
  refine ⟨_, hRun, hSame, ?_, ?_⟩
  · rw [hSame, List.length_append]
    exact hRoom
  · rw [List.length_append, ← hLength, List.take_left, h.content, List.map_append]

end CMemory
