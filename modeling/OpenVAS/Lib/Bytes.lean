import Mathlib.Algebra.Order.Ring.Nat
import Mathlib.Data.Nat.Bitwise
import Mathlib.Tactic.IntervalCases
import Mathlib.Tactic.Ring

/-! Byte strings read as big-endian numbers: comparison, counting up and down
with a carry, and clearing or setting the low bits byte by byte. -/
namespace Bytes

/-- The number whose base-256 digits are the bytes, the most significant first. -/
def value : List UInt8 → Nat
  | [] => 0
  | b :: bs => b.toNat * 256 ^ bs.length + value bs

/-- The bytes of a number in a field of the given length. -/
def ofValue : Nat → Nat → List UInt8
  | 0, _ => []
  | length + 1, v => UInt8.ofNat (v / 256 ^ length) :: ofValue length (v % 256 ^ length)

/-- Order of two strings of one length by their first different byte. -/
def memcmp : List UInt8 → List UInt8 → Ordering
  | a :: as, b :: bs => if a < b then .lt else if b < a then .gt else memcmp as bs
  | _, _ => .eq

/-- Adds one at the last byte; the flag says that a carry left the string. -/
def increment : List UInt8 → List UInt8 × Bool
  | [] => ([], true)
  | b :: bs =>
      let (rest, carry) := increment bs
      if carry then if b < 255 then ((b + 1) :: rest, false) else (0 :: rest, true)
      else (b :: rest, false)

/-- Subtracts one at the last byte; the flag says that a borrow left the string. -/
def decrement : List UInt8 → List UInt8 × Bool
  | [] => ([], true)
  | b :: bs =>
      let (rest, borrow) := decrement bs
      if borrow then if 0 < b then ((b - 1) :: rest, false) else (255 :: rest, true)
      else (b :: rest, false)

/-- Overwrites the last `tail` bytes with `fill` and the byte in front of them with `edit` of it. -/
def overwriteTail (tail : Nat) (fill : UInt8) (edit : UInt8 → UInt8) (bs : List UInt8) :
    List UInt8 :=
  (bs.take (bs.length - tail) ++ List.replicate tail fill).modify (bs.length - 1 - tail) edit

theorem value_append (as bs : List UInt8) :
    value (as ++ bs) = value as * 256 ^ bs.length + value bs := by
  induction as with
  | nil => simp [value]
  | cons a as ih =>
      simp only [List.cons_append, value, List.length_append, ih, pow_add]
      ring

theorem value_lt (bs : List UInt8) : value bs < 256 ^ bs.length := by
  induction bs with
  | nil => simp [value]
  | cons b bs ih =>
      have hb : b.toNat ≤ 255 := Nat.le_of_lt_succ b.toNat_lt
      calc value (b :: bs) < b.toNat * 256 ^ bs.length + 256 ^ bs.length := by
            simpa [value] using ih
        _ = (b.toNat + 1) * 256 ^ bs.length := by ring
        _ ≤ 256 * 256 ^ bs.length := Nat.mul_le_mul_right _ (by omega)
        _ = 256 ^ (b :: bs).length := by rw [List.length_cons, pow_succ, Nat.mul_comm]

theorem length_ofValue (length v : Nat) : (ofValue length v).length = length := by
  induction length generalizing v with
  | zero => rfl
  | succ length ih => simp [ofValue, ih]

theorem value_ofValue {length v : Nat} (h : v < 256 ^ length) : value (ofValue length v) = v := by
  induction length generalizing v with
  | zero =>
      have hZero : v = 0 := by simpa using h
      simp [ofValue, value, hZero]
  | succ length ih =>
      have hPos : 0 < 256 ^ length := Nat.pow_pos (by decide)
      have hTop : v / 256 ^ length < 256 := Nat.div_lt_of_lt_mul (by rwa [← pow_succ])
      rw [ofValue, value, length_ofValue, ih (Nat.mod_lt v hPos), UInt8.toNat_ofNat_of_lt' hTop,
        Nat.mul_comm]
      exact Nat.div_add_mod v (256 ^ length)

/-- Strings of one length are equal when their numbers are. -/
theorem value_injective {as bs : List UInt8} (hLength : as.length = bs.length)
    (h : value as = value bs) : as = bs := by
  induction as generalizing bs with
  | nil => exact (List.length_eq_zero_iff.mp hLength.symm).symm
  | cons a as ih =>
      cases bs with
      | nil => simp at hLength
      | cons b bs =>
          have hTail : as.length = bs.length := by simpa using hLength
          have hA := value_lt as
          have hB := value_lt bs
          simp only [value, hTail] at h hA
          have hPos : 0 < 256 ^ bs.length := Nat.pow_pos (by decide)
          have hHead : a.toNat = b.toNat := by
            have hDiv := congrArg (· / 256 ^ bs.length) h
            simpa [Nat.mul_comm _ (256 ^ bs.length), Nat.mul_add_div hPos, Nat.div_eq_of_lt, hA, hB]
              using hDiv
          rw [UInt8.toNat_inj.mp hHead, ih hTail (by rw [hHead] at h; omega)]

theorem ofValue_value (bs : List UInt8) : ofValue bs.length (value bs) = bs :=
  value_injective (length_ofValue ..) (value_ofValue (value_lt bs))

/-- `memcmp` of equally long strings compares their numbers. -/
theorem memcmp_eq_compare {as bs : List UInt8} (hLength : as.length = bs.length) :
    memcmp as bs = compare (value as) (value bs) := by
  induction as generalizing bs with
  | nil =>
      obtain rfl := (List.length_eq_zero_iff.mp hLength.symm)
      simp [memcmp]
  | cons a as ih =>
      cases bs with
      | nil => simp at hLength
      | cons b bs =>
          have hTail : as.length = bs.length := by simpa using hLength
          have hA := value_lt as
          have hB := value_lt bs
          rw [memcmp]
          simp only [value, hTail] at hA ⊢
          split
          · rename_i hLt
            have hStep : (a.toNat + 1) * 256 ^ bs.length ≤ b.toNat * 256 ^ bs.length :=
              Nat.mul_le_mul_right _ (UInt8.lt_iff_toNat_lt.mp hLt)
            rw [Nat.add_mul, Nat.one_mul] at hStep
            exact (Nat.compare_eq_lt.mpr (by omega)).symm
          · split
            · rename_i hGt
              have hStep : (b.toNat + 1) * 256 ^ bs.length ≤ a.toNat * 256 ^ bs.length :=
                Nat.mul_le_mul_right _ (UInt8.lt_iff_toNat_lt.mp hGt)
              rw [Nat.add_mul, Nat.one_mul] at hStep
              exact (Nat.compare_eq_gt.mpr (by omega)).symm
            · rename_i hNotLt hNotGt
              have hEq : a.toNat = b.toNat := by
                rw [UInt8.lt_iff_toNat_lt] at hNotLt hNotGt
                omega
              rw [ih hTail, hEq]
              simp [Nat.compare_eq_ite_lt]

theorem length_increment (bs : List UInt8) : (increment bs).1.length = bs.length := by
  induction bs with
  | nil => rfl
  | cons b bs ih =>
      rw [increment]
      simp only
      split
      · split <;> simp [ih]
      · simp [ih]

/-- Counting up adds one; the carry is set exactly when the string wraps around. -/
theorem value_increment (bs : List UInt8) :
    value (increment bs).1 + (if (increment bs).2 then 256 ^ bs.length else 0) = value bs + 1 := by
  induction bs with
  | nil => rfl
  | cons b bs ih =>
      have hLength := length_increment bs
      rw [increment]
      cases hCarry : (increment bs).2 with
      | false => simp_all [value]; omega
      | true =>
          simp only [hCarry, if_true] at ih ⊢
          by_cases hb : b < 255
          · have hSucc : (b + 1).toNat = b.toNat + 1 := by
              have hLt : b.toNat < 255 := UInt8.lt_iff_toNat_lt.mp hb
              have hOne : (1 : UInt8).toNat = 1 := rfl
              rw [UInt8.toNat_add, hOne]
              omega
            simp only [hb, if_true, value, hLength, hSucc, Bool.false_eq_true, if_false]
            rw [Nat.add_mul]
            omega
          · have hTop : b.toNat = 255 := by
              rw [UInt8.lt_iff_toNat_lt] at hb
              have hMax := b.toNat_lt
              have : ¬ b.toNat < 255 := hb
              omega
            simp only [hb, if_false, value, hLength, hTop, List.length_cons, pow_succ, if_true]
            change 0 * 256 ^ bs.length + value (increment bs).1 + _ = _
            omega

theorem length_decrement (bs : List UInt8) : (decrement bs).1.length = bs.length := by
  induction bs with
  | nil => rfl
  | cons b bs ih =>
      rw [decrement]
      simp only
      split
      · split <;> simp [ih]
      · simp [ih]

/-- Counting down subtracts one; the borrow is set exactly when the string wraps around. -/
theorem value_decrement (bs : List UInt8) :
    value (decrement bs).1 + 1 = value bs + (if (decrement bs).2 then 256 ^ bs.length else 0) := by
  induction bs with
  | nil => rfl
  | cons b bs ih =>
      have hLength := length_decrement bs
      rw [decrement]
      cases hBorrow : (decrement bs).2 with
      | false => simp_all [value]; omega
      | true =>
          simp only [hBorrow, if_true] at ih ⊢
          by_cases hb : 0 < b
          · have hPos : 0 < b.toNat := UInt8.lt_iff_toNat_lt.mp hb
            have hPred : (b - 1).toNat + 1 = b.toNat := by
              have hOne : (1 : UInt8).toNat = 1 := rfl
              have hLe : 1 ≤ b := UInt8.le_iff_toNat_le.mpr (hOne ▸ hPos)
              rw [UInt8.toNat_sub_of_le _ _ hLe, hOne]
              omega
            simp only [hb, if_true, value, hLength, ← hPred, Bool.false_eq_true, if_false]
            rw [Nat.add_mul]
            omega
          · have hZero : b.toNat = 0 := by
              rw [UInt8.lt_iff_toNat_lt] at hb
              exact Nat.eq_zero_of_not_pos hb
            simp only [hb, if_false, value, hLength, hZero, List.length_cons, pow_succ, if_true]
            change 255 * 256 ^ bs.length + value (decrement bs).1 + 1 = _
            omega

/-- The largest multiple of a power of two below a number. -/
theorem sub_mod_two_pow (x k : Nat) : x - x % 2 ^ k = 2 ^ k * (x / 2 ^ k) := by
  have hSplit := Nat.div_add_mod x (2 ^ k)
  omega

/-- The multiples of a power of two leave room for a whole block of it. -/
theorem sub_mod_add_le {x w k : Nat} (hx : x < 2 ^ w) (hk : k ≤ w) :
    x - x % 2 ^ k + 2 ^ k ≤ 2 ^ w := by
  have hPow : 2 ^ w = 2 ^ k * 2 ^ (w - k) := by rw [← pow_add, Nat.add_sub_cancel' hk]
  have hQuot : x / 2 ^ k < 2 ^ (w - k) := Nat.div_lt_of_lt_mul (hPow ▸ hx)
  rw [sub_mod_two_pow, hPow, ← Nat.mul_succ]
  exact Nat.mul_le_mul_left _ hQuot

/-- Clearing the low `k` bits of a `w`-bit number with a mask. -/
theorem and_mask {x w : Nat} (k : Nat) (hx : x < 2 ^ w) :
    x &&& ((2 ^ w - 1) ^^^ (2 ^ k - 1)) = x - x % 2 ^ k := by
  rw [sub_mod_two_pow]
  apply Nat.eq_of_testBit_eq
  intro i
  rw [Nat.testBit_and, Nat.testBit_xor, Nat.testBit_two_pow_sub_one, Nat.testBit_two_pow_sub_one,
    Nat.testBit_two_pow_mul, Nat.testBit_div_two_pow]
  by_cases hLow : i < k
  · by_cases hHigh : i < w
    · simp [hLow, hHigh]
    · have hOut : x.testBit i = false :=
        Nat.testBit_lt_two_pow (hx.trans_le (Nat.pow_le_pow_right (by decide) (by omega)))
      simp [hLow, hOut]
  · have hIndex : i - k + k = i := by omega
    have hAbove : k ≤ i := by omega
    by_cases hHigh : i < w
    · simp [hLow, hHigh, hIndex, hAbove]
    · have hOut : x.testBit i = false :=
        Nat.testBit_lt_two_pow (hx.trans_le (Nat.pow_le_pow_right (by decide) (by omega)))
      simp [hIndex, hOut]

/-- Setting the low `k` bits of a number. -/
theorem or_mask (x k : Nat) : x ||| (2 ^ k - 1) = x - x % 2 ^ k + (2 ^ k - 1) := by
  have hPos : 0 < 2 ^ k := Nat.pow_pos (by decide)
  rw [sub_mod_two_pow, Nat.two_pow_add_eq_or_of_lt (by omega)]
  apply Nat.eq_of_testBit_eq
  intro i
  rw [Nat.testBit_or, Nat.testBit_or, Nat.testBit_two_pow_sub_one, Nat.testBit_two_pow_mul,
    Nat.testBit_div_two_pow]
  by_cases hLow : i < k
  · simp [hLow]
  · have hIndex : i - k + k = i := by omega
    have hAbove : k ≤ i := by omega
    simp [hLow, hIndex, hAbove]

/-- The bytes around the one that `overwriteTail` edits. -/
theorem exists_split {bs : List UInt8} {tail : Nat} (h : tail < bs.length) :
    ∃ front b back, bs = front ++ b :: back ∧ back.length = tail := by
  refine ⟨bs.take (bs.length - 1 - tail), bs[bs.length - 1 - tail],
    bs.drop (bs.length - tail), ?_, ?_⟩
  · have hNext : bs.length - tail = bs.length - 1 - tail + 1 := by omega
    rw [hNext, List.getElem_cons_drop, List.take_append_drop]
  · rw [List.length_drop]
    omega

theorem modify_append (front : List UInt8) (b : UInt8) (back : List UInt8) (edit : UInt8 → UInt8) :
    (front ++ b :: back).modify front.length edit = front ++ edit b :: back := by
  induction front with
  | nil => rfl
  | cons a front ih => simpa using ih

theorem overwriteTail_append (front : List UInt8) (b : UInt8) (back : List UInt8) (fill : UInt8)
    (edit : UInt8 → UInt8) :
    overwriteTail back.length fill edit (front ++ b :: back) =
      front ++ edit b :: List.replicate back.length fill := by
  have hLength : (front ++ b :: back).length = front.length + 1 + back.length := by
    simp only [List.length_append, List.length_cons]
    omega
  have hTake : (front ++ b :: back).take (front.length + 1) = front ++ [b] := by
    rw [List.take_append, List.take_of_length_le (by omega)]
    simp
  rw [overwriteTail, hLength, Nat.add_sub_cancel, hTake]
  have hIndex : front.length + 1 + back.length - 1 - back.length = front.length := by omega
  rw [hIndex, List.append_assoc]
  exact modify_append front b (List.replicate back.length fill) edit

theorem length_overwriteTail {bs : List UInt8} {tail : Nat} (h : tail ≤ bs.length) (fill : UInt8)
    (edit : UInt8 → UInt8) : (overwriteTail tail fill edit bs).length = bs.length := by
  simp [overwriteTail]
  omega

/-- The low `8 * tail + r` bits of a string are those of its last bytes. -/
theorem value_mod (front : List UInt8) (b : UInt8) (back : List UInt8) {r : Nat} (hr : r ≤ 8) :
    value (front ++ b :: back) % 2 ^ (8 * back.length + r) =
      b.toNat % 2 ^ r * 256 ^ back.length + value back := by
  have hPos : 0 < 256 ^ back.length := Nat.pow_pos (by decide)
  have hBack := value_lt back
  have hPow : 2 ^ (8 * back.length + r) = 256 ^ back.length * 2 ^ r := by
    rw [pow_add, pow_mul]
    rfl
  have hValue : value (front ++ b :: back) =
      256 ^ back.length * (value front * 256 + b.toNat) + value back := by
    rw [value_append, value, List.length_cons, pow_succ]
    ring
  have hDvd : 2 ^ r ∣ value front * 256 :=
    Dvd.dvd.mul_left (pow_dvd_pow 2 hr) _
  rw [hPow, Nat.mod_mul, hValue, Nat.mul_add_mod, Nat.mod_eq_of_lt hBack, Nat.mul_add_div hPos,
    Nat.div_eq_of_lt hBack, Nat.add_zero, Nat.add_mod, Nat.mod_eq_zero_of_dvd hDvd, Nat.zero_add,
    Nat.mod_mod]
  ring

/-- The byte with the low `r` bits set. -/
def lowBits (r : Nat) : UInt8 := (1 <<< UInt8.ofNat r) - 1

theorem lowBits_toNat {r : Nat} (hr : r < 8) : (lowBits r).toNat = 2 ^ r - 1 := by
  interval_cases r <;> rfl

theorem value_replicate_zero (k : Nat) : value (List.replicate k 0) = 0 := by
  induction k with
  | zero => rfl
  | succ k ih => simpa [List.replicate_succ, value] using ih

theorem value_replicate_max (k : Nat) : value (List.replicate k 255) + 1 = 256 ^ k := by
  induction k with
  | zero => rfl
  | succ k ih =>
      rw [List.replicate_succ, value, List.length_replicate, pow_succ, ← ih]
      change 255 * _ + value (List.replicate k 255) + 1 = _
      ring

/-- Zeroing the last bytes and masking the one in front clears the low bits. -/
theorem value_clear {bs : List UInt8} {tail r : Nat} (hTail : tail < bs.length) (hr : r < 8) :
    value (overwriteTail tail 0 (· &&& (255 ^^^ lowBits r)) bs) =
      value bs - value bs % 2 ^ (8 * tail + r) := by
  obtain ⟨front, b, back, rfl, rfl⟩ := exists_split hTail
  have hMask : (b &&& (255 ^^^ lowBits r)).toNat = b.toNat - b.toNat % 2 ^ r := by
    rw [UInt8.toNat_and, UInt8.toNat_xor, lowBits_toNat hr]
    exact and_mask (w := 8) r b.toNat_lt
  have hLe := Nat.mod_le b.toNat (2 ^ r)
  have hProd : (b.toNat - b.toNat % 2 ^ r) * 256 ^ back.length +
      b.toNat % 2 ^ r * 256 ^ back.length = b.toNat * 256 ^ back.length := by
    rw [← Nat.add_mul, Nat.sub_add_cancel hLe]
  rw [overwriteTail_append, value_mod front b back hr.le, value_append, value_append, value, value,
    hMask, value_replicate_zero, List.length_cons, List.length_cons, List.length_replicate]
  omega

/-- Filling the last bytes and masking the one in front sets the low bits. -/
theorem value_fill {bs : List UInt8} {tail r : Nat} (hTail : tail < bs.length) (hr : r < 8) :
    value (overwriteTail tail 255 (· ||| lowBits r) bs) =
      value bs - value bs % 2 ^ (8 * tail + r) + (2 ^ (8 * tail + r) - 1) := by
  obtain ⟨front, b, back, rfl, rfl⟩ := exists_split hTail
  have hMask : (b ||| lowBits r).toNat = b.toNat - b.toNat % 2 ^ r + (2 ^ r - 1) := by
    rw [UInt8.toNat_or, lowBits_toNat hr]
    exact or_mask b.toNat r
  have hLe := Nat.mod_le b.toNat (2 ^ r)
  have hPow : 2 ^ (8 * back.length + r) = 2 ^ r * 256 ^ back.length := by
    rw [pow_add, pow_mul, Nat.mul_comm]
    rfl
  have hOne : 1 ≤ 2 ^ r := Nat.one_le_two_pow
  have hProd : (b.toNat - b.toNat % 2 ^ r) * 256 ^ back.length +
      b.toNat % 2 ^ r * 256 ^ back.length = b.toNat * 256 ^ back.length := by
    rw [← Nat.add_mul, Nat.sub_add_cancel hLe]
  have hOnes : (2 ^ r - 1) * 256 ^ back.length + 256 ^ back.length = 2 ^ r * 256 ^ back.length := by
    rw [← Nat.succ_mul, Nat.succ_eq_add_one, Nat.sub_add_cancel hOne]
  have hMax := value_replicate_max back.length
  rw [overwriteTail_append, value_mod front b back hr.le, value_append, value_append, value, value,
    hMask, List.length_cons, List.length_cons, List.length_replicate, hPow, Nat.add_mul]
  omega

end Bytes
