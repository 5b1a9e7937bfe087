import Mathlib.Data.Nat.ModEq

/-! The checksum of the Internet protocols: a one's complement sum of 16-bit words. A receiver
adds up the words in network order; a host may add them up in its own byte order. -/
namespace Checksum

/-- One's complement addition: a carry goes around to the low end. -/
def add (a b : Nat) : Nat := if a + b < 65536 then a + b else a + b - 65535

/-- The words in network order; an odd byte is the high one of its word. -/
def words : List UInt8 → List Nat
  | a :: b :: rest => (a.toNat * 256 + b.toNat) :: words rest
  | [a] => [a.toNat * 256]
  | [] => []

/-- The sum that a receiver computes. -/
def sum (bs : List UInt8) : Nat := (words bs).foldl add 0

/-- The checksum among the bytes is right: the sum has all bits set. -/
def Verifies (bs : List UInt8) : Prop := sum bs = 65535

/-- The plain sum of the words on a little-endian host; an odd byte is the low one of its word. -/
def hostTotal : List UInt8 → Nat
  | a :: b :: rest => a.toNat + 256 * b.toNat + hostTotal rest
  | [a] => a.toNat
  | [] => 0

theorem words_lt {bs : List UInt8} {w : Nat} (h : w ∈ words bs) : w < 65536 := by
  induction bs using words.induct with
  | case1 a b rest ih =>
      rcases List.mem_cons.mp h with rfl | hRest
      · have ha := a.toNat_lt
        have hb := b.toNat_lt
        omega
      · exact ih hRest
  | case2 a =>
      have ha := a.toNat_lt
      rw [List.mem_singleton.mp h]
      omega
  | case3 => exact absurd h List.not_mem_nil

/-- One's complement addition is addition modulo 65535, in which a sum other than 0 stays so. -/
theorem foldl_add (ws : List Nat) (hWords : ∀ w ∈ ws, w < 65536) {start : Nat} (hStart : start < 65536) :
    ws.foldl add start < 65536 ∧ ws.foldl add start % 65535 = (start + ws.sum) % 65535 ∧
      (ws.foldl add start = 0 ↔ start + ws.sum = 0) := by
  induction ws generalizing start with
  | nil => simp [hStart]
  | cons w ws ih =>
      have hw := hWords w (by simp)
      have hAdd : add start w < 65536 ∧ add start w % 65535 = (start + w) % 65535 ∧
          (add start w = 0 ↔ start + w = 0) := by
        rw [add]
        split
        · exact ⟨by omega, rfl, Iff.rfl⟩
        · omega
      obtain ⟨hLess, hMod, hZero⟩ := ih (fun v hv => hWords v (List.mem_cons_of_mem _ hv)) hAdd.1
      rw [List.foldl_cons, List.sum_cons]
      refine ⟨hLess, ?_, ?_⟩
      · rw [hMod]
        omega
      · rw [hZero]
        omega

/-- The words in the other byte order add up to 256 times the sum, modulo 65535. -/
theorem sum_words (bs : List UInt8) :
    (words bs).sum % 65535 = 256 * hostTotal bs % 65535 ∧ ((words bs).sum = 0 ↔ hostTotal bs = 0) := by
  induction bs using words.induct with
  | case1 a b rest ih =>
      rw [words, hostTotal, List.sum_cons]
      omega
  | case2 a =>
      simp only [words, hostTotal, List.sum_singleton]
      omega
  | case3 => simp [words, hostTotal]

/-- What a receiver checks, in the byte order of the host. -/
theorem verifies_iff (bs : List UInt8) :
    Verifies bs ↔ hostTotal bs % 65535 = 0 ∧ hostTotal bs ≠ 0 := by
  have hStart : 0 < 65536 := by decide
  obtain ⟨hLess, hMod, hZero⟩ := foldl_add (words bs) (fun w hw => words_lt hw) hStart
  obtain ⟨hHost, hHostZero⟩ := sum_words bs
  rw [Nat.zero_add] at hMod hZero
  rw [Verifies, sum]
  omega

/-- The sum of `n` words in front of others. -/
theorem hostTotal_append (n : Nat) {front : List UInt8} (h : front.length = 2 * n)
    (back : List UInt8) : hostTotal (front ++ back) = hostTotal front + hostTotal back := by
  induction n generalizing front with
  | zero =>
      obtain rfl := List.length_eq_zero_iff.mp h
      simp [hostTotal]
  | succ n ih =>
      match front, h with
      | a :: b :: rest, h =>
          have hRest : rest.length = 2 * n := by
            simp only [List.length_cons] at h
            omega
          rw [List.cons_append, List.cons_append, hostTotal, hostTotal, ih hRest]
          omega

theorem hostTotal_le (bs : List UInt8) : hostTotal bs ≤ 65535 * ((bs.length + 1) / 2) := by
  induction bs using hostTotal.induct with
  | case1 a b rest ih =>
      have ha := a.toNat_lt
      have hb := b.toNat_lt
      simp only [hostTotal, List.length_cons]
      omega
  | case2 a =>
      have ha := a.toNat_lt
      simp only [hostTotal, List.length_cons, List.length_nil]
      omega
  | case3 => simp [hostTotal]

/-- The complement of a sum that is folded twice. -/
def complement (total : Nat) : Nat :=
  let folded := total / 65536 + total % 65536
  65535 - (folded + folded / 65536) % 65536

/-- Two folds are enough for up to 65534 words, and then the complement balances the sum. -/
theorem complement_balances {total : Nat} (h : total ≤ 65535 * 65534) :
    complement total < 65536 ∧ (total + complement total) % 65535 = 0 ∧ total + complement total ≠ 0 := by
  rw [complement]
  generalize hHigh : total / 65536 = high
  generalize hLow : total % 65536 = low
  have hTotal : total = 65536 * high + low := by omega
  have hHighLess : high ≤ 65534 := by omega
  have hLowLess : low < 65536 := by omega
  by_cases hCarry : high + low < 65536
  · have hDiv : (high + low) / 65536 = 0 := Nat.div_eq_of_lt hCarry
    rw [hDiv, Nat.add_zero, Nat.mod_eq_of_lt hCarry]
    omega
  · have hDiv : (high + low) / 65536 = 1 := by omega
    have hMod : (high + low + 1) % 65536 = high + low + 1 - 65536 := by omega
    rw [hDiv, hMod]
    omega

end Checksum
