import OpenVAS.Packets.Chains

/-! The checksum on buffers of any content: a receiver that computes it over a buffer with its
checksum in place gets 0, and the two folds leave the one's complement sum of the words. -/
namespace Packets

open Checksum

/-- The words that the loop adds up; an odd byte is a word with a zero byte behind it. -/
def hostWords : List UInt8 → List Nat
  | a :: b :: rest => (a.toNat + 256 * b.toNat) :: hostWords rest
  | [a] => [a.toNat]
  | [] => []

/-- The buffer with a short stored in it, in the byte order of the host. -/
def storeShort (p : List UInt8) (offset : Nat) (v : UInt16) : List UInt8 :=
  p.take offset ++ (shortBytes v ++ p.drop (offset + 2))

theorem hostWords_lt {p : List UInt8} {w : Nat} (h : w ∈ hostWords p) : w < 65536 := by
  induction p using hostWords.induct with
  | case1 a b rest ih =>
      rcases List.mem_cons.mp h with rfl | hRest
      · have ha := a.toNat_lt
        have hb := b.toNat_lt
        omega
      · exact ih hRest
  | case2 a =>
      have ha := a.toNat_lt
      rw [List.mem_singleton.mp h]
      omega
  | case3 => exact absurd h List.not_mem_nil

theorem sum_hostWords (p : List UInt8) : (hostWords p).sum = hostTotal p := by
  induction p using hostWords.induct with
  | case1 a b rest ih => rw [hostWords, List.sum_cons, ih, hostTotal]
  | case2 a => rw [hostWords, List.sum_singleton, hostTotal]
  | case3 => rfl

theorem length_storeShort {p : List UInt8} {offset : Nat} (h : offset + 2 ≤ p.length)
    (v : UInt16) : (storeShort p offset v).length = p.length := by
  simp only [storeShort, shortBytes, List.length_append, List.length_take, List.length_drop,
    List.length_cons, List.length_nil]
  omega

/-- A short at an even offset counts with its value. -/
theorem hostTotal_storeShort {p : List UInt8} {offset : Nat} (hEven : offset % 2 = 0)
    (hInside : offset + 2 ≤ p.length) (v : UInt16) :
    hostTotal (storeShort p offset v) = hostTotal (storeShort p offset 0) + v.toNat := by
  have hFront : (p.take offset).length = 2 * (offset / 2) := by
    rw [List.length_take]
    omega
  exact hostTotal_short (offset / 2) hFront v (p.drop (offset + 2))

/-- A balanced sum has the checksum 0. -/
theorem npInCksum_eq_zero {p : List UInt8} (hLength : p.length ≤ 65535)
    (hMod : hostTotal p % 65535 = 0) (hNe : hostTotal p ≠ 0) : npInCksum p = 0 := by
  have hBound := hostTotal_le p
  have hHalf : (p.length + 1) / 2 ≤ 32768 := by omega
  have hTotal : hostTotal p ≤ 65535 * 32768 := hBound.trans (Nat.mul_le_mul_left _ hHalf)
  have hFold : hostTotal p / 65536 + hostTotal p % 65536 = 65535 := by omega
  rw [npInCksum]
  simp only [hFold]
  rfl

/-- The folds leave the one's complement sum of the words. -/
theorem npInCksum_eq_sum {p : List UInt8} (hLength : p.length ≤ 65535) :
    (npInCksum p).toNat = 65535 - (hostWords p).foldl add 0 := by
  obtain ⟨hLess, hMod, hZero⟩ := foldl_add (hostWords p) (fun w hw => hostWords_lt hw)
    (show 0 < 65536 by decide)
  rw [Nat.zero_add, sum_hostWords] at hMod hZero
  by_cases hFull : (hostWords p).foldl add 0 = 65535
  · rw [npInCksum_eq_zero hLength (by omega) (by omega), hFull]
    rfl
  · obtain ⟨hBalanced, hNe⟩ := npInCksum_balances (p := p) (by omega)
    have hSmall := (npInCksum p).toNat_lt
    omega

/-- Storing the checksum of a buffer in a field that was zero makes the checksum of the buffer
zero; two folds are enough for every buffer of that length. -/
theorem npInCksum_storeShort {p : List UInt8} {offset : Nat} (hLength : p.length ≤ 65535)
    (hEven : offset % 2 = 0) (hInside : offset + 2 ≤ p.length) :
    npInCksum (storeShort p offset (npInCksum (storeShort p offset 0))) = 0 ∧
      ∀ q : List UInt8, q.length ≤ 65535 →
        (npInCksum q).toNat = 65535 - (hostWords q).foldl add 0 := by
  refine ⟨?_, fun q hq => npInCksum_eq_sum hq⟩
  have hZero : (storeShort p offset 0).length ≤ 65535 := by rwa [length_storeShort hInside]
  obtain ⟨hMod, hNe⟩ := npInCksum_balances (p := storeShort p offset 0) (by omega)
  rw [← hostTotal_storeShort hEven hInside] at hMod hNe
  exact npInCksum_eq_zero (by rwa [length_storeShort hInside]) hMod hNe

theorem npInCksum_storeShort_odd :
    npInCksum (storeShort [0x45, 0, 0xff, 0xee, 7] 2
      (npInCksum (storeShort [0x45, 0, 0xff, 0xee, 7] 2 0))) = 0 :=
  (npInCksum_storeShort (by decide) (by decide) (by decide)).1

end Packets
