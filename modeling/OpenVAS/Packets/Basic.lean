import OpenVAS.Lib.CString
import OpenVAS.Lib.Checksum

/-! What the packet functions of `nasl_packet_forgery.c` work with: the named arguments of a
call, integers in host byte order (little endian) and headers laid over the bytes of a buffer. -/
namespace Packets

open CString Checksum

/-! Arguments. -/

/-- A VAR2_INT, or a VAR2_STRING or VAR2_DATA with its bytes. -/
inductive Argument where
  | int (vInt : Int32)
  | str (sVal : List UInt8)
deriving DecidableEq

/-- The named arguments of a call; `none` is VAR2_UNDEF. -/
abbrev Lexic := String → Option Argument

def var2int : Option Argument → Int32 → Int32
  | some (.int v), _ => v
  | some (.str s), _ => atoi s
  | none, defval => defval

def var2str : Option Argument → Option CString
  | some (.int v) => some (showInt v.toInt)
  | some (.str s) => some s
  | none => none

def getVarSize : Option Argument → Nat
  | some (.str s) => s.length
  | _ => 0

def getIntLocalVarByName (lexic : Lexic) (name : String) (defval : Int32) : Int32 :=
  var2int (lexic name) defval

def getStrLocalVarByName (lexic : Lexic) (name : String) : Option CString := var2str (lexic name)

def getLocalVarSizeByName (lexic : Lexic) (name : String) : Nat := getVarSize (lexic name)

/-- The text that string functions see of the bytes. -/
def cText (s : CString) : CString := s.takeWhile (· ≠ 0)

/-- Why a call does not return: an access outside a buffer, or `exit`. -/
inductive Fault where
  | memory
  | exit
deriving DecidableEq

/-- `emalloc` of a size that is an int. -/
def emalloc (size : Int32) : Except Fault (List UInt8) :=
  if size < 0 then .error .exit else .ok (List.replicate size.toInt.toNat 0)

/-- Bytes written into a buffer from an offset on. -/
def bcopy (src buf : List UInt8) (offset : Nat) : Except Fault (List UInt8) :=
  if src = [] then .ok buf
  else if offset + src.length ≤ buf.length then
    .ok (buf.take offset ++ src ++ buf.drop (offset + src.length))
  else .error .memory

/-! Integers in memory. -/

def shortOf (a b : UInt8) : UInt16 := UInt16.ofNat (a.toNat + 256 * b.toNat)

def shortBytes (v : UInt16) : List UInt8 := [UInt8.ofNat v.toNat, UInt8.ofNat (v.toNat / 256)]

/-- The bytes in the other order, on this host. -/
def htons (v : UInt16) : UInt16 := shortOf (UInt8.ofNat (v.toNat / 256)) (UInt8.ofNat v.toNat)

def ntohs (v : UInt16) : UInt16 := htons v

def longOf (a b c d : UInt8) : UInt32 :=
  UInt32.ofNat (a.toNat + 256 * b.toNat + 65536 * c.toNat + 16777216 * d.toNat)

def longBytes (v : UInt32) : List UInt8 :=
  [UInt8.ofNat v.toNat, UInt8.ofNat (v.toNat / 256), UInt8.ofNat (v.toNat / 65536),
    UInt8.ofNat (v.toNat / 16777216)]

def htonl (v : UInt32) : UInt32 :=
  longOf (UInt8.ofNat (v.toNat / 16777216)) (UInt8.ofNat (v.toNat / 65536))
    (UInt8.ofNat (v.toNat / 256)) (UInt8.ofNat v.toNat)

def ntohl (v : UInt32) : UInt32 := htonl v

/-- An int stored in a bit-field of four bits, in a `u_char` or in a `u_short`. -/
def toNibble (v : Int32) : BitVec 4 := BitVec.ofNat 4 v.toUInt32.toNat

def toChar (v : Int32) : UInt8 := v.toUInt32.toUInt8

def toShort (v : Int32) : UInt16 := v.toUInt32.toUInt16

/-- Unsigned values as an int. -/
def ofNibble (v : BitVec 4) : Int32 := Int32.ofNat v.toNat

def ofChar (v : UInt8) : Int32 := v.toUInt32.toInt32

def ofShort (v : UInt16) : Int32 := v.toUInt32.toInt32

@[simp] theorem toNibble_ofNibble (v : BitVec 4) : toNibble (ofNibble v) = v := by
  apply BitVec.eq_of_toNat_eq
  have hSmall := v.isLt
  simp [toNibble, ofNibble]
  omega

@[simp] theorem toChar_ofChar (v : UInt8) : toChar (ofChar v) = v := by simp [toChar, ofChar]

@[simp] theorem toShort_ofShort (v : UInt16) : toShort (ofShort v) = v := by simp [toShort, ofShort]

theorem bcopy_append (front src hole back : List UInt8) (h : hole.length = src.length) :
    bcopy src (front ++ hole ++ back) front.length = .ok (front ++ src ++ back) := by
  rw [bcopy]
  split
  · rename_i hNil
    subst hNil
    obtain rfl := List.length_eq_zero_iff.mp h
    rfl
  · have hFits : front.length + src.length ≤ (front ++ hole ++ back).length := by
      simp only [List.length_append]
      omega
    have hDrop : (front ++ hole ++ back).drop (front.length + src.length) = back := by
      rw [← h, ← List.length_append, List.drop_left]
    rw [if_pos hFits, hDrop, List.append_assoc front hole, List.take_left]

theorem shortOf_bytes (v : UInt16) :
    shortOf (UInt8.ofNat v.toNat) (UInt8.ofNat (v.toNat / 256)) = v := by
  have hSmall := v.toNat_lt
  apply UInt16.toNat_inj.mp
  simp only [shortOf, UInt16.toNat_ofNat', UInt8.toNat_ofNat']
  omega

theorem longOf_bytes (v : UInt32) :
    longOf (UInt8.ofNat v.toNat) (UInt8.ofNat (v.toNat / 256)) (UInt8.ofNat (v.toNat / 65536))
      (UInt8.ofNat (v.toNat / 16777216)) = v := by
  have hSmall := v.toNat_lt
  apply UInt32.toNat_inj.mp
  simp only [longOf, UInt32.toNat_ofNat', UInt8.toNat_ofNat']
  omega

@[simp] theorem shortBytes_shortOf (a b : UInt8) : shortBytes (shortOf a b) = [a, b] := by
  have ha := a.toNat_lt
  have hb := b.toNat_lt
  simp only [shortBytes, shortOf, List.cons.injEq, and_true]
  refine ⟨UInt8.toNat_inj.mp ?_, UInt8.toNat_inj.mp ?_⟩
  · rw [UInt8.toNat_ofNat', UInt16.toNat_ofNat']
    omega
  · rw [UInt8.toNat_ofNat', UInt16.toNat_ofNat']
    omega

@[simp] theorem longBytes_longOf (a b c d : UInt8) : longBytes (longOf a b c d) = [a, b, c, d] := by
  have ha := a.toNat_lt
  have hb := b.toNat_lt
  have hc := c.toNat_lt
  have hd := d.toNat_lt
  simp only [longBytes, longOf, List.cons.injEq, and_true]
  refine ⟨UInt8.toNat_inj.mp ?_, UInt8.toNat_inj.mp ?_, UInt8.toNat_inj.mp ?_, UInt8.toNat_inj.mp ?_⟩ <;>
  · rw [UInt8.toNat_ofNat', UInt32.toNat_ofNat']
    omega

theorem htons_shortOf (a b : UInt8) : htons (shortOf a b) = shortOf b a := by
  have hBytes := shortBytes_shortOf a b
  simp only [shortBytes, List.cons.injEq, and_true] at hBytes
  rw [htons, hBytes.1, hBytes.2]

theorem htonl_longOf (a b c d : UInt8) : htonl (longOf a b c d) = longOf d c b a := by
  have hBytes := longBytes_longOf a b c d
  simp only [longBytes, List.cons.injEq, and_true] at hBytes
  rw [htonl, hBytes.1, hBytes.2.1, hBytes.2.2.1, hBytes.2.2.2]

@[simp] theorem htons_htons (v : UInt16) : htons (htons v) = v := by
  calc htons (htons v) = shortOf (UInt8.ofNat v.toNat) (UInt8.ofNat (v.toNat / 256)) :=
        htons_shortOf _ _
    _ = v := shortOf_bytes v

@[simp] theorem ntohs_htons (v : UInt16) : ntohs (htons v) = v := htons_htons v

@[simp] theorem htons_ntohs (v : UInt16) : htons (ntohs v) = v := htons_htons v

@[simp] theorem ntohl_htonl (v : UInt32) : ntohl (htonl v) = v := by
  calc ntohl (htonl v) = longOf (UInt8.ofNat v.toNat) (UInt8.ofNat (v.toNat / 256))
          (UInt8.ofNat (v.toNat / 65536)) (UInt8.ofNat (v.toNat / 16777216)) := htonl_longOf _ _ _ _
    _ = v := longOf_bytes v

/-! Headers. -/

/-- `struct ip`; an address is kept as its `s_addr`. -/
structure IpHeader where
  ipHl : BitVec 4
  ipV : BitVec 4
  ipTos : UInt8
  ipLen : UInt16
  ipId : UInt16
  ipOff : UInt16
  ipTtl : UInt8
  ipP : UInt8
  ipSum : UInt16
  ipSrc : UInt32
  ipDst : UInt32
deriving DecidableEq

/-- `sizeof (struct ip)`. -/
def sizeofIp : Nat := 20

def IpHeader.bytes (h : IpHeader) : List UInt8 :=
  [UInt8.ofNat (h.ipHl.toNat + 16 * h.ipV.toNat), h.ipTos] ++ shortBytes h.ipLen ++
    shortBytes h.ipId ++ shortBytes h.ipOff ++ [h.ipTtl, h.ipP] ++ shortBytes h.ipSum ++
    longBytes h.ipSrc ++ longBytes h.ipDst

/-- The header at the start of a buffer, and the bytes behind it. -/
def viewIp : List UInt8 → Except Fault (IpHeader × List UInt8)
  | b0 :: b1 :: b2 :: b3 :: b4 :: b5 :: b6 :: b7 :: b8 :: b9 :: b10 :: b11 :: b12 :: b13 :: b14 ::
      b15 :: b16 :: b17 :: b18 :: b19 :: rest =>
      .ok ({ ipHl := BitVec.ofNat 4 b0.toNat, ipV := BitVec.ofNat 4 (b0.toNat / 16), ipTos := b1,
             ipLen := shortOf b2 b3, ipId := shortOf b4 b5, ipOff := shortOf b6 b7, ipTtl := b8,
             ipP := b9, ipSum := shortOf b10 b11, ipSrc := longOf b12 b13 b14 b15,
             ipDst := longOf b16 b17 b18 b19 }, rest)
  | _ => .error .memory

@[simp] theorem IpHeader.length_bytes (h : IpHeader) : h.bytes.length = sizeofIp := rfl

@[simp] theorem viewIp_bytes (h : IpHeader) (rest : List UInt8) :
    viewIp (h.bytes ++ rest) = .ok (h, rest) := by
  have hHl := h.ipHl.isLt
  have hV := h.ipV.isLt
  have hNibbles : (UInt8.ofNat (h.ipHl.toNat + 16 * h.ipV.toNat)).toNat =
      h.ipHl.toNat + 16 * h.ipV.toNat := by
    rw [UInt8.toNat_ofNat']
    omega
  have hLow : BitVec.ofNat 4 (h.ipHl.toNat + 16 * h.ipV.toNat) = h.ipHl := by
    apply BitVec.eq_of_toNat_eq
    rw [BitVec.toNat_ofNat]
    omega
  have hHigh : BitVec.ofNat 4 ((h.ipHl.toNat + 16 * h.ipV.toNat) / 16) = h.ipV := by
    apply BitVec.eq_of_toNat_eq
    rw [BitVec.toNat_ofNat]
    omega
  simp only [IpHeader.bytes, shortBytes, longBytes, List.cons_append, List.nil_append, viewIp,
    shortOf_bytes, longOf_bytes, hNibbles, hLow, hHigh]

/-- What is seen as a header is the bytes of one. -/
theorem bytes_of_viewIp {buf rest : List UInt8} {h : IpHeader} (hView : viewIp buf = .ok (h, rest)) :
    buf = h.bytes ++ rest := by
  unfold viewIp at hView
  split at hView
  · rename_i b0 _ _ _ _ _ _ _ _ _ _ _ _ _ _ _ _ _ _ _ _
    obtain ⟨rfl, rfl⟩ := Prod.mk.inj (Except.ok.inj hView)
    have hFirst : UInt8.ofNat ((BitVec.ofNat 4 b0.toNat).toNat +
        16 * (BitVec.ofNat 4 (b0.toNat / 16)).toNat) = b0 := by
      have hSmall := b0.toNat_lt
      apply UInt8.toNat_inj.mp
      rw [UInt8.toNat_ofNat', BitVec.toNat_ofNat, BitVec.toNat_ofNat]
      omega
    simp only [IpHeader.bytes, hFirst, shortBytes_shortOf, longBytes_longOf, List.cons_append,
      List.nil_append]
  · cases hView

theorem viewIp_of_length {buf : List UInt8} (h : sizeofIp ≤ buf.length) :
    ∃ header rest, viewIp buf = .ok (header, rest) ∧ buf = header.bytes ++ rest := by
  have hView : ∃ header rest, viewIp buf = .ok (header, rest) := by
    iterate 20
      rcases buf with _ | ⟨_, buf⟩
      · simp [sizeofIp] at h
    exact ⟨_, _, rfl⟩
  obtain ⟨header, rest, hOk⟩ := hView
  exact ⟨header, rest, hOk, bytes_of_viewIp hOk⟩

/-- `struct tcphdr`. -/
structure TcpHeader where
  thSport : UInt16
  thDport : UInt16
  thSeq : UInt32
  thAck : UInt32
  thX2 : BitVec 4
  thOff : BitVec 4
  thFlags : UInt8
  thWin : UInt16
  thSum : UInt16
  thUrp : UInt16
deriving DecidableEq

/-- `sizeof (struct tcphdr)`. -/
def sizeofTcp : Nat := 20

def TcpHeader.bytes (h : TcpHeader) : List UInt8 :=
  shortBytes h.thSport ++ shortBytes h.thDport ++ longBytes h.thSeq ++ longBytes h.thAck ++
    [UInt8.ofNat (h.thX2.toNat + 16 * h.thOff.toNat), h.thFlags] ++ shortBytes h.thWin ++
    shortBytes h.thSum ++ shortBytes h.thUrp

/-- The TCP header at the start of a part of a buffer, and the bytes behind it. -/
def viewTcp : List UInt8 → Except Fault (TcpHeader × List UInt8)
  | b0 :: b1 :: b2 :: b3 :: b4 :: b5 :: b6 :: b7 :: b8 :: b9 :: b10 :: b11 :: b12 :: b13 :: b14 ::
      b15 :: b16 :: b17 :: b18 :: b19 :: rest =>
      .ok ({ thSport := shortOf b0 b1, thDport := shortOf b2 b3, thSeq := longOf b4 b5 b6 b7,
             thAck := longOf b8 b9 b10 b11, thX2 := BitVec.ofNat 4 b12.toNat,
             thOff := BitVec.ofNat 4 (b12.toNat / 16), thFlags := b13, thWin := shortOf b14 b15,
             thSum := shortOf b16 b17, thUrp := shortOf b18 b19 }, rest)
  | _ => .error .memory

@[simp] theorem TcpHeader.length_bytes (h : TcpHeader) : h.bytes.length = sizeofTcp := rfl

@[simp] theorem viewTcp_bytes (h : TcpHeader) (rest : List UInt8) :
    viewTcp (h.bytes ++ rest) = .ok (h, rest) := by
  have hX2 := h.thX2.isLt
  have hOff := h.thOff.isLt
  have hNibbles : (UInt8.ofNat (h.thX2.toNat + 16 * h.thOff.toNat)).toNat =
      h.thX2.toNat + 16 * h.thOff.toNat := by
    rw [UInt8.toNat_ofNat']
    omega
  have hLow : BitVec.ofNat 4 (h.thX2.toNat + 16 * h.thOff.toNat) = h.thX2 := by
    apply BitVec.eq_of_toNat_eq
    rw [BitVec.toNat_ofNat]
    omega
  have hHigh : BitVec.ofNat 4 ((h.thX2.toNat + 16 * h.thOff.toNat) / 16) = h.thOff := by
    apply BitVec.eq_of_toNat_eq
    rw [BitVec.toNat_ofNat]
    omega
  simp only [TcpHeader.bytes, shortBytes, longBytes, List.cons_append, List.nil_append, viewTcp,
    shortOf_bytes, longOf_bytes, hNibbles, hLow, hHigh]

/-! Checksums. -/

/-- The loop adds up the words, the last of which may be an odd byte. -/
def npInCksum (p : List UInt8) : UInt16 :=
  let sum := hostTotal p
  let sum := sum / 65536 + sum % 65536
  let sum := sum + sum / 65536
  UInt16.ofNat (65535 - sum % 65536)

/-- A checksum computed over at most 65534 words balances their sum. -/
theorem npInCksum_balances {p : List UInt8} (h : p.length ≤ 2 * 65534) :
    (hostTotal p + (npInCksum p).toNat) % 65535 = 0 ∧ hostTotal p + (npInCksum p).toNat ≠ 0 := by
  have hBound : hostTotal p ≤ 65535 * 65534 :=
    (hostTotal_le p).trans (Nat.mul_le_mul_left _ (by omega))
  obtain ⟨hLess, hMod, hNe⟩ := complement_balances hBound
  have hEq : (npInCksum p).toNat = complement (hostTotal p) := by
    rw [npInCksum, UInt16.toNat_ofNat']
    exact Nat.mod_eq_of_lt hLess
  rw [hEq]
  exact ⟨hMod, hNe⟩

end Packets
