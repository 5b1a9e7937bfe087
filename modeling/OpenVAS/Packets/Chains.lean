import OpenVAS.Packets.Payload
import OpenVAS.Lib.Run

/-! Chains of calls that build a packet, and what makes a packet consistent: its checksums, as a
receiver verifies them, and its length. -/
namespace Packets

open CString Checksum

inductive Transport where
  | ip
  | tcp
  | udp
deriving DecidableEq

/-- A packet, with the kind of segment that has been built into it. -/
structure Forged where
  bytes : List UInt8
  transport : Transport
deriving DecidableEq

/-- The calls that take the packet before them and other arguments. -/
inductive Call where
  | forgeTcp (rand : Int32) (args : Lexic)
  | forgeUdp (args : Lexic)
  | setIp (args : Lexic)
  | setTcp (args : Lexic)
  | insertOptions (args : Lexic)

/-- The arguments of a call, with the packet under its name. -/
def passing (args : Lexic) (name : String) (packet : List UInt8) : Lexic := fun n =>
  if n = name then some (.str packet) else args n

@[simp] theorem passing_self (args : Lexic) (name : String) (packet : List UInt8) :
    passing args name packet name = some (.str packet) := if_pos rfl

@[simp] theorem passing_of_ne (args : Lexic) {name n : String} (packet : List UInt8) (h : n ≠ name) :
    passing args name packet n = args n := if_neg h

def Call.run (packet : List UInt8) : Call → Except Fault (Option (List UInt8))
  | forgeTcp rand args => forgeTcpPacket rand (passing args "ip" packet)
  | forgeUdp args => forgeUdpPacket (passing args "ip" packet)
  | setIp args => setIpElements (passing args "ip" packet)
  | setTcp args => setTcpElements (passing args "tcp" packet)
  | insertOptions args => insertIpOptions (passing args "ip" packet)

def Call.transport (old : Transport) : Call → Transport
  | forgeTcp _ _ => .tcp
  | forgeUdp _ => .udp
  | setIp _ | setTcp _ | insertOptions _ => old

/-- One call more; after NULL or a fault there is no packet any more. -/
def callStep (chain : Except Fault (Option Forged)) (call : Call) : Except Fault (Option Forged) :=
  match chain with
  | .ok (some forged) =>
      (call.run forged.bytes).map fun result =>
        result.map fun bytes => ⟨bytes, call.transport forged.transport⟩
  | .ok none => .ok none
  | .error fault => .error fault

/-- The bytes behind header and options. -/
def Forged.segment (forged : Forged) (h : IpHeader) : List UInt8 :=
  forged.bytes.drop (h.ipHl.toNat * 4)

/-- What a receiver finds right: the checksum of the header with its options, the checksum of a
segment under its pseudo header, and the length in network order. -/
structure Consistent (forged : Forged) (h : IpHeader) (tail : List UInt8) : Prop where
  view : forged.bytes = h.bytes ++ tail
  least : 5 ≤ h.ipHl.toNat
  fits : h.ipHl.toNat * 4 ≤ sizeofIp + tail.length
  header : Verifies (forged.bytes.take (h.ipHl.toNat * 4))
  length : (ntohs h.ipLen).toNat = forged.bytes.length
  tcp : forged.transport = .tcp → Verifies
    (pseudohdr h.ipSrc h.ipDst ipprotoTcp (forged.segment h).length ++ forged.segment h)
  udp : forged.transport = .udp → Verifies
    (pseudohdr h.ipSrc h.ipDst ipprotoUdp (forged.segment h).length ++ forged.segment h)

/-- A chain has returned a consistent packet. -/
def ConsistentPacket (chain : Except Fault (Option Forged)) : Prop :=
  ∃ forged h tail, chain = .ok (some forged) ∧ Consistent forged h tail

/-- Checksums are not given, and `update_ip_len` has its default. -/
structure Plain (args : Lexic) : Prop where
  ipSum : args "ip_sum" = none
  thSum : args "th_sum" = none
  updateIpLen : args "update_ip_len" = none

/-- The arguments of `forge_ip_packet` give a header that is there: its options stand in the data,
and their words add up to a multiple of 65535, since only the first 20 bytes are summed. -/
def ForgeIpOk (args : Lexic) : Prop :=
  let hl := (toNibble (getIntLocalVarByName args "ip_hl" 5)).toNat * 4
  let data := dataArgument args
  Plain args ∧ sizeofIp ≤ hl ∧ hl ≤ sizeofIp + data.length ∧
    hostTotal (data.take (hl - sizeofIp)) % 65535 = 0 ∧ sizeofIp + data.length ≤ 65535

/-- The state before a call lets it return a consistent packet. -/
def CallOk (transport : Transport) (h : IpHeader) (tail : List UInt8) : Call → Prop
  | .setIp args =>
      let hl := toNibble (var2int (args "ip_hl") (ofNibble h.ipHl))
      Plain args ∧ sizeofIp ≤ hl.toNat * 4 ∧ hl.toNat * 4 ≤ sizeofIp + tail.length ∧
        hostTotal (tail.take (hl.toNat * 4 - sizeofIp)) % 65535 = 0 ∧
        toShort (var2int (args "ip_len") (ofShort (ntohs h.ipLen))) = ntohs h.ipLen ∧
        (transport = .ip ∨ (hl = h.ipHl ∧
          hostTotal (longBytes (readAddr (var2str (args "ip_src")) h.ipSrc)) % 65535 =
            hostTotal (longBytes h.ipSrc) % 65535))
  | .setTcp _ => False
  | .insertOptions args =>
      let optLen := (2 + getLocalVarSizeByName args "value" + 3) / 4 * 4
      transport = .ip ∧ sizeofIp + tail.length = h.ipHl.toNat * 4 ∧ h.ipHl.toNat * 4 + optLen ≤ 60
  | .forgeTcp _ args =>
      let size := h.ipHl.toNat * 4 + sizeofTcp + (dataArgument args).length
      Plain args ∧ size ≤ 65535 ∧
        ((sizeofIp + tail.length = h.ipHl.toNat * 4 ∧ hostTotal tail % 65535 = 0) ∨
          sizeofIp + tail.length = size)
  | .forgeUdp args =>
      let data := dataArgument args
      let size := h.ipHl.toNat * 4 + sizeofUdp + data.length
      let ulen := toShort (getIntLocalVarByName args "uh_ulen" (Int32.ofNat (data.length + sizeofUdp)))
      Plain args ∧ toShort (getIntLocalVarByName args "uh_sum" 0) = 0 ∧ size ≤ 65535 ∧
        ((sizeofIp + tail.length = h.ipHl.toNat * 4 ∧ ulen.toNat = sizeofUdp + data.length) ∨
          sizeofIp + tail.length = size)

/-- The condition of a call on the packet before it. -/
def StepOk (chain : Except Fault (Option Forged)) (call : Call) : Prop :=
  match chain with
  | .ok (some forged) =>
      match viewIp forged.bytes with
      | .ok (h, tail) => CallOk forged.transport h tail call
      | .error _ => True
  | _ => True

/-- The chain that starts with `forge_ip_packet` for the host. -/
def forgeIp (host : UInt32) (rand : Int32) (args : Lexic) : Except Fault (Option Forged) :=
  .ok ((forgeIpPacket (some host) rand args).map fun bytes => ⟨bytes, .ip⟩)

instance (args : Lexic) : Decidable (Plain args) :=
  decidable_of_iff (args "ip_sum" = none ∧ args "th_sum" = none ∧ args "update_ip_len" = none)
    ⟨fun h => ⟨h.1, h.2.1, h.2.2⟩, fun h => ⟨h.ipSum, h.thSum, h.updateIpLen⟩⟩

instance (args : Lexic) : Decidable (ForgeIpOk args) := by
  delta ForgeIpOk
  infer_instance

instance (transport : Transport) (h : IpHeader) (tail : List UInt8) (call : Call) :
    Decidable (CallOk transport h tail call) := by
  cases call with
  | setTcp args => exact instDecidableFalse
  | _ =>
      dsimp only [CallOk]
      infer_instance

instance (chain : Except Fault (Option Forged)) (call : Call) : Decidable (StepOk chain call) :=
  match chain with
  | .ok (some forged) =>
      match hView : viewIp forged.bytes with
      | .ok (h, tail) => decidable_of_iff (CallOk forged.transport h tail call) (by simp [StepOk, hView])
      | .error _ => .isTrue (by simp [StepOk, hView])
  | .ok none => .isTrue trivial
  | .error _ => .isTrue trivial

/-! Sums of the parts. -/

theorem verifies_of_sum {p bs : List UInt8} (extra : Nat) (hLen : p.length ≤ 2 * 65534)
    (hTotal : hostTotal bs = hostTotal p + (npInCksum p).toNat + extra) (hExtra : extra % 65535 = 0) :
    Verifies bs := by
  obtain ⟨hMod, hNe⟩ := npInCksum_balances hLen
  rw [verifies_iff, hTotal]
  omega

theorem hostTotal_shortBytes (v : UInt16) : hostTotal (shortBytes v) = v.toNat := by
  have hSmall := v.toNat_lt
  simp only [shortBytes, hostTotal, UInt8.toNat_ofNat']
  omega

/-- A short at an even place counts with its value. -/
theorem hostTotal_short (n : Nat) {front : List UInt8} (h : front.length = 2 * n) (v : UInt16)
    (back : List UInt8) : hostTotal (front ++ (shortBytes v ++ back)) =
      hostTotal (front ++ (shortBytes 0 ++ back)) + v.toNat := by
  have hEven : ∀ w : UInt16, hostTotal (shortBytes w ++ back) = w.toNat + hostTotal back := by
    intro w
    rw [hostTotal_append 1 rfl, hostTotal_shortBytes]
  have hZero : (0 : UInt16).toNat = 0 := rfl
  rw [hostTotal_append n h, hostTotal_append n h, hEven, hEven]
  omega

/-- The sum of a header with another checksum. -/
theorem hostTotal_ipSum (h : IpHeader) (v : UInt16) : hostTotal { h with ipSum := v }.bytes =
    hostTotal { h with ipSum := 0 }.bytes + v.toNat := by
  have hSplit : ∀ sum : UInt16, IpHeader.bytes { h with ipSum := sum } =
      ([UInt8.ofNat (h.ipHl.toNat + 16 * h.ipV.toNat), h.ipTos] ++ shortBytes h.ipLen ++
        shortBytes h.ipId ++ shortBytes h.ipOff ++ [h.ipTtl, h.ipP]) ++
        (shortBytes sum ++ (longBytes h.ipSrc ++ longBytes h.ipDst)) := by
    intro sum
    simp only [IpHeader.bytes, List.append_assoc]
  rw [hSplit, hSplit]
  exact hostTotal_short 5 rfl v _

/-- The source address counts on its own in the sum of a pseudo header. -/
theorem hostTotal_pseudohdr (saddr daddr : UInt32) (protocol : UInt8) (length : Nat) :
    hostTotal (pseudohdr saddr daddr protocol length) =
      hostTotal (longBytes saddr) + hostTotal (pseudohdr 0 daddr protocol length) := by
  have hSplit : ∀ addr : UInt32, hostTotal (pseudohdr addr daddr protocol length) =
      hostTotal (longBytes addr) +
        hostTotal (longBytes daddr ++ [0, protocol] ++ shortBytes (htons (UInt16.ofNat length))) := by
    intro addr
    rw [← hostTotal_append 2 rfl]
    simp only [pseudohdr, List.append_assoc]
  have hZero : hostTotal (longBytes 0) = 0 := rfl
  rw [hSplit, hSplit 0]
  omega

theorem hostTotal_thSum (tcp : TcpHeader) (v : UInt16) : hostTotal { tcp with thSum := v }.bytes =
    hostTotal { tcp with thSum := 0 }.bytes + v.toNat := by
  have hSplit : ∀ sum : UInt16, TcpHeader.bytes { tcp with thSum := sum } =
      (shortBytes tcp.thSport ++ shortBytes tcp.thDport ++ longBytes tcp.thSeq ++ longBytes tcp.thAck ++
        [UInt8.ofNat (tcp.thX2.toNat + 16 * tcp.thOff.toNat), tcp.thFlags] ++ shortBytes tcp.thWin) ++
        (shortBytes sum ++ shortBytes tcp.thUrp) := by
    intro sum
    simp only [TcpHeader.bytes, List.append_assoc]
  rw [hSplit, hSplit]
  exact hostTotal_short 8 rfl v _

theorem hostTotal_uhSum (udp : UdpHeader) (v : UInt16) : hostTotal { udp with uhSum := v }.bytes =
    hostTotal { udp with uhSum := 0 }.bytes + v.toNat := by
  have hSplit : ∀ sum : UInt16, UdpHeader.bytes { udp with uhSum := sum } =
      (shortBytes udp.uhSport ++ shortBytes udp.uhDport ++ shortBytes udp.uhUlen) ++
        (shortBytes sum ++ []) := by
    intro sum
    simp only [UdpHeader.bytes, List.append_nil]
  rw [hSplit, hSplit]
  exact hostTotal_short 3 rfl v []

/-- A checksum over the header alone verifies with options that add nothing. -/
theorem header_verifies {h : IpHeader} (hSum : h.ipSum = npInCksum { h with ipSum := 0 }.bytes)
    {options : List UInt8} (hOptions : hostTotal options % 65535 = 0) :
    Verifies (h.bytes ++ options) := by
  refine verifies_of_sum (p := { h with ipSum := 0 }.bytes) (hostTotal options) (by simp [sizeofIp]) ?_
    hOptions
  rw [← hSum, hostTotal_append 10 rfl, ← hostTotal_ipSum]

/-- A checksum over header and options verifies. -/
theorem header_options_verifies {h : IpHeader} {options : List UInt8}
    (hSum : h.ipSum = npInCksum ({ h with ipSum := 0 }.bytes ++ options))
    (hLen : options.length ≤ 65535) : Verifies (h.bytes ++ options) := by
  refine verifies_of_sum (p := { h with ipSum := 0 }.bytes ++ options) 0 ?_ ?_ rfl
  · rw [List.length_append, IpHeader.length_bytes, sizeofIp]
    omega
  · have hHeader := hostTotal_ipSum h h.ipSum
    rw [← hSum, hostTotal_append 10 rfl, hostTotal_append 10 rfl, hHeader]
    omega

theorem length_pseudohdr (saddr daddr : UInt32) (protocol : UInt8) (length : Nat) :
    (pseudohdr saddr daddr protocol length).length = 12 := rfl

theorem sumTcp_verifies {saddr daddr : UInt32} {tcp : TcpHeader} (hZero : tcp.thSum = 0)
    {data : List UInt8} (hLen : data.length ≤ 65535) :
    Verifies (pseudohdr saddr daddr ipprotoTcp (sizeofTcp + data.length) ++
      ((sumTcp saddr daddr tcp data).bytes ++ data)) := by
  have hSame : { tcp with thSum := 0 } = tcp := by
    rw [← hZero]
  rw [sumTcp, if_pos hZero]
  refine verifies_of_sum 0
    (p := pseudohdr saddr daddr ipprotoTcp (sizeofTcp + data.length) ++ tcp.bytes ++ data) ?_ ?_ rfl
  · simp only [List.length_append, length_pseudohdr, TcpHeader.length_bytes, sizeofTcp]
    omega
  · rw [List.append_assoc, hostTotal_append 6 rfl, hostTotal_append 10 rfl, hostTotal_append 6 rfl,
      hostTotal_append 10 rfl, hostTotal_thSum, hSame]
    omega

theorem sumUdp_verifies {saddr daddr : UInt32} {udp : UdpHeader} (hZero : udp.uhSum = 0)
    {data : List UInt8} (hLen : data.length ≤ 65535) :
    Verifies (pseudohdr saddr daddr ipprotoUdp (sizeofUdp + data.length) ++
      ((sumUdp saddr daddr udp data).bytes ++ data)) := by
  have hSame : { udp with uhSum := 0 } = udp := by
    rw [← hZero]
  rw [sumUdp, if_pos hZero]
  refine verifies_of_sum 0
    (p := pseudohdr saddr daddr ipprotoUdp (sizeofUdp + data.length) ++ udp.bytes ++ data) ?_ ?_ rfl
  · simp only [List.length_append, length_pseudohdr, UdpHeader.length_bytes, sizeofUdp]
    omega
  · rw [List.append_assoc, hostTotal_append 6 rfl, hostTotal_append 4 rfl, hostTotal_append 6 rfl,
      hostTotal_append 4 rfl, hostTotal_uhSum, hSame]
    omega

end Packets
