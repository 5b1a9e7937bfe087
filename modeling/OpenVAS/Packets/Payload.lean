import OpenVAS.Packets.Edits
import OpenVAS.Packets.Tcp

/-! What `get_tcp_element` reads of a packet that `forge_tcp_packet` has built: the fields are
returned as given, except that the destination port is known under another name and that the
payload is never returned. -/
namespace Packets

open CString

/-- The text of an argument and its size. -/
theorem text_argument {lexic : Lexic} {name : String} {s : List UInt8}
    (h : lexic name = some (.str s)) :
    getStrLocalVarByName lexic name = some s ∧ getLocalVarSizeByName lexic name = s.length := by
  rw [getStrLocalVarByName, getLocalVarSizeByName, h]
  exact ⟨rfl, rfl⟩

@[simp] theorem forgeTcpIpHeader_ipHl (lexic : Lexic) (h : IpHeader) (len : Nat) :
    (forgeTcpIpHeader lexic h len).ipHl = h.ipHl := by
  rw [forgeTcpIpHeader]
  split
  · rfl
  · rfl

/-- The length is that of the new packet, or the old one. -/
theorem forgeTcpIpHeader_ipLen (lexic : Lexic) (h : IpHeader) (len : Nat) :
    (ntohs (forgeTcpIpHeader lexic h len).ipLen).toNat ≤
      max (ntohs h.ipLen).toNat (h.ipHl.toNat * 4 + sizeofTcp + len) := by
  rw [forgeTcpIpHeader]
  split
  · refine le_max_of_le_right ?_
    simp only [ntohs_htons, UInt16.toNat_ofNat']
    exact Nat.mod_le _ _
  · exact le_max_left _ _

/-- The packet that is built on a header with room for its length: header, options, TCP header
and data. -/
theorem forgeTcpPacket_eq {rand : Int32} {lexic : Lexic} {h : IpHeader} {tail : List UInt8}
    (hIp : lexic "ip" = some (.str (h.bytes ++ tail))) (hMin : 5 ≤ h.ipHl.toNat)
    (hFits : h.ipHl.toNat * 4 ≤ sizeofIp + tail.length) :
    forgeTcpPacket rand lexic = .ok (some ((forgeTcpIpHeader lexic h (dataArgument lexic).length).bytes ++
      tail.take (h.ipHl.toNat * 4 - sizeofIp) ++
      ((sumTcp h.ipSrc h.ipDst (forgeTcpFields rand lexic) (dataArgument lexic)).bytes ++
        dataArgument lexic))) := by
  obtain ⟨hText, hSize⟩ := text_argument hIp
  have hMinimum : min (h.bytes ++ tail).length (h.ipHl.toNat * 4) = h.ipHl.toNat * 4 := by
    rw [Nat.min_eq_right (by simpa using hFits)]
  have hHead : (h.bytes ++ tail).take (h.ipHl.toNat * 4) =
      h.bytes ++ tail.take (h.ipHl.toNat * 4 - sizeofIp) := by
    rw [List.take_append, List.take_of_length_le (by rw [IpHeader.length_bytes, sizeofIp]; omega),
      IpHeader.length_bytes]
  have hOptions : (tail.take (h.ipHl.toNat * 4 - sizeofIp)).length = h.ipHl.toNat * 4 - sizeofIp := by
    rw [List.length_take, Nat.min_eq_left (by omega)]
  simp only [forgeTcpPacket, hText, hSize, bind, Except.bind, List.take_length, viewIp_bytes,
    hMinimum, hHead]
  generalize dataArgument lexic = data
  generalize tail.take (h.ipHl.toNat * 4 - sizeofIp) = options at hOptions
  have hFill : List.replicate (h.ipHl.toNat * 4 + sizeofTcp + data.length) (0 : UInt8) =
      List.replicate (h.ipHl.toNat * 4) 0 ++ List.replicate (sizeofTcp + data.length) 0 := by
    rw [List.replicate_append_replicate, Nat.add_assoc]
  have hFront : ∀ header : IpHeader, (header.bytes ++ options).length = h.ipHl.toNat * 4 := by
    intro header
    rw [List.length_append, IpHeader.length_bytes, hOptions, sizeofIp]
    omega
  have hCopy := bcopy_append [] (h.bytes ++ options) (List.replicate (h.ipHl.toNat * 4) 0)
    (List.replicate (sizeofTcp + data.length) 0) (by rw [List.length_replicate, hFront])
  rw [List.nil_append, List.length_nil, List.nil_append, List.append_assoc] at hCopy
  have hSegment := bcopy_append ((forgeTcpIpHeader lexic h data.length).bytes ++ options)
    ((sumTcp h.ipSrc h.ipDst (forgeTcpFields rand lexic) data).bytes ++ data)
    (List.replicate (sizeofTcp + data.length) 0) [] (by simp)
  rw [hFront, List.append_nil, List.append_nil, List.append_assoc] at hSegment
  rw [hFill, hCopy]
  simp only [viewIp_bytes, forgeTcpIpHeader_ipHl, hSegment]
  simp [pure, Except.pure]

/-! The elements of a forged packet. -/

inductive TcpElement where
  | data
  | sport
  | dport
  | seq
  | ack
  | x2
  | off
  | flags
  | win
  | urp
deriving DecidableEq

def TcpElement.name : TcpElement → String
  | data => "data"
  | sport => "th_sport"
  | dport => "th_dport"
  | seq => "th_seq"
  | ack => "th_ack"
  | x2 => "th_x2"
  | off => "th_off"
  | flags => "th_flags"
  | win => "th_win"
  | urp => "th_urp"

/-- What `forge_tcp_packet` has been given for an element, reduced to its width. -/
def TcpElement.given (rand : Int32) (lexic : Lexic) : TcpElement → Argument
  | data => .str (dataArgument lexic)
  | sport => .int (ofShort (toShort (getIntLocalVarByName lexic "th_sport" 0)))
  | dport => .int (ofShort (toShort (getIntLocalVarByName lexic "th_dport" 0)))
  | seq => .int (getIntLocalVarByName lexic "th_seq" rand)
  | ack => .int (getIntLocalVarByName lexic "th_ack" 0)
  | x2 => .int (ofNibble (toNibble (getIntLocalVarByName lexic "th_x2" 0)))
  | off => .int (ofNibble (toNibble (getIntLocalVarByName lexic "th_off" 5)))
  | flags => .int (ofChar (toChar (getIntLocalVarByName lexic "th_flags" 0)))
  | win => .int (ofShort (toShort (getIntLocalVarByName lexic "th_win" 0)))
  | urp => .int (ofShort (toShort (getIntLocalVarByName lexic "th_urp" 0)))

/-- The call `get_tcp_element (tcp:tcp, element:element)`. -/
def tcpCall (tcp : List UInt8) (element : String) : Lexic
  | "tcp" => some (.str tcp)
  | "element" => some (.str (lit element))
  | _ => none

/-- The reader finds the TCP header behind the options. -/
theorem getTcpElement_eq {ip : IpHeader} {options data : List UInt8} {tcp : TcpHeader}
    (hOptions : sizeofIp + options.length = ip.ipHl.toNat * 4)
    (hLen : (ntohs ip.ipLen).toNat ≤ ip.ipHl.toNat * 4 + sizeofTcp + data.length) (element : String) :
    getTcpElement (tcpCall (ip.bytes ++ options ++ (tcp.bytes ++ data)) element) =
      tcpElement (ip.bytes ++ options ++ (tcp.bytes ++ data)) ip tcp (cText (lit element)) := by
  have hArgument : tcpCall (ip.bytes ++ options ++ (tcp.bytes ++ data)) element "tcp" =
      some (.str (ip.bytes ++ options ++ (tcp.bytes ++ data))) := rfl
  have hElement : tcpCall (ip.bytes ++ options ++ (tcp.bytes ++ data)) element "element" =
      some (.str (lit element)) := rfl
  obtain ⟨hText, hSize⟩ := text_argument hArgument
  have hFront : (ip.bytes ++ options).length = ip.ipHl.toNat * 4 := by simpa using hOptions
  have hTotal : (ip.bytes ++ options ++ (tcp.bytes ++ data)).length =
      ip.ipHl.toNat * 4 + sizeofTcp + data.length := by
    rw [List.length_append, hFront, List.length_append, TcpHeader.length_bytes, Nat.add_assoc]
  have hDrop : (ip.bytes ++ options ++ (tcp.bytes ++ data)).drop (ip.ipHl.toNat * 4) =
      tcp.bytes ++ data := by
    rw [← hFront, List.drop_left]
  have hView : viewIp (ip.bytes ++ options ++ (tcp.bytes ++ data)) =
      .ok (ip, options ++ (tcp.bytes ++ data)) := by
    rw [List.append_assoc, viewIp_bytes]
  have hShort : ¬ ip.ipHl.toNat * 4 + sizeofTcp + data.length < ip.ipHl.toNat * 4 := by omega
  have hEnough : ¬ ip.ipHl.toNat * 4 + sizeofTcp + data.length < (ntohs ip.ipLen).toNat := by omega
  simp only [getTcpElement, hText, hSize, List.take_length, hView, bind, Except.bind]
  simp only [hTotal, hShort, hEnough, if_false, getStrLocalVarByName, hElement, var2str, hDrop,
    viewTcp_bytes]

/-- With a default header length, the size taken for the payload is negative. -/
theorem tcpData_exit (packet : List UInt8) (ip : IpHeader) {tcp : TcpHeader} (h : tcp.thOff = 5) :
    tcpData packet ip tcp = .error .exit := by
  have hOff : ntohl (UInt32.ofNat tcp.thOff.toNat) * 4 = 335544320 := by
    rw [h]
    decide
  have hSize : ∀ len : UInt16, (len.toUInt32 - 335544320).toInt32 < 0 := by
    intro len
    have hSmall := len.toNat_lt
    have hNat : (len.toUInt32 - 335544320).toNat = 3959422976 + len.toNat := by
      rw [UInt32.toNat_sub, UInt16.toNat_toUInt32]
      simp
      omega
    have hInt : (len.toUInt32 - 335544320).toInt32.toInt =
        (len.toUInt32 - 335544320).toBitVec.toInt := rfl
    rw [Int32.lt_iff_toInt_lt, hInt, BitVec.toInt_eq_toNat_cond, UInt32.toNat_toBitVec, hNat,
      if_neg (by omega)]
    have hZero : (0 : Int32).toInt = 0 := rfl
    omega
  simp only [tcpData, hOff, emalloc, hSize, if_true]
  rfl

theorem sumTcp_fields (saddr daddr : UInt32) (tcp : TcpHeader) (data : List UInt8) :
    ∃ sum, sumTcp saddr daddr tcp data = { tcp with thSum := sum } := by
  rw [sumTcp]
  split
  · exact ⟨_, rfl⟩
  · exact ⟨tcp.thSum, rfl⟩

/-- The elements but the payload and the destination port are those of the header. -/
theorem tcpElement_forged {rand : Int32} {lexic : Lexic} {packet : List UInt8} {ip : IpHeader}
    {sum : UInt16} {element : TcpElement} (hData : element ≠ .data) (hDport : element ≠ .dport) :
    tcpElement packet ip { forgeTcpFields rand lexic with thSum := sum } (cText (lit element.name)) =
      .ok (some (element.given rand lexic)) := by
  let long (v : UInt32) : Except Fault (Option Argument) := .ok (some (.int v.toInt32))
  let short (v : UInt16) : Except Fault (Option Argument) := .ok (some (.int (ofShort v)))
  cases element with
  | data => exact absurd rfl hData
  | dport => exact absurd rfl hDport
  | seq => exact congrArg long (ntohl_htonl _)
  | ack => exact congrArg long (ntohl_htonl _)
  | sport => exact congrArg short (htons_htons _)
  | win => exact congrArg short (ntohs_htons _)
  | x2 => rfl
  | off => rfl
  | flags => rfl
  | urp => rfl

/-- On a bare IP header the packet is built, and `get_tcp_element` returns what was given exactly
for the elements other than the payload and the destination port. -/
theorem element_returned_iff {rand : Int32} {lexic : Lexic} {ip : List UInt8} {h : IpHeader}
    {options : List UInt8} (hIp : lexic "ip" = some (.str ip)) (hView : viewIp ip = .ok (h, options))
    (hMin : 5 ≤ h.ipHl.toNat) (hSize : ip.length = h.ipHl.toNat * 4)
    (hLen : (ntohs h.ipLen).toNat ≤ h.ipHl.toNat * 4) :
    ∃ packet, forgeTcpPacket rand lexic = .ok (some packet) ∧
      ∀ element : TcpElement, (element = .data → lexic "th_off" = none) →
        (getTcpElement (tcpCall packet element.name) = .ok (some (element.given rand lexic)) ↔
          element ≠ .data ∧ element ≠ .dport) := by
  have hBytes := bytes_of_viewIp hView
  subst hBytes
  have hOptions : sizeofIp + options.length = h.ipHl.toNat * 4 := by simpa using hSize
  have hAll : options.take (h.ipHl.toNat * 4 - sizeofIp) = options :=
    List.take_of_length_le (by omega)
  have hForge := @forgeTcpPacket_eq rand lexic h options hIp hMin hOptions.ge
  rw [hAll] at hForge
  refine ⟨_, hForge, fun element hOff => ?_⟩
  obtain ⟨sum, hSum⟩ := sumTcp_fields h.ipSrc h.ipDst (forgeTcpFields rand lexic) (dataArgument lexic)
  have hNewLen := forgeTcpIpHeader_ipLen lexic h (dataArgument lexic).length
  rw [hSum, getTcpElement_eq (by simpa using hOptions) (by simp only [forgeTcpIpHeader_ipHl]; omega)]
  constructor
  · intro hReturned
    refine ⟨?_, ?_⟩
    · rintro rfl
      have hFive : (forgeTcpFields rand lexic).thOff = 5 := by
        simp [forgeTcpFields, getIntLocalVarByName, hOff rfl, var2int]
        decide
      have hExit := @tcpData_exit
        ((forgeTcpIpHeader lexic h (dataArgument lexic).length).bytes ++ options ++
          (TcpHeader.bytes { forgeTcpFields rand lexic with thSum := sum } ++ dataArgument lexic))
        (forgeTcpIpHeader lexic h (dataArgument lexic).length)
        { forgeTcpFields rand lexic with thSum := sum } hFive
      rw [show TcpElement.data.name = "data" from rfl] at hReturned
      cases hExit.symm.trans hReturned
    · rintro rfl
      cases hReturned
  · rintro ⟨hData, hDport⟩
    exact tcpElement_forged hData hDport

/-- The arguments of `forge_tcp_packet (ip:ip, data:"GET")`. -/
def requestCall (ip : List UInt8) : Lexic
  | "ip" => some (.str ip)
  | "data" => some (.str (lit "GET"))
  | _ => none

theorem element_returned_iff_request : ∃ packet,
    forgeTcpPacket 1 (requestCall plainHeader.bytes) = .ok (some packet) ∧
      ∀ element : TcpElement, (element = .data → requestCall plainHeader.bytes "th_off" = none) →
        (getTcpElement (tcpCall packet element.name) =
            .ok (some (element.given 1 (requestCall plainHeader.bytes))) ↔
          element ≠ .data ∧ element ≠ .dport) :=
  element_returned_iff rfl (viewIp_bytes plainHeader []) (by decide) (by decide) (by decide)

/-- Reading the payload of a forged packet ends the process, and the destination port is unknown. -/
theorem request_not_returned : ¬ ∃ packet,
    forgeTcpPacket 1 (requestCall plainHeader.bytes) = .ok (some packet) ∧
      getTcpElement (tcpCall packet "data") = .ok (some (.str (lit "GET"))) ∧
      getTcpElement (tcpCall packet "th_dport") = .ok (some (.int 0)) := by
  rintro ⟨packet, hForge, hData, -⟩
  have hIp : requestCall plainHeader.bytes "ip" = some (.str (plainHeader.bytes ++ [])) := rfl
  rw [forgeTcpPacket_eq hIp (by decide) (by decide)] at hForge
  obtain rfl := Option.some.inj (Except.ok.inj hForge)
  rw [getTcpElement_eq (by decide) (by decide +kernel)] at hData
  cases (tcpData_exit _ _ (by decide)).symm.trans hData

end Packets
