import OpenVAS.Packets.Chains

/-! Which calls keep a packet consistent, one lemma for each of them, and from these the chains
of calls of which every packet is consistent. -/
namespace Packets

open CString Checksum Run

theorem take_bytes {n : Nat} (h : IpHeader) (tail : List UInt8) (hLeast : sizeofIp ≤ n) :
    (h.bytes ++ tail).take n = h.bytes ++ tail.take (n - sizeofIp) := by
  rw [List.take_append, List.take_of_length_le (by rwa [IpHeader.length_bytes]), IpHeader.length_bytes]

theorem drop_bytes {n : Nat} (h : IpHeader) (tail : List UInt8) (hLeast : sizeofIp ≤ n) :
    (h.bytes ++ tail).drop n = tail.drop (n - sizeofIp) := by
  rw [List.drop_append, List.drop_of_length_le (by rwa [IpHeader.length_bytes]), IpHeader.length_bytes,
    List.nil_append]

/-- A packet in its parts: header, options and segment. -/
theorem consistent_parts {forged : Forged} {h : IpHeader} {options segment : List UInt8}
    (hBytes : forged.bytes = h.bytes ++ options ++ segment)
    (hSize : sizeofIp + options.length = h.ipHl.toNat * 4) (hHeader : Verifies (h.bytes ++ options))
    (hLength : (ntohs h.ipLen).toNat = h.ipHl.toNat * 4 + segment.length)
    (hTcp : forged.transport = .tcp →
      Verifies (pseudohdr h.ipSrc h.ipDst ipprotoTcp segment.length ++ segment))
    (hUdp : forged.transport = .udp →
      Verifies (pseudohdr h.ipSrc h.ipDst ipprotoUdp segment.length ++ segment)) :
    Consistent forged h (options ++ segment) := by
  have hFront : (h.bytes ++ options).length = h.ipHl.toNat * 4 := by
    rw [List.length_append, IpHeader.length_bytes, hSize]
  have hTake : forged.bytes.take (h.ipHl.toNat * 4) = h.bytes ++ options := by
    rw [hBytes, ← hFront, List.take_left]
  have hSegment : forged.segment h = segment := by
    rw [Forged.segment, hBytes, ← hFront, List.drop_left]
  constructor
  · rw [hBytes, List.append_assoc]
  · rw [sizeofIp] at hSize
    omega
  · rw [List.length_append]
    omega
  · rwa [hTake]
  · rw [hLength, hBytes, List.length_append, hFront]
  · rwa [hSegment]
  · rwa [hSegment]

/-- The state after a call that returns a consistent packet. -/
theorem consistentPacket_of_run {forged : Forged} {call : Call} {bytes tail : List UInt8}
    {h : IpHeader} (hRun : call.run forged.bytes = .ok (some bytes))
    (hConsistent : Consistent ⟨bytes, call.transport forged.transport⟩ h tail) :
    ConsistentPacket (callStep (.ok (some forged)) call) := by
  have hStep : callStep (.ok (some forged)) call =
      .ok (some ⟨bytes, call.transport forged.transport⟩) := by
    rw [callStep, hRun]
    rfl
  exact ⟨_, h, tail, hStep, hConsistent⟩

/-- The segment behind the options of a consistent packet. -/
theorem Consistent.segment_eq {forged : Forged} {h : IpHeader} {tail : List UInt8}
    (hConsistent : Consistent forged h tail) :
    forged.segment h = tail.drop (h.ipHl.toNat * 4 - sizeofIp) := by
  have hLeast := hConsistent.least
  rw [Forged.segment, hConsistent.view, drop_bytes h tail (by rw [sizeofIp]; omega)]

theorem Consistent.length_eq {forged : Forged} {h : IpHeader} {tail : List UInt8}
    (hConsistent : Consistent forged h tail) : (ntohs h.ipLen).toNat = sizeofIp + tail.length := by
  rw [hConsistent.length, hConsistent.view, List.length_append, IpHeader.length_bytes]

/-- An address with the same sum leaves the checksum of a segment right. -/
theorem verifies_of_address {src src' dst : UInt32} {protocol : UInt8} {segment : List UInt8}
    (hProtocol : protocol.toNat ≠ 0)
    (hSame : hostTotal (longBytes src') % 65535 = hostTotal (longBytes src) % 65535)
    (hVerifies : Verifies (pseudohdr src dst protocol segment.length ++ segment)) :
    Verifies (pseudohdr src' dst protocol segment.length ++ segment) := by
  have hRest : hostTotal (pseudohdr 0 dst protocol segment.length) =
      hostTotal (longBytes 0 ++ longBytes dst) + (256 * protocol.toNat +
        hostTotal (shortBytes (htons (UInt16.ofNat segment.length)))) := by
    have hWord : hostTotal [0, protocol] = 256 * protocol.toNat := by
      simp [hostTotal]
    have hShape : pseudohdr 0 dst protocol segment.length = (longBytes 0 ++ longBytes dst) ++
        ([0, protocol] ++ shortBytes (htons (UInt16.ofNat segment.length))) := by
      rw [pseudohdr, List.append_assoc]
    rw [hShape, hostTotal_append 4 rfl, @hostTotal_append 1 [0, protocol] rfl, hWord]
  rw [verifies_iff, hostTotal_append 6 rfl, hostTotal_pseudohdr] at hVerifies ⊢
  omega

/-! Arguments that are not given. -/

theorem Plain.passing {args : Lexic} (h : Plain args) {name : String} (packet : List UInt8)
    (hSum : "ip_sum" ≠ name) (hTh : "th_sum" ≠ name) (hUpdate : "update_ip_len" ≠ name) :
    Plain (passing args name packet) :=
  ⟨by rw [passing_of_ne args packet hSum, h.ipSum], by rw [passing_of_ne args packet hTh, h.thSum],
    by rw [passing_of_ne args packet hUpdate, h.updateIpLen]⟩

theorem getInt_none {lexic : Lexic} {name : String} (h : lexic name = none) (defval : Int32) :
    getIntLocalVarByName lexic name defval = defval := by
  rw [getIntLocalVarByName, h]
  rfl

theorem getInt_passing (args : Lexic) {name n : String} (packet : List UInt8) (h : n ≠ name)
    (defval : Int32) :
    getIntLocalVarByName (passing args name packet) n defval = getIntLocalVarByName args n defval := by
  rw [getIntLocalVarByName, getIntLocalVarByName, passing_of_ne args packet h]

theorem dataArgument_passing (args : Lexic) {name : String} (packet : List UInt8)
    (h : "data" ≠ name) : dataArgument (passing args name packet) = dataArgument args := by
  rw [dataArgument, dataArgument, getStrLocalVarByName, getStrLocalVarByName, getLocalVarSizeByName,
    getLocalVarSizeByName, passing_of_ne args packet h]

/-- A length that fits is read back. -/
theorem toNat_htons_ofNat {n : Nat} (h : n ≤ 65535) : (ntohs (htons (UInt16.ofNat n))).toNat = n := by
  rw [ntohs_htons, UInt16.toNat_ofNat', Nat.mod_eq_of_lt (by omega)]

/-! The calls. -/

theorem setIpHeader_sum {lexic : Lexic} (hSum : lexic "ip_sum" = none) (h : IpHeader) :
    (setIpHeader lexic h).ipSum = npInCksum { setIpHeader lexic h with ipSum := 0 }.bytes := by
  have hZero : htons (toShort (getIntLocalVarByName lexic "ip_sum" 0)) = 0 := by
    rw [getInt_none hSum]
    decide
  simp only [setIpHeader, hZero, if_true]

theorem setIp_keeps {forged : Forged} {h : IpHeader} {tail : List UInt8} {args : Lexic}
    (hConsistent : Consistent forged h tail) (hOk : CallOk forged.transport h tail (.setIp args)) :
    ConsistentPacket (callStep (.ok (some forged)) (.setIp args)) := by
  obtain ⟨hPlain, hLeast, hFits, hOptions, hLen, hSegment⟩ := hOk
  have hPlainCall : Plain (passing args "ip" forged.bytes) :=
    hPlain.passing forged.bytes (by decide) (by decide) (by decide)
  have hArgument : passing args "ip" forged.bytes "ip" = some (.str (h.bytes ++ tail)) := by
    rw [passing_self, hConsistent.view]
  obtain ⟨sum, hEq⟩ := setIpHeader_eq (passing args "ip" forged.bytes) h
  have hSum := setIpHeader_sum hPlainCall.ipSum h
  have hRun := setIpElements_bytes hArgument
  generalize setIpHeader (passing args "ip" forged.bytes) h = new at hEq hSum hRun
  have hGiven : ∀ name, name ≠ "ip" → passing args "ip" forged.bytes name = args name :=
    fun name hName => passing_of_ne args forged.bytes hName
  have hHl : new.ipHl = toNibble (var2int (args "ip_hl") (ofNibble h.ipHl)) := by
    rw [← hGiven "ip_hl" (by decide), hEq]
  have hNewLen : ntohs new.ipLen = ntohs h.ipLen := by
    rw [← hLen, ← hGiven "ip_len" (by decide), hEq, ntohs_htons]
  have hSrc : new.ipSrc = readAddr (var2str (args "ip_src")) h.ipSrc := by
    rw [← hGiven "ip_src" (by decide), hEq]
  have hDst : new.ipDst = h.ipDst := by
    rw [hEq]
  rw [← hHl] at hLeast hFits hOptions hSegment
  rw [← hSrc] at hSegment
  have hParts : new.bytes ++ tail = new.bytes ++ tail.take (new.ipHl.toNat * 4 - sizeofIp) ++
      tail.drop (new.ipHl.toNat * 4 - sizeofIp) := by
    rw [List.append_assoc, List.take_append_drop]
  have hSame : forged.transport ≠ .ip → forged.segment h = tail.drop (new.ipHl.toNat * 4 - sizeofIp) ∧
      hostTotal (longBytes new.ipSrc) % 65535 = hostTotal (longBytes h.ipSrc) % 65535 := by
    intro hTransport
    obtain ⟨hHlSame, hAddress⟩ := hSegment.resolve_left hTransport
    rw [hConsistent.segment_eq, hHlSame]
    exact ⟨rfl, hAddress⟩
  refine consistentPacket_of_run hRun (consistent_parts hParts ?_ ?_ ?_ ?_ ?_)
  · rw [List.length_take, Nat.min_eq_left (by omega)]
    omega
  · exact header_verifies hSum hOptions
  · rw [hNewLen, hConsistent.length_eq, List.length_drop]
    omega
  · intro hTransport
    change forged.transport = .tcp at hTransport
    obtain ⟨hDrop, hAddress⟩ := hSame (by rw [hTransport]; decide)
    rw [← hDrop, hDst]
    exact verifies_of_address (by decide) hAddress (hConsistent.tcp hTransport)
  · intro hTransport
    change forged.transport = .udp at hTransport
    obtain ⟨hDrop, hAddress⟩ := hSame (by rw [hTransport]; decide)
    rw [← hDrop, hDst]
    exact verifies_of_address (by decide) hAddress (hConsistent.udp hTransport)

/-- The header in front of a forged segment, which is summed if its length is set. -/
theorem forgeTcpIpHeader_consistent {lexic : Lexic} (hPlain : Plain lexic) {h : IpHeader}
    {options : List UInt8} (len : Nat) (hLess : h.ipHl.toNat * 4 + sizeofTcp + len ≤ 65535)
    (hOld : (ntohs h.ipLen).toNat = h.ipHl.toNat * 4 ∧ hostTotal options % 65535 = 0 ∨
      (ntohs h.ipLen).toNat = h.ipHl.toNat * 4 + sizeofTcp + len ∧ Verifies (h.bytes ++ options)) :
    Verifies ((forgeTcpIpHeader lexic h len).bytes ++ options) ∧
      (ntohs (forgeTcpIpHeader lexic h len).ipLen).toNat = h.ipHl.toNat * 4 + sizeofTcp + len := by
  have hUpdate : getIntLocalVarByName lexic "update_ip_len" 1 ≠ 0 := by
    rw [getInt_none hPlain.updateIpLen]
    decide
  rw [forgeTcpIpHeader]
  rcases hOld with ⟨hLen, hOptions⟩ | ⟨hLen, hVerifies⟩
  · rw [if_pos ⟨hLen.le, hUpdate⟩]
    refine ⟨header_verifies rfl hOptions, ?_⟩
    exact toNat_htons_ofNat hLess
  · have hCounted : ¬ (ntohs h.ipLen).toNat ≤ h.ipHl.toNat * 4 := by
      rw [hLen, sizeofTcp]
      omega
    rw [if_neg fun hBoth => hCounted hBoth.1]
    exact ⟨hVerifies, hLen⟩

@[simp] theorem forgeTcpIpHeader_addresses (lexic : Lexic) (h : IpHeader) (len : Nat) :
    (forgeTcpIpHeader lexic h len).ipSrc = h.ipSrc ∧ (forgeTcpIpHeader lexic h len).ipDst = h.ipDst := by
  rw [forgeTcpIpHeader]
  split
  · exact ⟨rfl, rfl⟩
  · exact ⟨rfl, rfl⟩

@[simp] theorem length_sumTcp (saddr daddr : UInt32) (tcp : TcpHeader) (data : List UInt8) :
    ((sumTcp saddr daddr tcp data).bytes ++ data).length = sizeofTcp + data.length := by
  rw [List.length_append, TcpHeader.length_bytes]

theorem forgeTcp_keeps {forged : Forged} {h : IpHeader} {tail : List UInt8} {rand : Int32}
    {args : Lexic} (hConsistent : Consistent forged h tail)
    (hOk : CallOk forged.transport h tail (.forgeTcp rand args)) :
    ConsistentPacket (callStep (.ok (some forged)) (.forgeTcp rand args)) := by
  obtain ⟨hPlain, hSize, hOld⟩ := hOk
  have hLeast := hConsistent.least
  have hFits := hConsistent.fits
  have hPlainCall : Plain (passing args "ip" forged.bytes) :=
    hPlain.passing forged.bytes (by decide) (by decide) (by decide)
  have hArgument : passing args "ip" forged.bytes "ip" = some (.str (h.bytes ++ tail)) := by
    rw [passing_self, hConsistent.view]
  have hRun := @forgeTcpPacket_eq rand _ _ _ hArgument hLeast hFits
  rw [dataArgument_passing args forged.bytes (by decide)] at hRun
  have hTotal := hConsistent.length_eq
  have hHeader : Verifies (h.bytes ++ tail.take (h.ipHl.toNat * 4 - sizeofIp)) := by
    rw [← take_bytes h tail (by rw [sizeofIp]; omega), ← hConsistent.view]
    exact hConsistent.header
  have hCases : (ntohs h.ipLen).toNat = h.ipHl.toNat * 4 ∧
        hostTotal (tail.take (h.ipHl.toNat * 4 - sizeofIp)) % 65535 = 0 ∨
      (ntohs h.ipLen).toNat = h.ipHl.toNat * 4 + sizeofTcp + (dataArgument args).length ∧
        Verifies (h.bytes ++ tail.take (h.ipHl.toNat * 4 - sizeofIp)) := by
    rcases hOld with ⟨hBare, hOptions⟩ | hSame
    · rw [List.take_of_length_le (by omega)]
      exact .inl ⟨hTotal.trans hBare, hOptions⟩
    · exact .inr ⟨hTotal.trans hSame, hHeader⟩
  obtain ⟨hNew, hLength⟩ :=
    forgeTcpIpHeader_consistent hPlainCall (dataArgument args).length hSize hCases
  obtain ⟨hSrc, hDst⟩ :=
    forgeTcpIpHeader_addresses (passing args "ip" forged.bytes) h (dataArgument args).length
  have hZero : (forgeTcpFields rand (passing args "ip" forged.bytes)).thSum = 0 := by
    simp only [forgeTcpFields, getInt_none hPlainCall.thSum]
    decide
  refine consistentPacket_of_run hRun (consistent_parts rfl ?_ hNew ?_ ?_ ?_)
  · rw [forgeTcpIpHeader_ipHl, List.length_take, Nat.min_eq_left (by omega)]
    rw [sizeofIp]
    omega
  · rw [hLength, forgeTcpIpHeader_ipHl, length_sumTcp, Nat.add_assoc]
  · intro _
    rw [length_sumTcp, hSrc, hDst]
    exact sumTcp_verifies hZero (by omega)
  · intro hTransport
    cases hTransport

@[simp] theorem length_sumUdp (saddr daddr : UInt32) (udp : UdpHeader) (data : List UInt8) :
    ((sumUdp saddr daddr udp data).bytes ++ data).length = sizeofUdp + data.length := by
  rw [List.length_append, UdpHeader.length_bytes]

/-- The packet that is built on a header that is there: header, options, UDP header and data. -/
theorem forgeUdpPacket_eq {lexic : Lexic} {h : IpHeader} {tail data options : List UInt8}
    {udp : UdpHeader} (hIp : lexic "ip" = some (.str (h.bytes ++ tail))) (hMin : 5 ≤ h.ipHl.toNat)
    (hFits : h.ipHl.toNat * 4 ≤ sizeofIp + tail.length) (hData : dataArgument lexic = data)
    (hOptions : tail.take (h.ipHl.toNat * 4 - sizeofIp) = options)
    (hUdp : sumUdp h.ipSrc h.ipDst (forgeUdpFields lexic data.length) data = udp) :
    forgeUdpPacket lexic = .ok (some ((forgeUdpIpHeader lexic h udp.uhUlen
      (options ++ (udp.bytes ++ data) ++ List.replicate sizeofUdp 0)).bytes ++ options ++
        (udp.bytes ++ data))) := by
  obtain ⟨hText, hSize⟩ := text_argument hIp
  have hLeast : sizeofIp ≤ h.ipHl.toNat * 4 := by
    rw [sizeofIp]
    omega
  have hHead : (h.bytes ++ tail).take (h.ipHl.toNat * 4) = h.bytes ++ options := by
    rw [take_bytes h tail hLeast, hOptions]
  have hOptionsLength : options.length = h.ipHl.toNat * 4 - sizeofIp := by
    rw [← hOptions, List.length_take, Nat.min_eq_left (by omega)]
  have hFront : ∀ header : IpHeader, (header.bytes ++ options).length = h.ipHl.toNat * 4 := by
    intro header
    rw [List.length_append, IpHeader.length_bytes, hOptionsLength]
    omega
  have hSegmentLength : (udp.bytes ++ data).length = sizeofUdp + data.length := by
    rw [List.length_append, UdpHeader.length_bytes]
  have hEnough : ¬ (h.bytes ++ tail).length < h.ipHl.toNat * 4 := by
    rw [List.length_append, IpHeader.length_bytes]
    omega
  have hFill : List.replicate (sizeofUdp + h.ipHl.toNat * 4 + sizeofUdp + data.length) (0 : UInt8) =
      List.replicate (h.ipHl.toNat * 4) 0 ++ List.replicate (sizeofUdp + data.length) 0 ++
        List.replicate sizeofUdp 0 := by
    rw [List.replicate_append_replicate, List.replicate_append_replicate]
    congr 1
    omega
  have hSegment := bcopy_append (List.replicate (h.ipHl.toNat * 4) 0) (udp.bytes ++ data)
    (List.replicate (sizeofUdp + data.length) 0) (List.replicate sizeofUdp 0)
    (by rw [List.length_replicate, hSegmentLength])
  rw [List.length_replicate] at hSegment
  have hCopy := bcopy_append [] (h.bytes ++ options) (List.replicate (h.ipHl.toNat * 4) 0)
    (udp.bytes ++ data ++ List.replicate sizeofUdp 0) (by rw [List.length_replicate, hFront])
  rw [List.nil_append, List.length_nil, List.nil_append, ← List.append_assoc] at hCopy
  have hTake : ∀ header : IpHeader,
      (header.bytes ++ (options ++ (udp.bytes ++ data) ++ List.replicate sizeofUdp 0)).take
        (8 + h.ipHl.toNat * 4 + data.length) = header.bytes ++ options ++ (udp.bytes ++ data) := by
    intro header
    have hLength : (header.bytes ++ options ++ (udp.bytes ++ data)).length =
        8 + h.ipHl.toNat * 4 + data.length := by
      rw [List.length_append, hFront, hSegmentLength, sizeofUdp]
      omega
    rw [← List.append_assoc, ← List.append_assoc, ← hLength, List.take_left]
  have hView : viewIp (h.bytes ++ options ++ (udp.bytes ++ data ++ List.replicate sizeofUdp 0)) =
      .ok (h, options ++ (udp.bytes ++ data) ++ List.replicate sizeofUdp 0) := by
    rw [List.append_assoc h.bytes, viewIp_bytes, List.append_assoc options]
  simp only [forgeUdpPacket, hText, hSize, bind, Except.bind, List.take_length, viewIp_bytes, hEnough,
    if_false, hHead, hData, hUdp, hFill, hSegment, hCopy, hView]
  exact congrArg (fun bytes => Except.ok (some bytes)) (hTake _)

theorem forgeUdpIpHeader_consistent {lexic : Lexic} (hPlain : Plain lexic) {h : IpHeader}
    {options back : List UInt8} {uhUlen : UInt16} {len : Nat}
    (hOptions : sizeofIp + options.length = h.ipHl.toNat * 4)
    (hLess : h.ipHl.toNat * 4 + sizeofUdp + len ≤ 65535)
    (hOld : (ntohs h.ipLen).toNat = h.ipHl.toNat * 4 ∧ (ntohs uhUlen).toNat = sizeofUdp + len ∨
      (ntohs h.ipLen).toNat = h.ipHl.toNat * 4 + sizeofUdp + len ∧ Verifies (h.bytes ++ options)) :
    Verifies ((forgeUdpIpHeader lexic h uhUlen (options ++ back)).bytes ++ options) ∧
      (ntohs (forgeUdpIpHeader lexic h uhUlen (options ++ back)).ipLen).toNat =
        h.ipHl.toNat * 4 + sizeofUdp + len := by
  have hUpdate : getIntLocalVarByName lexic "update_ip_len" 1 ≠ 0 := by
    rw [getInt_none hPlain.updateIpLen]
    decide
  have hSummed : ∀ header : IpHeader,
      (header.bytes ++ (options ++ back)).take (h.ipHl.toNat * 4) = header.bytes ++ options := by
    intro header
    rw [take_bytes header _ (by omega), ← hOptions, Nat.add_sub_cancel_left, List.take_left]
  rw [forgeUdpIpHeader]
  rcases hOld with ⟨hLen, hUlen⟩ | ⟨hLen, hVerifies⟩
  · rw [if_pos ⟨hLen.le, hUpdate⟩]
    dsimp only
    rw [hSummed]
    refine ⟨header_options_verifies rfl ?_, ?_⟩
    · omega
    · rw [hUlen, toNat_htons_ofNat (by omega)]
      omega
  · have hCounted : ¬ (ntohs h.ipLen).toNat ≤ h.ipHl.toNat * 4 := by
      rw [hLen, sizeofUdp]
      omega
    rw [if_neg fun hBoth => hCounted hBoth.1]
    exact ⟨hVerifies, hLen⟩

/-- The length and the addresses of the header in front of a datagram are as before. -/
theorem forgeUdpIpHeader_fields (lexic : Lexic) (h : IpHeader) (uhUlen : UInt16) (rest : List UInt8) :
    (forgeUdpIpHeader lexic h uhUlen rest).ipHl = h.ipHl ∧
      (forgeUdpIpHeader lexic h uhUlen rest).ipSrc = h.ipSrc ∧
      (forgeUdpIpHeader lexic h uhUlen rest).ipDst = h.ipDst := by
  rw [forgeUdpIpHeader]
  split
  · exact ⟨rfl, rfl, rfl⟩
  · exact ⟨rfl, rfl, rfl⟩

@[simp] theorem sumUdp_uhUlen (saddr daddr : UInt32) (udp : UdpHeader) (data : List UInt8) :
    (sumUdp saddr daddr udp data).uhUlen = udp.uhUlen := by
  rw [sumUdp]
  split
  · rfl
  · rfl

theorem forgeUdp_keeps {forged : Forged} {h : IpHeader} {tail : List UInt8} {args : Lexic}
    (hConsistent : Consistent forged h tail)
    (hOk : CallOk forged.transport h tail (.forgeUdp args)) :
    ConsistentPacket (callStep (.ok (some forged)) (.forgeUdp args)) := by
  obtain ⟨hPlain, hUhSum, hSize, hOld⟩ := hOk
  have hLeast := hConsistent.least
  have hFits := hConsistent.fits
  have hTotal := hConsistent.length_eq
  have hPlainCall : Plain (passing args "ip" forged.bytes) :=
    hPlain.passing forged.bytes (by decide) (by decide) (by decide)
  have hArgument : passing args "ip" forged.bytes "ip" = some (.str (h.bytes ++ tail)) := by
    rw [passing_self, hConsistent.view]
  have hData : dataArgument (passing args "ip" forged.bytes) = dataArgument args :=
    dataArgument_passing args forged.bytes (by decide)
  generalize dataArgument args = data at hData hSize hOld
  generalize hOptions : tail.take (h.ipHl.toNat * 4 - sizeofIp) = options
  generalize hUdp : sumUdp h.ipSrc h.ipDst
    (forgeUdpFields (passing args "ip" forged.bytes) data.length) data = udp
  have hRun := forgeUdpPacket_eq hArgument hLeast hFits hData hOptions hUdp
  have hOptionsLength : sizeofIp + options.length = h.ipHl.toNat * 4 := by
    rw [← hOptions, List.length_take, Nat.min_eq_left (by omega), sizeofIp]
    omega
  have hHeader : Verifies (h.bytes ++ options) := by
    rw [← hOptions, ← take_bytes h tail (by rw [sizeofIp]; omega), ← hConsistent.view]
    exact hConsistent.header
  have hUlen : ntohs udp.uhUlen =
      toShort (getIntLocalVarByName args "uh_ulen" (Int32.ofNat (data.length + sizeofUdp))) := by
    rw [← hUdp, sumUdp_uhUlen, forgeUdpFields, ntohs_htons, getInt_passing args forged.bytes (by decide)]
  have hCases : (ntohs h.ipLen).toNat = h.ipHl.toNat * 4 ∧
        (ntohs udp.uhUlen).toNat = sizeofUdp + data.length ∨
      (ntohs h.ipLen).toNat = h.ipHl.toNat * 4 + sizeofUdp + data.length ∧
        Verifies (h.bytes ++ options) := by
    rcases hOld with ⟨hBare, hGiven⟩ | hSame
    · exact .inl ⟨hTotal.trans hBare, by rw [hUlen, hGiven]⟩
    · exact .inr ⟨hTotal.trans hSame, hHeader⟩
  rw [List.append_assoc options] at hRun
  generalize udp.bytes ++ data ++ List.replicate sizeofUdp 0 = back at hRun
  obtain ⟨hNew, hLength⟩ :=
    @forgeUdpIpHeader_consistent _ hPlainCall h options back _ _ hOptionsLength hSize hCases
  obtain ⟨hHl, hSrc, hDst⟩ := forgeUdpIpHeader_fields (passing args "ip" forged.bytes) h udp.uhUlen
    (options ++ back)
  have hZero : (forgeUdpFields (passing args "ip" forged.bytes) data.length).uhSum = 0 := by
    rw [forgeUdpFields, getInt_passing args forged.bytes (by decide)]
    exact hUhSum
  have hSegmentLength : (udp.bytes ++ data).length = sizeofUdp + data.length := by
    rw [List.length_append, UdpHeader.length_bytes]
  refine consistentPacket_of_run hRun (consistent_parts rfl ?_ hNew ?_ ?_ ?_)
  · rw [hHl, hOptionsLength]
  · rw [hLength, hHl, hSegmentLength, Nat.add_assoc]
  · intro hTransport
    cases hTransport
  · intro _
    rw [hSegmentLength, hSrc, hDst, ← hUdp]
    exact sumUdp_verifies hZero (by omega)

/-- The bytes of a text argument, of its size. -/
theorem length_text_argument (lexic : Lexic) (name : String) :
    (((getStrLocalVarByName lexic name).getD []).take (getLocalVarSizeByName lexic name)).length =
      getLocalVarSizeByName lexic name := by
  rw [getStrLocalVarByName, getLocalVarSizeByName]
  cases lexic name with
  | none => rfl
  | some arg =>
      cases arg with
      | int v => rfl
      | str s => exact congrArg List.length List.take_length

/-- Options that are added to a bare header stand at its end and are summed with it. -/
theorem insertIpOptions_eq {lexic : Lexic} {h : IpHeader} {tail : List UInt8} {optLen : Nat}
    (hIp : lexic "ip" = some (.str (h.bytes ++ tail)))
    (hBare : sizeofIp + tail.length = h.ipHl.toNat * 4) (hLen : (ntohs h.ipLen).toNat = h.ipHl.toNat * 4)
    (hOptLen : (2 + getLocalVarSizeByName lexic "value" + 3) / 4 * 4 = optLen)
    (hFits : h.ipHl.toNat * 4 + optLen ≤ 60) :
    ∃ (options : List UInt8) (header : IpHeader),
      insertIpOptions lexic = .ok (some (header.bytes ++ (tail ++ options))) ∧
        options.length = optLen ∧ header.ipHl.toNat * 4 = h.ipHl.toNat * 4 + optLen ∧
        (ntohs header.ipLen).toNat = h.ipHl.toNat * 4 + optLen ∧
        header.ipSum = npInCksum ({ header with ipSum := 0 }.bytes ++ (tail ++ options)) := by
  obtain ⟨hText, hSize⟩ := text_argument hIp
  have hLength : (h.bytes ++ tail).length = h.ipHl.toNat * 4 := by
    rw [List.length_append, IpHeader.length_bytes, hBare]
  rw [hLength] at hSize
  have hTakeAll : (h.bytes ++ tail).take (h.ipHl.toNat * 4) = h.bytes ++ tail := by
    rw [← hLength, List.take_length]
  have hDropAll : (h.bytes ++ tail).drop (h.ipHl.toNat * 4) = [] := by
    rw [← hLength, List.drop_length]
  have hValue := length_text_argument lexic "value"
  generalize hPad : (4 - (2 + getLocalVarSizeByName lexic "value") % 4) % 4 = padLen
  generalize hOptions : [toChar (getIntLocalVarByName lexic "code" 0),
      toChar (getIntLocalVarByName lexic "length" 0)] ++
    ((getStrLocalVarByName lexic "value").getD []).take (getLocalVarSizeByName lexic "value") ++
      List.replicate padLen 0 = options
  have hPadded : 2 + getLocalVarSizeByName lexic "value" + padLen = optLen := by omega
  have hOptionsLength : options.length = optLen := by
    rw [← hOptions, List.length_append, List.length_append, hValue, List.length_replicate, ← hPadded]
    rfl
  have hFill : List.replicate
        (h.ipHl.toNat * 4 + 4 + getLocalVarSizeByName lexic "value" + padLen) (0 : UInt8) =
      List.replicate (h.ipHl.toNat * 4) 0 ++ List.replicate (optLen + 2) 0 := by
    rw [List.replicate_append_replicate]
    congr 1
    omega
  have hCopy := bcopy_append [] (h.bytes ++ tail) (List.replicate (h.ipHl.toNat * 4) 0)
    (List.replicate (optLen + 2) 0) (by rw [List.length_replicate, hLength])
  rw [List.nil_append, List.length_nil, List.nil_append] at hCopy
  have hInsert := bcopy_append (h.bytes ++ tail) options (List.replicate optLen 0) [0, 0]
    (by rw [List.length_replicate, hOptionsLength])
  rw [hLength, List.append_assoc _ (List.replicate optLen 0)] at hInsert
  have hZeros : List.replicate optLen (0 : UInt8) ++ [0, 0] = List.replicate (optLen + 2) 0 := by
    rw [← List.replicate_append_replicate]
    rfl
  rw [hZeros] at hInsert
  have hNothing : ∀ (buf : List UInt8) (offset : Nat), bcopy [] buf offset = .ok buf :=
    fun buf offset => if_pos rfl
  have hView : viewIp (h.bytes ++ tail ++ options ++ [0, 0]) = .ok (h, tail ++ options ++ [0, 0]) := by
    rw [List.append_assoc h.bytes, List.append_assoc h.bytes, viewIp_bytes]
  have hNewHl : (BitVec.ofNat 4 ((h.ipHl.toNat * 4 + optLen) / 4)).toNat * 4 =
      h.ipHl.toNat * 4 + optLen := by
    rw [BitVec.toNat_ofNat]
    omega
  have hNewLen : (ntohs (htons (UInt16.ofNat (h.ipHl.toNat * 4 + optLen)))).toNat =
      h.ipHl.toNat * 4 + optLen := toNat_htons_ofNat (by omega)
  have hTake : ∀ header : IpHeader, (header.bytes ++ (tail ++ options ++ [0, 0])).take
      (h.ipHl.toNat * 4 + optLen) = header.bytes ++ (tail ++ options) := by
    intro header
    have hAll : (header.bytes ++ (tail ++ options)).length = h.ipHl.toNat * 4 + optLen := by
      rw [List.length_append, List.length_append, IpHeader.length_bytes, hOptionsLength]
      omega
    rw [← List.append_assoc, ← hAll, List.take_left]
  have hShort : ¬ h.ipHl.toNat * 4 < h.ipHl.toNat * 4 := lt_irrefl _
  obtain ⟨new, hNew⟩ : ∃ new : IpHeader, { h with
      ipHl := BitVec.ofNat 4 ((h.ipHl.toNat * 4 + optLen) / 4)
      ipLen := htons (UInt16.ofNat (h.ipHl.toNat * 4 + optLen))
      ipSum := 0 } = new := ⟨_, rfl⟩
  have hHl : new.ipHl.toNat * 4 = h.ipHl.toNat * 4 + optLen := by
    rw [← hNew, hNewHl]
  have hNtohs : (ntohs new.ipLen).toNat = h.ipHl.toNat * 4 + optLen := by
    rw [← hNew, hNewLen]
  have hZero : { new with ipSum := 0 } = new := by
    rw [← hNew]
  refine ⟨options, { new with ipSum := npInCksum (new.bytes ++ (tail ++ options)) }, ?_, hOptionsLength,
    hHl, hNtohs, congrArg (fun old : IpHeader => npInCksum (old.bytes ++ (tail ++ options))) hZero.symm⟩
  simp only [insertIpOptions, hText, hSize, bind, Except.bind, hTakeAll, viewIp_bytes, hLen, min_self,
    hShort, if_false, hPad, hPadded, hFill, hCopy, hOptions, hInsert, hDropAll, hNothing, hView, hNew,
    hNewHl, hNewLen, hTake, pure, Except.pure]
  rw [← hNew]

theorem insertOptions_keeps {forged : Forged} {h : IpHeader} {tail : List UInt8} {args : Lexic}
    (hConsistent : Consistent forged h tail)
    (hOk : CallOk forged.transport h tail (.insertOptions args)) :
    ConsistentPacket (callStep (.ok (some forged)) (.insertOptions args)) := by
  obtain ⟨hTransport, hBare, hFits⟩ := hOk
  have hArgument : passing args "ip" forged.bytes "ip" = some (.str (h.bytes ++ tail)) := by
    rw [passing_self, hConsistent.view]
  have hValue : getLocalVarSizeByName (passing args "ip" forged.bytes) "value" =
      getLocalVarSizeByName args "value" := by
    rw [getLocalVarSizeByName, getLocalVarSizeByName, passing_of_ne args forged.bytes (by decide)]
  obtain ⟨options, header, hRun, hOptions, hHl, hLen, hSum⟩ :=
    insertIpOptions_eq hArgument hBare (hConsistent.length_eq.trans hBare) (by rw [hValue]) hFits
  have hOld : ∀ transport, transport ≠ .ip → forged.transport ≠ transport := by
    rintro _ hNe rfl
    exact hNe hTransport
  refine consistentPacket_of_run hRun
    (@consistent_parts _ _ (tail ++ options) [] (List.append_nil _).symm ?_ ?_ ?_ ?_ ?_)
  · rw [List.length_append, hHl, hOptions]
    omega
  · refine header_options_verifies hSum ?_
    rw [List.length_append, hOptions]
    omega
  · rw [hLen, hHl]
    rfl
  · intro hTcp
    exact absurd hTcp (hOld .tcp (by decide))
  · intro hUdp
    exact absurd hUdp (hOld .udp (by decide))

theorem forgeIp_consistent (host : UInt32) (rand : Int32) {args : Lexic} (hOk : ForgeIpOk args) :
    ConsistentPacket (forgeIp host rand args) := by
  obtain ⟨hPlain, hLeast, hFits, hOptions, hSize⟩ := hOk
  have hZero : htons (toShort (getIntLocalVarByName args "ip_sum" 0)) = 0 := by
    rw [getInt_none hPlain.ipSum]
    decide
  have hSummed : getIntLocalVarByName args "ip_sum" (-1) < 0 := by
    rw [getInt_none hPlain.ipSum]
    decide
  have hData : (dataArgument args).length = getLocalVarSizeByName args "data" :=
    length_text_argument args "data"
  obtain ⟨header, hForge, hHl, hLen, hSum⟩ : ∃ header : IpHeader,
      forgeIpPacket (some host) rand args = some (header.bytes ++ dataArgument args) ∧
        header.ipHl = toNibble (getIntLocalVarByName args "ip_hl" 5) ∧
        header.ipLen = htons (UInt16.ofNat (20 + getLocalVarSizeByName args "data")) ∧
        header.ipSum = npInCksum { header with ipSum := 0 }.bytes := by
    simp only [forgeIpPacket, hZero, hSummed, and_self, if_true]
    exact ⟨_, rfl, rfl, rfl, rfl⟩
  rw [← hHl] at hLeast hFits hOptions
  rw [sizeofIp] at hSize
  have hStart : forgeIp host rand args = .ok (some ⟨header.bytes ++ dataArgument args, .ip⟩) := by
    rw [forgeIp, hForge]
    rfl
  have hParts : header.bytes ++ dataArgument args =
      header.bytes ++ (dataArgument args).take (header.ipHl.toNat * 4 - sizeofIp) ++
        (dataArgument args).drop (header.ipHl.toNat * 4 - sizeofIp) := by
    rw [List.append_assoc, List.take_append_drop]
  refine ⟨_, header, _, hStart, consistent_parts hParts ?_ (header_verifies hSum hOptions) ?_ ?_ ?_⟩
  · rw [List.length_take, Nat.min_eq_left (by omega)]
    omega
  · rw [hLen, ← hData, toNat_htons_ofNat hSize, List.length_drop]
    rw [sizeofIp] at hFits hLeast ⊢
    omega
  · intro hTransport
    cases hTransport
  · intro hTransport
    cases hTransport

/-- One call that meets its condition keeps the packet consistent. -/
theorem call_keeps {chain : Except Fault (Option Forged)} {call : Call}
    (hConsistent : ConsistentPacket chain) (hOk : StepOk chain call) :
    ConsistentPacket (callStep chain call) := by
  obtain ⟨forged, h, tail, rfl, hForged⟩ := hConsistent
  have hView : viewIp forged.bytes = .ok (h, tail) := by
    rw [hForged.view, viewIp_bytes]
  simp only [StepOk, hView] at hOk
  cases call with
  | forgeTcp rand args => exact forgeTcp_keeps hForged hOk
  | forgeUdp args => exact forgeUdp_keeps hForged hOk
  | setIp args => exact setIp_keeps hForged hOk
  | setTcp args => exact hOk.elim
  | insertOptions args => exact insertOptions_keeps hForged hOk

/-- In every chain of calls that meet their conditions every packet is consistent. -/
theorem chain_consistent {host : UInt32} {rand : Int32} {args : Lexic} {calls : List Call}
    (hStart : ForgeIpOk args) (hCalls : AllSteps callStep StepOk (forgeIp host rand args) calls) :
    AllStates callStep ConsistentPacket (forgeIp host rand args) calls :=
  AllStates.of_allSteps ConsistentPacket (fun _ _ hConsistent hOk => call_keeps hConsistent hOk)
    (fun _ hConsistent => hConsistent) (forgeIp_consistent host rand hStart) calls hCalls

/-- The arguments of `forge_ip_packet (ip_p:6, ip_src:"10.0.0.1")`. -/
def sourceCall : Lexic
  | "ip_p" => some (.int 6)
  | "ip_src" => some (.str (lit "10.0.0.1"))
  | _ => none

/-- The argument `data` alone. -/
def dataCall (data : String) : Lexic
  | "data" => some (.str (lit data))
  | _ => none

theorem chain_consistent_request : AllStates callStep ConsistentPacket
    (forgeIp (longOf 10 0 0 2) 1 sourceCall) [.forgeTcp 1 (dataCall "GET"), .setIp (dataCall "")] :=
  chain_consistent (by decide +kernel) ⟨by decide +kernel, by decide +kernel, trivial⟩

/-- After `set_tcp_elements` the length is in host order and the header has no checksum. -/
theorem length_in_host_order : ¬ AllStates callStep ConsistentPacket
    (forgeIp (longOf 10 0 0 2) 1 sourceCall) [.forgeTcp 1 (dataCall ""), .setTcp (dataCall "")] := by
  intro hAll
  have hLast : [Call.forgeTcp 1 (dataCall ""), .setTcp (dataCall "")].foldl callStep
      (forgeIp (longOf 10 0 0 2) 1 sourceCall) =
        .ok (some ⟨[69, 0, 40, 0, 0, 1, 0, 0, 64, 6, 0, 0, 10, 0, 0, 1, 10, 0, 0, 2,
          0, 0, 0, 0, 0, 0, 0, 1, 0, 0, 0, 0, 80, 0, 0, 0, 155, 225, 0, 0], .tcp⟩) := by
    decide +kernel
  obtain ⟨forged, h, tail, hChain, hConsistent⟩ := hAll.final
  rw [hLast] at hChain
  cases hChain
  have hView := viewIp_bytes h tail
  rw [← hConsistent.view] at hView
  cases hView
  exact absurd hConsistent.length (by decide)

end Packets
