import OpenVAS.Packets.Ip

/-! The functions on TCP packets, `forge_tcp_packet`, `get_tcp_element` and `set_tcp_elements`,
and `forge_udp_packet`. Sizes are taken to fit an int, and the byte that `emalloc` adds to a
buffer is left out. -/
namespace Packets

open CString

def ipprotoTcp : UInt8 := 6

def ipprotoUdp : UInt8 := 17

/-- The pseudo header in front of a segment of some length. -/
def pseudohdr (saddr daddr : UInt32) (protocol : UInt8) (length : Nat) : List UInt8 :=
  longBytes saddr ++ longBytes daddr ++ [0, protocol] ++ shortBytes (htons (UInt16.ofNat length))

/-- The bytes of the argument `data`. -/
def dataArgument (lexic : Lexic) : List UInt8 :=
  ((getStrLocalVarByName lexic "data").getD []).take (getLocalVarSizeByName lexic "data")

/-- The IP header in front of a forged segment. The length is set if it counts no data yet. -/
def forgeTcpIpHeader (lexic : Lexic) (packet : IpHeader) (len : Nat) : IpHeader :=
  if (ntohs packet.ipLen).toNat ≤ packet.ipHl.toNat * 4 ∧
      getIntLocalVarByName lexic "update_ip_len" 1 ≠ 0 then
    let packet := { packet with
      ipLen := htons (UInt16.ofNat (packet.ipHl.toNat * 4 + sizeofTcp + len)), ipSum := 0 }
    { packet with ipSum := npInCksum packet.bytes }
  else packet

/-- The forged TCP header before its checksum. -/
def forgeTcpFields (rand : Int32) (lexic : Lexic) : TcpHeader :=
  let int := getIntLocalVarByName lexic
  { thSport := ntohs (toShort (int "th_sport" 0))
    thDport := ntohs (toShort (int "th_dport" 0))
    thSeq := htonl (int "th_seq" rand).toUInt32
    thAck := htonl (int "th_ack" 0).toUInt32
    thX2 := toNibble (int "th_x2" 0)
    thOff := toNibble (int "th_off" 5)
    thFlags := toChar (int "th_flags" 0)
    thWin := htons (toShort (int "th_win" 0))
    thSum := toShort (int "th_sum" 0)
    thUrp := toShort (int "th_urp" 0) }

/-- The TCP header with its checksum, unless that is given. -/
def sumTcp (saddr daddr : UInt32) (tcp : TcpHeader) (data : List UInt8) : TcpHeader :=
  if tcp.thSum = 0 then
    { tcp with
      thSum := npInCksum
        (pseudohdr saddr daddr ipprotoTcp (sizeofTcp + data.length) ++ tcp.bytes ++ data) }
  else tcp

def forgeTcpPacket (rand : Int32) (lexic : Lexic) : Except Fault (Option (List UInt8)) :=
  match getStrLocalVarByName lexic "ip" with
  | none => .ok none
  | some ip => do
      let size := getLocalVarSizeByName lexic "ip"
      let ip := ip.take size
      let (header, _) ← viewIp ip
      let ipsz := min size (header.ipHl.toNat * 4)
      let data := dataArgument lexic
      let tcpPacket ← bcopy (ip.take ipsz) (List.replicate (ipsz + sizeofTcp + data.length) 0) 0
      let (packet, rest) ← viewIp tcpPacket
      let packet := forgeTcpIpHeader lexic packet data.length
      let tcp := sumTcp header.ipSrc header.ipDst (forgeTcpFields rand lexic) data
      let tcpPacket ← bcopy (tcp.bytes ++ data) (packet.bytes ++ rest) (packet.ipHl.toNat * 4)
      return some tcpPacket

/-- The payload of a TCP packet, from where and with the size that the code takes for it. -/
def tcpData (packet : List UInt8) (ip : IpHeader) (tcp : TcpHeader) :
    Except Fault (Option Argument) := do
  let off := ntohl (UInt32.ofNat tcp.thOff.toNat) * 4
  let size := ((ntohs ip.ipLen).toUInt32 - off).toInt32
  let _ ← emalloc size
  -- The offset counts in TCP headers, since `tcp` points to one.
  let start := ip.ipHl.toNat * 4 + sizeofTcp * off.toNat
  let size := size.toInt.toNat
  if packet.length < start + size then throw .memory
  return some (.str ((packet.drop start).take size))

/-- An element by its name; the destination port is called `th_dsport`. -/
def tcpElement (packet : List UInt8) (ip : IpHeader) (tcp : TcpHeader) (element : CString) :
    Except Fault (Option Argument) :=
  if element = lit "th_sport" then .ok (some (.int (ofShort (ntohs tcp.thSport))))
  else if element = lit "th_dsport" then .ok (some (.int (ofShort (ntohs tcp.thDport))))
  else if element = lit "th_seq" then .ok (some (.int (ntohl tcp.thSeq).toInt32))
  else if element = lit "th_ack" then .ok (some (.int (ntohl tcp.thAck).toInt32))
  else if element = lit "th_x2" then .ok (some (.int (ofNibble tcp.thX2)))
  else if element = lit "th_off" then .ok (some (.int (ofNibble tcp.thOff)))
  else if element = lit "th_flags" then .ok (some (.int (ofChar tcp.thFlags)))
  else if element = lit "th_win" then .ok (some (.int (ofShort (ntohs tcp.thWin))))
  else if element = lit "th_sum" then .ok (some (.int (ofShort tcp.thSum)))
  else if element = lit "th_urp" then .ok (some (.int (ofShort tcp.thUrp)))
  else if element = lit "data" then tcpData packet ip tcp
  else .ok none

def getTcpElement (lexic : Lexic) : Except Fault (Option Argument) :=
  match getStrLocalVarByName lexic "tcp" with
  | none => .ok none
  | some packet => do
      let ipsz := getLocalVarSizeByName lexic "tcp"
      let packet := packet.take ipsz
      let (ip, _) ← viewIp packet
      if ipsz < ip.ipHl.toNat * 4 then return none
      if ipsz < (ntohs ip.ipLen).toNat then return none
      match getStrLocalVarByName lexic "element" with
      | none => return none
      | some element =>
          let (tcp, _) ← viewTcp (packet.drop (ip.ipHl.toNat * 4))
          tcpElement packet ip tcp (cText element)

/-- The fields that `set_tcp_elements` rewrites. -/
def setTcpFields (lexic : Lexic) (tcp : TcpHeader) : TcpHeader :=
  let int := getIntLocalVarByName lexic
  { thSport := htons (toShort (int "th_sport" (ofShort (ntohs tcp.thSport))))
    thDport := htons (toShort (int "th_dport" (ofShort (ntohs tcp.thDport))))
    thSeq := htonl (int "th_seq" (ntohl tcp.thSeq).toInt32).toUInt32
    thAck := htonl (int "th_ack" (ntohl tcp.thAck).toInt32).toUInt32
    thX2 := toNibble (int "th_x2" (ofNibble tcp.thX2))
    thOff := toNibble (int "th_off" (ofNibble tcp.thOff))
    thFlags := toChar (int "th_flags" (ofChar tcp.thFlags))
    thWin := htons (toShort (int "th_win" (ofShort (ntohs tcp.thWin))))
    thSum := toShort (int "th_sum" 0)
    thUrp := toShort (int "th_urp" (ofShort tcp.thUrp)) }

/-- The payload that `set_tcp_elements` writes: the argument, or what stands in the packet. -/
def setTcpData (lexic : Lexic) (pkt : List UInt8) (ip : IpHeader) (tcp : TcpHeader) (tcpAt : Nat) :
    Except Fault (List UInt8) :=
  let data := dataArgument lexic
  if data.length ≠ 0 then .ok data
  else
    let hl := ip.ipHl.toNat * 4
    let off := tcp.thOff.toNat * 4
    let ipLen := (ntohs ip.ipLen).toNat
    if ipLen < hl + off then .error .memory
    else
      let dataLen := ipLen - hl - off
      if pkt.length < tcpAt + off + dataLen then .error .memory
      else .ok ((pkt.drop (tcpAt + off)).take dataLen)

def setTcpElements (lexic : Lexic) : Except Fault (Option (List UInt8)) :=
  match getStrLocalVarByName lexic "tcp" with
  | none => .ok none
  | some pkt => do
      let pktsz := getLocalVarSizeByName lexic "tcp"
      let pkt := pkt.take pktsz
      let (oldIp, _) ← viewIp pkt
      let tcpAt := if pktsz < oldIp.ipHl.toNat * 4 then 20 else oldIp.ipHl.toNat * 4
      if pktsz < (ntohs oldIp.ipLen).toNat then return none
      let (oldTcp, _) ← viewTcp (pkt.drop tcpAt)
      let data ← setTcpData lexic pkt oldIp oldTcp tcpAt
      let npkt := List.replicate (oldIp.ipHl.toNat * 4 + oldTcp.thOff.toNat * 4 + data.length) 0
      let npkt ← bcopy (pkt.take (ntohs oldIp.ipLen).toNat) npkt 0
      let (ip, _) ← viewIp npkt
      let tcpAt := ip.ipHl.toNat * 4
      let (tcp, _) ← viewTcp (npkt.drop tcpAt)
      let tcp := setTcpFields lexic tcp
      let npkt ← bcopy tcp.bytes npkt tcpAt
      let npkt ← bcopy data npkt (tcpAt + tcp.thOff.toNat * 4)
      let (ip, rest) ← viewIp npkt
      let (tcp, _) ← viewTcp (npkt.drop tcpAt)
      let size := ip.ipHl.toNat * 4 + tcp.thOff.toNat * 4 + data.length
      -- The length stays in host order, and the sum is that of the old packet.
      let ip :=
        if getIntLocalVarByName lexic "update_ip_len" 1 ≠ 0 then
          { ip with
            ipLen := UInt16.ofNat size
            ipSum := npInCksum (pkt.take (ip.ipHl.toNat * 4)) }
        else ip
      let npkt := ip.bytes ++ rest
      let (tcp, _) ← viewTcp (npkt.drop tcpAt)
      let npkt ← bcopy (sumTcp ip.ipSrc ip.ipDst tcp data).bytes npkt tcpAt
      if npkt.length < size then throw .memory
      return some (npkt.take size)

/-- `struct udphdr`. -/
structure UdpHeader where
  uhSport : UInt16
  uhDport : UInt16
  uhUlen : UInt16
  uhSum : UInt16
deriving DecidableEq

/-- `sizeof (struct udphdr)`. -/
def sizeofUdp : Nat := 8

def UdpHeader.bytes (h : UdpHeader) : List UInt8 :=
  shortBytes h.uhSport ++ shortBytes h.uhDport ++ shortBytes h.uhUlen ++ shortBytes h.uhSum

@[simp] theorem UdpHeader.length_bytes (h : UdpHeader) : h.bytes.length = sizeofUdp := rfl

/-- The forged UDP header before its checksum. -/
def forgeUdpFields (lexic : Lexic) (dataLen : Nat) : UdpHeader :=
  let int := getIntLocalVarByName lexic
  { uhSport := htons (toShort (int "uh_sport" 0))
    uhDport := htons (toShort (int "uh_dport" 0))
    uhUlen := htons (toShort (int "uh_ulen" (Int32.ofNat (dataLen + sizeofUdp))))
    uhSum := toShort (int "uh_sum" 0) }

def sumUdp (saddr daddr : UInt32) (udp : UdpHeader) (data : List UInt8) : UdpHeader :=
  if udp.uhSum = 0 then
    { udp with
      uhSum := npInCksum
        (pseudohdr saddr daddr ipprotoUdp (sizeofUdp + data.length) ++ udp.bytes ++ data) }
  else udp

/-- The IP header in front of a forged datagram, with the bytes behind it for the sum. -/
def forgeUdpIpHeader (lexic : Lexic) (packet : IpHeader) (uhUlen : UInt16) (rest : List UInt8) :
    IpHeader :=
  if (ntohs packet.ipLen).toNat ≤ packet.ipHl.toNat * 4 ∧
      getIntLocalVarByName lexic "update_ip_len" 1 ≠ 0 then
    let packet := { packet with
      ipLen := htons (UInt16.ofNat ((ntohs uhUlen).toNat + packet.ipHl.toNat * 4)), ipSum := 0 }
    { packet with ipSum := npInCksum ((packet.bytes ++ rest).take (packet.ipHl.toNat * 4)) }
  else packet

def forgeUdpPacket (lexic : Lexic) : Except Fault (Option (List UInt8)) :=
  match getStrLocalVarByName lexic "ip" with
  | none => .ok none
  | some ip => do
      let size := getLocalVarSizeByName lexic "ip"
      let ip := ip.take size
      let (header, _) ← viewIp ip
      let hl := header.ipHl.toNat * 4
      let data := dataArgument lexic
      if size < hl then throw .memory
      let udp := sumUdp header.ipSrc header.ipDst (forgeUdpFields lexic data.length) data
      let pkt := List.replicate (sizeofUdp + hl + sizeofUdp + data.length) 0
      let pkt ← bcopy (udp.bytes ++ data) pkt hl
      let pkt ← bcopy (ip.take hl) pkt 0
      let (packet, rest) ← viewIp pkt
      let packet := forgeUdpIpHeader lexic packet udp.uhUlen rest
      return some ((packet.bytes ++ rest).take (8 + hl + data.length))

end Packets
