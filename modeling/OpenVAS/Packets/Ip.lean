import OpenVAS.Packets.Basic
import OpenVAS.Lib.Inet

/-! The functions on IP packets: `forge_ip_packet`, `get_ip_element`, `set_ip_elements` and
`insert_ip_options`. A buffer shorter than the header counts as an access outside of it. -/
namespace Packets

open CString Inet

/-- The `s_addr` of four bytes in network order. -/
def inAddrOf : List UInt8 → UInt32
  | [a, b, c, d] => longOf a b c d
  | _ => 0

/-- `inet_aton` of an argument into an address, which stays as it is if the text is none. -/
def readAddr (s : Option CString) (addr : UInt32) : UInt32 :=
  match s.bind fun s => inetAton (cText s) with
  | some bytes => inAddrOf bytes
  | none => addr

/-- The answer of `plug_get_host_ip` is NULL here also when it is no IPv4 address. -/
def forgeIpPacket (hostIp : Option UInt32) (rand : Int32) (lexic : Lexic) : Option (List UInt8) :=
  match hostIp with
  | none => none
  | some dstAddr =>
      let int := getIntLocalVarByName lexic
      let dataLen := getLocalVarSizeByName lexic "data"
      let data := ((getStrLocalVarByName lexic "data").getD []).take dataLen
      let pkt : IpHeader :=
        { ipHl := toNibble (int "ip_hl" 5)
          ipV := toNibble (int "ip_v" 4)
          ipTos := toChar (int "ip_tos" 0)
          ipLen := htons (UInt16.ofNat (20 + dataLen))
          ipId := htons (toShort (int "ip_id" rand))
          ipOff := htons (toShort (int "ip_off" 0))
          ipTtl := toChar (int "ip_ttl" 64)
          ipP := toChar (int "ip_p" 0)
          ipSum := htons (toShort (int "ip_sum" 0))
          ipSrc := readAddr (getStrLocalVarByName lexic "ip_src") 0
          ipDst :=
            match getStrLocalVarByName lexic "ip_dst" with
            | some s => readAddr (some s) 0
            | none => dstAddr }
      let pkt :=
        if pkt.ipSum = 0 ∧ int "ip_sum" (-1) < 0 then { pkt with ipSum := npInCksum pkt.bytes }
        else pkt
      some (pkt.bytes ++ data)

/-- An element by its name; `none` is an unknown one. -/
def ipElement (ip : IpHeader) (element : CString) : Option Argument :=
  if element = lit "ip_v" then some (.int (ofNibble ip.ipV))
  else if element = lit "ip_id" then some (.int (ofShort (ntohs ip.ipId)))
  else if element = lit "ip_hl" then some (.int (ofNibble ip.ipHl))
  else if element = lit "ip_tos" then some (.int (ofChar ip.ipTos))
  else if element = lit "ip_len" then some (.int (ofShort (ntohs ip.ipLen)))
  else if element = lit "ip_off" then some (.int (ofShort (ntohs ip.ipOff)))
  else if element = lit "ip_ttl" then some (.int (ofChar ip.ipTtl))
  else if element = lit "ip_p" then some (.int (ofChar ip.ipP))
  else if element = lit "ip_sum" then some (.int (ofShort (ntohs ip.ipSum)))
  else if element = lit "ip_src" then
    some (.str (snprintf 32 (inetNtoa (longBytes ip.ipSrc))))
  else if element = lit "ip_dst" then
    some (.str (snprintf 32 (inetNtoa (longBytes ip.ipDst))))
  else none

def getIpElement (lexic : Lexic) : Except Fault (Option Argument) :=
  match getStrLocalVarByName lexic "ip" with
  | none => .ok none
  | some ip =>
      match getStrLocalVarByName lexic "element" with
      | none => .ok none
      | some element => do
          let (ip, _) ← viewIp ip
          return ipElement ip (cText element)

/-- The fields that `set_ip_elements` rewrites, with the argument or the old value. -/
def setIpHeader (lexic : Lexic) (pkt : IpHeader) : IpHeader :=
  let int := getIntLocalVarByName lexic
  let pkt := { pkt with ipHl := toNibble (int "ip_hl" (ofNibble pkt.ipHl)) }
  let pkt := { pkt with ipV := toNibble (int "ip_v" (ofNibble pkt.ipV)) }
  let pkt := { pkt with ipTos := toChar (int "ip_tos" (ofChar pkt.ipTos)) }
  let pkt := { pkt with ipLen := htons (toShort (int "ip_len" (ofShort (ntohs pkt.ipLen)))) }
  -- The old value goes through `htons` too, although it is in network order.
  let pkt := { pkt with ipId := htons (toShort (int "ip_id" (ofShort pkt.ipId))) }
  let pkt := { pkt with ipOff := htons (toShort (int "ip_off" (ofShort (ntohs pkt.ipOff)))) }
  let pkt := { pkt with ipTtl := toChar (int "ip_ttl" (ofChar pkt.ipTtl)) }
  let pkt := { pkt with ipP := toChar (int "ip_p" (ofChar pkt.ipP)) }
  let pkt := { pkt with ipSrc := readAddr (getStrLocalVarByName lexic "ip_src") pkt.ipSrc }
  let pkt := { pkt with ipSum := htons (toShort (int "ip_sum" 0)) }
  if pkt.ipSum = 0 then { pkt with ipSum := npInCksum pkt.bytes } else pkt

def setIpElements (lexic : Lexic) : Except Fault (Option (List UInt8)) :=
  match getStrLocalVarByName lexic "ip" with
  | none => .ok none
  | some o_pkt => do
      let (pkt, rest) ← viewIp (o_pkt.take (getLocalVarSizeByName lexic "ip"))
      return some ((setIpHeader lexic pkt).bytes ++ rest)

def insertIpOptions (lexic : Lexic) : Except Fault (Option (List UInt8)) :=
  match getStrLocalVarByName lexic "ip" with
  | none => .ok none
  | some ip => do
      let code := getIntLocalVarByName lexic "code" 0
      let len := getIntLocalVarByName lexic "length" 0
      let valueSize := getLocalVarSizeByName lexic "value"
      let value := ((getStrLocalVarByName lexic "value").getD []).take valueSize
      let size := getLocalVarSizeByName lexic "ip"
      let ip := ip.take size
      let padLen := (4 - (2 + valueSize) % 4) % 4
      let optLen := 2 + valueSize + padLen
      let (header, _) ← viewIp ip
      let hl := min (header.ipHl.toNat * 4) (ntohs header.ipLen).toNat
      if size < hl then throw .memory
      let newPacket := List.replicate (size + 4 + valueSize + padLen) 0
      let newPacket ← bcopy (ip.take hl) newPacket 0
      let newPacket ← bcopy ([toChar code, toChar len] ++ value ++ List.replicate padLen 0) newPacket hl
      -- `new_packet` points to a header, so the offset counts in headers.
      let newPacket ← bcopy (ip.drop hl) newPacket (sizeofIp * (optLen + hl))
      let (header, rest) ← viewIp newPacket
      let header := { header with
        ipHl := BitVec.ofNat 4 ((hl + optLen) / 4)
        ipLen := htons (UInt16.ofNat (size + optLen))
        ipSum := 0 }
      let summed := min (header.ipHl.toNat * 4) (ntohs header.ipLen).toNat
      let header := { header with ipSum := npInCksum ((header.bytes ++ rest).take summed) }
      return some ((header.bytes ++ rest).take (size + optLen))

end Packets
