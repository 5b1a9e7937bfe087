import OpenVAS.Lib.Inet

/-! One element of a hosts string, as `openvas_hosts.c` reads it: the checks that
decide its type, and the first and last address of a block or range. Addresses of
type `in_addr` are in host byte order, so `ntohl` and `htonl` do not appear. -/
namespace Hosts

open CString Inet

/-- The forms of `enum host_type`. -/
inductive HostType where
  | name
  | ipv4
  | cidrBlock
  | rangeShort
  | rangeLong
  | ipv6
  | cidr6Block
  | range6Long
  | range6Short
deriving DecidableEq

/-- The texts in front of and behind the first `c`. -/
def separate (s : CString) (c : UInt8) : Option (CString × CString) :=
  (strchr s c).map fun i => (s.take i, s.drop (i + 1))

def isIpv4Address (s : CString) : Bool := (inetPton4 s).isSome

def isIpv6Address (s : CString) : Bool := (inetPton6 s).isSome

/-- An address and a decimal number within bounds, with a separator in between. `is_cidr_block`
and the others like it test the byte `*p` behind the number after they have freed the copy
that `p` points into; it is taken to be as it was. -/
def isAddressAndNumber (isAddress : CString → Bool) (sep : UInt8) (low high : Int) (s : CString) :
    Bool :=
  match separate s sep with
  | none => false
  | some (addr, number) =>
      isAddress addr && number.head?.any isdigit && (strtol number).2 = [] &&
        low ≤ (strtol number).1 && (strtol number).1 ≤ high

def isCidrBlock : CString → Bool := isAddressAndNumber isIpv4Address (ch '/') 1 30

def isShortRangeNetwork : CString → Bool := isAddressAndNumber isIpv4Address (ch '-') 0 255

def isCidr6Block : CString → Bool := isAddressAndNumber isIpv6Address (ch '/') 1 128

/-- Two addresses with a dash in between. -/
def isAddressPair (isAddress : CString → Bool) (s : CString) : Bool :=
  match separate s (ch '-') with
  | none => false
  | some (first, second) => isAddress first && isAddress second

def isLongRangeNetwork : CString → Bool := isAddressPair isIpv4Address

def isLongRange6Network : CString → Bool := isAddressPair isIpv6Address

def isShortRange6Network (s : CString) : Bool :=
  match separate s (ch '-') with
  | none => false
  | some (ip, last) => isIpv6Address ip && last ≠ [] && last.all isxdigit && last.length ≤ 4

def isHostname (s : CString) : Bool :=
  s.all (fun c => isalnum c || (lit "-_.").contains c) && s.length < 256

/-- The form of an element; `none` is the error answer. -/
def determineHostType (s : CString) : Option HostType :=
  if s = [] then none
  else if isIpv4Address s then some .ipv4
  else if isIpv6Address s then some .ipv6
  else if isCidrBlock s then some .cidrBlock
  else if isShortRangeNetwork s then some .rangeShort
  else if isLongRangeNetwork s then some .rangeLong
  else if isCidr6Block s then some .cidr6Block
  else if isShortRange6Network s then some .range6Short
  else if isLongRange6Network s then some .range6Long
  else if isHostname s then some .name
  else none

/-- What the functions that compute a first and last address answer. A shift by
the width of an `int` or more and an index outside an address have no defined result. -/
inductive Ips (α : Type) where
  | failed
  | undefined
  | range (first last : α)

/-- `sscanf` with a skipped scan set, a slash and a number of bounded width. -/
def scanBlock (scanset : UInt8 → Bool) (width : Nat) (s : CString) : Option Nat :=
  if s.takeWhile scanset = [] then none
  else match s.dropWhile scanset with
    | [] => none
    | c :: rest => if c = ch '/' then scanUnsigned width rest else none

def cidrGetBlock : CString → Option Nat := scanBlock (fun c => isdigit c || c = ch '.') 2

def cidr6GetBlock : CString → Option Nat :=
  scanBlock (fun c => isxdigit c || c = ch '.' || c = ch ':') 3

def cidrGetIp (s : CString) : Option UInt32 := do
  let (addr, _) ← separate s (ch '/')
  inetPton4 addr

def cidr6GetIp (s : CString) : Option In6Addr := do
  let (addr, _) ← separate s (ch '/')
  inetPton6 addr

def cidrBlockIps (s : CString) : Ips UInt32 :=
  match cidrGetBlock s, cidrGetIp s with
  | some block, some ip =>
      if block = 0 ∨ 32 < block then .undefined
      else
        let size : UInt32 := 1 <<< UInt32.ofNat (32 - block)
        let first := (ip &&& (0xffffffff ^^^ (size - 1))) + 1
        .range first (first + size - 3)
  | _, _ => .failed

def longRangeNetworkIps (s : CString) : Ips UInt32 :=
  match separate s (ch '-') with
  | none => .failed
  | some (firstStr, lastStr) =>
      match inetPton4 firstStr, inetPton4 lastStr with
      | some first, some last => .range first last
      | _, _ => .failed

def shortRangeNetworkIps (s : CString) : Ips UInt32 :=
  match separate s (ch '-') with
  | none => .failed
  | some (firstStr, lastStr) =>
      match inetPton4 firstStr with
      | some first => .range first ((first &&& 0xffffff00) + (atoi lastStr).toUInt32)
      | none => .failed

/-- `/128` is the address itself and `/127` keeps both its addresses; otherwise
the network and the broadcast address are skipped. -/
def cidr6BlockIps (s : CString) : Ips In6Addr :=
  match cidr6GetBlock s, cidr6GetIp s with
  | some block, some ip =>
      if block = 128 then .range ip ip
      else if h : 0 < block ∧ block < 128 then
        let tail : Fin 16 := ⟨(128 - block) / 8, by omega⟩
        let mask := Bytes.lowBits ((128 - block) % 8)
        let first := ip.overwriteTail tail 0 (· &&& (255 ^^^ mask))
        let last := ip.overwriteTail tail 255 (· ||| mask)
        if block = 127 then .range first last else .range first.next last.previous
      else .undefined
  | _, _ => .failed

def longRange6NetworkIps (s : CString) : Ips In6Addr :=
  match separate s (ch '-') with
  | none => .failed
  | some (firstStr, lastStr) =>
      match inetPton6 firstStr, inetPton6 lastStr with
      | some first, some last => .range first last
      | _, _ => .failed

/-- `strtol` in base 16 of a text that starts with hexadecimal digits. -/
def strtol16 (s : CString) : Nat := xdigitsValue (s.takeWhile isxdigit)

/-- The last two bytes are the low bytes of the number; `long` is little-endian. -/
def shortRange6NetworkIps (s : CString) : Ips In6Addr :=
  match separate s (ch '-') with
  | none => .failed
  | some (firstStr, lastStr) =>
      match inetPton6 firstStr with
      | some first =>
          let last := strtol16 lastStr
          .range first
            { s6Addr := first.s6Addr.take 14 ++ [UInt8.ofNat (last / 256), UInt8.ofNat last]
              size := by simp [first.size] }
      | none => .failed

end Hosts
