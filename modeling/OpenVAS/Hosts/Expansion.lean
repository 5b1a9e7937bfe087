import OpenVAS.Hosts.Basic

/-! What an element of a hosts string denotes, and that a collection holds
exactly the hosts its elements denote. The exception are blocks whose prefix
length is written with more digits than `sscanf` is told to read. -/
namespace Hosts

open CString Inet

/-- First and last number of the IPv4 addresses that an element of a given form denotes. A
block is meant without its network and broadcast address. -/
def writtenRange4 : HostType → CString → Option (Nat × Nat)
  | .ipv4, element => (inetPton4 element).map fun a => (a.toNat, a.toNat)
  | .cidrBlock, element => do
      let (addr, number) ← separate element (ch '/')
      let a ← inetPton4 addr
      let size := 2 ^ (32 - digitsValue number)
      let network := a.toNat - a.toNat % size
      some (network + 1, network + size - 2)
  | .rangeShort, element => do
      let (addr, number) ← separate element (ch '-')
      let a ← inetPton4 addr
      some (a.toNat, a.toNat - a.toNat % 256 + digitsValue number)
  | .rangeLong, element => do
      let (addr, addr') ← separate element (ch '-')
      let a ← inetPton4 addr
      let a' ← inetPton4 addr'
      some (a.toNat, a'.toNat)
  | _, _ => none

/-- First and last number of the IPv6 addresses that an element of a given form denotes. -/
def writtenRange6 : HostType → CString → Option (Nat × Nat)
  | .ipv6, element => (inetPton6 element).map fun a => (a.toNat, a.toNat)
  | .cidr6Block, element => do
      let (addr, number) ← separate element (ch '/')
      let a ← inetPton6 addr
      let size := 2 ^ (128 - digitsValue number)
      let network := a.toNat - a.toNat % size
      -- The one or two addresses of a /128 or /127 are all meant.
      if size ≤ 2 then some (network, network + size - 1)
      else some (network + 1, network + size - 2)
  | .range6Short, element => do
      let (addr, number) ← separate element (ch '-')
      let a ← inetPton6 addr
      some (a.toNat, a.toNat - a.toNat % 65536 + xdigitsValue number)
  | .range6Long, element => do
      let (addr, addr') ← separate element (ch '-')
      let a ← inetPton6 addr
      let a' ← inetPton6 addr'
      some (a.toNat, a'.toNat)
  | _, _ => none

/-- The host objects that an element stands for. -/
def StandsFor (element : CString) (host : OpenvasHost) : Prop :=
  ∃ type, determineHostType element = some type ∧
    match host with
    | .name name => type = .name ∧ name = element
    | .ipv4 a => ∃ range ∈ writtenRange4 type element, range.1 ≤ a.toNat ∧ a.toNat ≤ range.2
    | .ipv6 a => ∃ range ∈ writtenRange6 type element, range.1 ≤ a.toNat ∧ a.toNat ≤ range.2

/-- An element denotes a host by its name, in either case, or by its address. -/
def Denotes (element : CString) (host : OpenvasHost) (ip : In6Addr) : Prop :=
  (∃ name name', StandsFor element (.name name) ∧ host = .name name' ∧
    strcaseeq name' name = true) ∨
  (∃ a, StandsFor element (.ipv4 a) ∧ ipv4AsIpv6 a = ip) ∨
  StandsFor element (.ipv6 ip)

/-- A block with as many digits of its prefix length as are read. -/
def readPrefix (width : Nat) (element : CString) : CString :=
  match separate element (ch '/') with
  | some (addr, number) => addr ++ ch '/' :: number.take width
  | none => element

/-- What `sscanf` reads of an element of a given form. -/
def asRead : HostType → CString → CString
  | .cidrBlock, element => readPrefix 2 element
  | .cidr6Block, element => readPrefix 3 element
  | _, element => element

/-- The host objects that an element is read as. -/
def ReadAs (element : CString) (host : OpenvasHost) : Prop :=
  ∃ type, determineHostType element = some type ∧
    match host with
    | .name name => type = .name ∧ name = element
    | .ipv4 a =>
        ∃ range ∈ writtenRange4 type (asRead type element), range.1 ≤ a.toNat ∧ a.toNat ≤ range.2
    | .ipv6 a =>
        ∃ range ∈ writtenRange6 type (asRead type element), range.1 ≤ a.toNat ∧ a.toNat ≤ range.2

/-- An element is read as a host's name, in either case, or as its address. -/
def ReadDenotes (element : CString) (host : OpenvasHost) (ip : In6Addr) : Prop :=
  (∃ name name', ReadAs element (.name name) ∧ host = .name name' ∧
    strcaseeq name' name = true) ∨
  (∃ a, ReadAs element (.ipv4 a) ∧ ipv4AsIpv6 a = ip) ∨
  ReadAs element (.ipv6 ip)

/-- A block whose prefix length has more digits than the scanner reads of it. -/
def OverlongPrefix (element : CString) : Prop :=
  ∃ addr number, separate element (ch '/') = some (addr, number) ∧
    ((determineHostType element = some .cidrBlock ∧ 2 < number.length) ∨
      (determineHostType element = some .cidr6Block ∧ 3 < number.length))

/-- The check that an element of each form has passed. -/
def HostType.check : HostType → CString → Bool
  | .name => isHostname
  | .ipv4 => isIpv4Address
  | .cidrBlock => isCidrBlock
  | .rangeShort => isShortRangeNetwork
  | .rangeLong => isLongRangeNetwork
  | .ipv6 => isIpv6Address
  | .cidr6Block => isCidr6Block
  | .range6Long => isLongRange6Network
  | .range6Short => isShortRange6Network

theorem check_of_determineHostType {element : CString} {type : HostType}
    (h : determineHostType element = some type) : type.check element = true := by
  unfold determineHostType at h
  split_ifs at h <;> (obtain rfl := Option.some.inj h; assumption)

/-- A name is no IPv4 address. -/
theorem not_ipv4_of_name {element : CString} (h : determineHostType element = some .name) :
    inetPton4 element = none := by
  rw [← Option.not_isSome_iff_eq_none]
  intro hSome
  have hIpv4 : isIpv4Address element = true := hSome
  rw [determineHostType, hIpv4] at h
  split at h <;> simp at h

theorem separate_spec {s : CString} {c : UInt8} {front back : CString}
    (h : separate s c = some (front, back)) : s = front ++ c :: back ∧ c ∉ front := by
  obtain ⟨i, hi, hPair⟩ := Option.map_eq_some_iff.mp h
  obtain ⟨rfl, rfl⟩ := Prod.mk.inj hPair
  rw [strchr, List.idxOf?, List.findIdx?_eq_some_iff_getElem] at hi
  obtain ⟨hLt, hAt, hBefore⟩ := hi
  refine ⟨?_, ?_⟩
  · have hc : s[i] = c := by simpa using hAt
    rw [← hc, List.getElem_cons_drop, List.take_append_drop]
  · intro hMem
    obtain ⟨j, hj, hGet⟩ := List.mem_take_iff_getElem.mp hMem
    have hNe := hBefore j (by omega)
    simp [hGet] at hNe

theorem separate_append {front : CString} {c : UInt8} (h : c ∉ front) (back : CString) :
    separate (front ++ c :: back) c = some (front, back) := by
  rw [separate, strchr_append_cons h, Option.map_some, List.take_left, ← List.drop_drop,
    List.drop_left]
  rfl

theorem readPrefix_of_separate {element addr number : CString} (width : Nat)
    (h : separate element (ch '/') = some (addr, number)) :
    separate (readPrefix width element) (ch '/') = some (addr, number.take width) := by
  rw [readPrefix, h]
  exact separate_append (separate_spec h).2 _

/-- A text of digits as `strtol` reads it. -/
theorem strtol_of_digit {s : CString} (h : s.head?.any isdigit = true) :
    strtol s = (min (2 ^ 63 - 1) (digitsValue (s.takeWhile isdigit) : Int), s.dropWhile isdigit) := by
  cases s with
  | nil => simp at h
  | cons c rest =>
      have hc : isdigit c = true := by simpa using h
      have hSpace := not_isspace_of_isdigit hc
      have hMinus : c ≠ ch '-' := by rintro rfl; exact absurd hc (by decide)
      have hPlus : c ≠ ch '+' := by rintro rfl; exact absurd hc (by decide)
      have hSign : splitSign (c :: rest) = (false, c :: rest) := by simp [splitSign, hMinus, hPlus]
      have hDigits : (c :: rest).takeWhile isdigit ≠ [] := by simp [hc]
      rw [strtol, List.dropWhile_cons, hSpace]
      simp only [Bool.false_eq_true, if_false, hSign, hDigits]
      refine Prod.ext ?_ rfl
      change max (-2 ^ 63) (min (2 ^ 63 - 1) _) = min (2 ^ 63 - 1) _
      omega

/-- What an accepted address and number consists of. -/
theorem isAddressAndNumber_spec {isAddress : CString → Bool} {sep : UInt8} {low high : Int}
    {s : CString} (hHigh : high < 2 ^ 63 - 1)
    (h : isAddressAndNumber isAddress sep low high s = true) :
    ∃ addr number, separate s sep = some (addr, number) ∧ isAddress addr = true ∧ number ≠ [] ∧
      number.all isdigit = true ∧ low ≤ digitsValue number ∧ (digitsValue number : Int) ≤ high := by
  rw [isAddressAndNumber] at h
  split at h
  · simp at h
  · rename_i addr number hSep
    simp only [Bool.and_eq_true, decide_eq_true_eq] at h
    obtain ⟨⟨⟨⟨hAddr, hHead⟩, hRest⟩, hLow⟩, hTop⟩ := h
    rw [strtol_of_digit hHead] at hRest hLow hTop
    simp only at hRest hLow hTop
    have hAll : number.takeWhile isdigit = number := by
      have hWhole := List.takeWhile_append_dropWhile (p := isdigit) (l := number)
      rwa [hRest, List.append_nil] at hWhole
    rw [hAll] at hLow hTop
    refine ⟨addr, number, hSep, hAddr, ?_, ?_, by omega, by omega⟩
    · rintro rfl
      simp at hHead
    · rw [← hAll, List.all_takeWhile]

/-- A bounded scan reads the leading digits of a number. -/
theorem scanUnsigned_of_digits {width : Nat} {number : CString} (hWidth : 0 < width)
    (hNe : number ≠ []) (hDigits : number.all isdigit = true) (hSmall : digitsValue number < 2 ^ 32) :
    scanUnsigned width number = some (digitsValue (number.take width)) := by
  have hFront : digitsValue (number.take width) < 2 ^ 32 := by
    have hLe := digitsValue_take_le number width
    omega
  cases number with
  | nil => exact absurd rfl hNe
  | cons c rest =>
      have hc : isdigit c = true := List.all_eq_true.mp hDigits c (by simp)
      have hSpace := not_isspace_of_isdigit hc
      have hMinus : c ≠ ch '-' := by rintro rfl; exact absurd hc (by decide)
      have hPlus : c ≠ ch '+' := by rintro rfl; exact absurd hc (by decide)
      obtain ⟨width, rfl⟩ := Nat.exists_eq_succ_of_ne_zero hWidth.ne'
      have hSign : splitSign ((c :: rest).take width.succ) = (false, (c :: rest).take width.succ) := by
        simp [splitSign, hMinus, hPlus]
      have hTake : ((c :: rest).take width.succ).takeWhile isdigit = (c :: rest).take width.succ :=
        List.takeWhile_eq_self_iff.mpr fun d hd =>
          List.all_eq_true.mp hDigits d (List.mem_of_mem_take hd)
      rw [scanUnsigned, List.dropWhile_cons, hSpace]
      simp only [Bool.false_eq_true, if_false, hSign, hTake, Nat.mod_eq_of_lt hFront]
      simp

/-- Scanning past the address of a block reaches its prefix length. -/
theorem scanBlock_of_separate {scanset : UInt8 → Bool} {width : Nat} {s addr number : CString}
    (hSep : separate s (ch '/') = some (addr, number)) (hNe : addr ≠ [])
    (hAddr : ∀ b ∈ addr, scanset b = true) (hSlash : scanset (ch '/') = false) :
    scanBlock scanset width s = scanUnsigned width number := by
  obtain ⟨rfl, _⟩ := separate_spec hSep
  have hTake : (addr ++ ch '/' :: number).takeWhile scanset = addr := by
    rw [List.takeWhile_append_of_pos hAddr]
    simp [hSlash]
  have hDrop : (addr ++ ch '/' :: number).dropWhile scanset = ch '/' :: number := by
    rw [List.dropWhile_append_of_pos hAddr]
    simp [hSlash]
  rw [scanBlock, hTake, if_neg hNe, hDrop]
  simp

theorem ne_nil_of_isIpv4Address {s : CString} (h : isIpv4Address s = true) : s ≠ [] := by
  rintro rfl
  exact absurd h (by decide)

theorem ne_nil_of_isIpv6Address {s : CString} (h : isIpv6Address s = true) : s ≠ [] := by
  rintro rfl
  exact absurd h (by decide)

theorem blockSize_toNat {block : Nat} (hLow : 1 ≤ block) (hHigh : block ≤ 32) :
    ((1 : UInt32) <<< UInt32.ofNat (32 - block)).toNat = 2 ^ (32 - block) := by
  interval_cases block <;> rfl

/-- Usable addresses of the block of `size` addresses around `ip`. -/
theorem usable_toNat (ip : UInt32) {size : UInt32} {k : Nat} (hSize : size.toNat = 2 ^ k) (hLow : 2 ≤ k)
    (hHigh : k ≤ 31) :
    let first := (ip &&& (0xffffffff ^^^ (size - 1))) + 1
    first.toNat = ip.toNat - ip.toNat % 2 ^ k + 1 ∧
      (first + size - 3).toNat = ip.toNat - ip.toNat % 2 ^ k + 2 ^ k - 2 := by
  have hRoom := Bytes.sub_mod_add_le (k := k) ip.toNat_lt (by omega)
  have hFour : 2 ^ 2 ≤ 2 ^ k := Nat.pow_le_pow_right (by decide) hLow
  have hOnes : (size - 1).toNat = 2 ^ k - 1 := by
    rw [UInt32.toNat_sub_of_le, hSize]
    · rfl
    · rw [UInt32.le_iff_toNat_le, hSize]
      exact Nat.one_le_two_pow
  have hNetwork : (ip &&& (0xffffffff ^^^ (size - 1))).toNat = ip.toNat - ip.toNat % 2 ^ k := by
    rw [UInt32.toNat_and, UInt32.toNat_xor, hOnes]
    exact Bytes.and_mask (w := 32) k ip.toNat_lt
  have hOne : (1 : UInt32).toNat = 1 := rfl
  have hThree : (3 : UInt32).toNat = 3 := rfl
  generalize ip.toNat - ip.toNat % 2 ^ k = network at *
  have hFirst : ((ip &&& (0xffffffff ^^^ (size - 1))) + 1).toNat = network + 1 := by
    rw [UInt32.toNat_add, hNetwork, hOne]
    omega
  refine ⟨hFirst, ?_⟩
  rw [UInt32.toNat_sub, UInt32.toNat_add, hFirst, hSize, hThree]
  omega

/-- What an accepted block consists of, and the prefix length that is read from it. -/
theorem cidrGetBlock_of_accepted {element : CString}
    (hType : determineHostType element = some .cidrBlock) :
    ∃ addr number a, separate element (ch '/') = some (addr, number) ∧ inetPton4 addr = some a ∧
      1 ≤ digitsValue number ∧ digitsValue number ≤ 30 ∧
      cidrGetBlock element = some (digitsValue (number.take 2)) := by
  obtain ⟨addr, number, hSep, hAddr, hNe, hDigits, hLow, hHigh⟩ :=
    isAddressAndNumber_spec (by decide) (check_of_determineHostType hType)
  obtain ⟨a, ha⟩ := Option.isSome_iff_exists.mp hAddr
  refine ⟨addr, number, a, hSep, ha, by omega, by omega, ?_⟩
  rw [cidrGetBlock, scanBlock_of_separate hSep (ne_nil_of_isIpv4Address hAddr) _ (by decide),
    scanUnsigned_of_digits (by decide) hNe hDigits (by omega)]
  intro b hb
  rcases mem_of_inetPton4 hAddr hb with hDigit | rfl
  · simp [hDigit]
  · decide

/-- The usable addresses of a block, by the prefix length that is read. -/
theorem cidrBlockIps_of_block {element addr number : CString} {a : UInt32} {block : Nat}
    (hSep : separate element (ch '/') = some (addr, number)) (ha : inetPton4 addr = some a)
    (hBlock : cidrGetBlock element = some block) (hLow : 1 ≤ block) (hHigh : block ≤ 30) :
    ∃ first last, cidrBlockIps element = .range first last ∧
      first.toNat = a.toNat - a.toNat % 2 ^ (32 - block) + 1 ∧
      last.toNat = a.toNat - a.toNat % 2 ^ (32 - block) + 2 ^ (32 - block) - 2 := by
  have hIp : cidrGetIp element = some a := by simp [cidrGetIp, hSep, ha]
  have hSize := blockSize_toNat hLow (show block ≤ 32 by omega)
  obtain ⟨hFirst, hLast⟩ := usable_toNat a hSize (by omega) (by omega)
  refine ⟨_, _, ?_, hFirst, hLast⟩
  rw [cidrBlockIps, hBlock, hIp]
  simp only
  rw [if_neg (by omega)]

/-- The addresses of an IPv4 block with a prefix length of at most two digits. -/
theorem cidrBlockIps_exact {element : CString} (hType : determineHostType element = some .cidrBlock)
    (hShort : ¬ OverlongPrefix element) :
    ∃ first last, cidrBlockIps element = .range first last ∧
      writtenRange4 .cidrBlock element = some (first.toNat, last.toNat) := by
  obtain ⟨addr, number, a, hSep, ha, hLow, hHigh, hBlock⟩ := cidrGetBlock_of_accepted hType
  have hLength : number.length ≤ 2 := by
    by_contra hLong
    exact hShort ⟨addr, number, hSep, .inl ⟨hType, by omega⟩⟩
  rw [List.take_of_length_le hLength] at hBlock
  obtain ⟨first, last, hIps, hFirst, hLast⟩ := cidrBlockIps_of_block hSep ha hBlock hLow hHigh
  refine ⟨first, last, hIps, ?_⟩
  simp only [writtenRange4, hSep, ha, Option.bind_eq_bind, Option.bind_some, hFirst, hLast]

theorem atoi_toUInt32 {number : CString} (hNe : number ≠ []) (hDigits : number.all isdigit = true)
    (hSmall : digitsValue number ≤ 255) : (atoi number).toUInt32.toNat = digitsValue number := by
  have hBytes : ∀ n : Nat, n < 256 → (Int32.ofInt n).toUInt32.toNat = n := by decide +kernel
  have hHead : number.head?.any isdigit = true := by
    cases number with
    | nil => exact absurd rfl hNe
    | cons c rest => simpa using List.all_eq_true.mp hDigits c (by simp)
  have hTake : number.takeWhile isdigit = number :=
    List.takeWhile_eq_self_iff.mpr (List.all_eq_true.mp hDigits)
  have hMin : min (2 ^ 63 - 1) (digitsValue number : Int) = (digitsValue number : Int) := by omega
  rw [atoi, strtol_of_digit hHead, hTake, hMin, hBytes _ (by omega)]

theorem shortRangeNetworkIps_exact {element : CString}
    (hType : determineHostType element = some .rangeShort) :
    ∃ first last, shortRangeNetworkIps element = .range first last ∧
      writtenRange4 .rangeShort element = some (first.toNat, last.toNat) := by
  obtain ⟨addr, number, hSep, hAddr, hNe, hDigits, _, hHigh⟩ :=
    isAddressAndNumber_spec (by decide) (check_of_determineHostType hType)
  obtain ⟨a, ha⟩ := Option.isSome_iff_exists.mp hAddr
  have hEnd := atoi_toUInt32 hNe hDigits (by omega)
  have hRoom := Bytes.sub_mod_add_le (k := 8) a.toNat_lt (by decide)
  have hNetwork : (a &&& 0xffffff00).toNat = a.toNat - a.toNat % 2 ^ 8 := by
    rw [UInt32.toNat_and]
    exact Bytes.and_mask (w := 32) 8 a.toNat_lt
  have hLast : ((a &&& 0xffffff00) + (atoi number).toUInt32).toNat =
      a.toNat - a.toNat % 256 + digitsValue number := by
    rw [UInt32.toNat_add, hNetwork, hEnd]
    omega
  refine ⟨a, (a &&& 0xffffff00) + (atoi number).toUInt32, ?_, ?_⟩
  · simp [shortRangeNetworkIps, hSep, ha]
  · simp [writtenRange4, hSep, ha, hLast]

theorem isAddressPair_spec {isAddress : CString → Bool} {s : CString}
    (h : isAddressPair isAddress s = true) :
    ∃ first second, separate s (ch '-') = some (first, second) ∧ isAddress first = true ∧
      isAddress second = true := by
  rw [isAddressPair] at h
  split at h
  · simp at h
  · rename_i first second hSep
    rw [Bool.and_eq_true] at h
    exact ⟨first, second, hSep, h⟩

theorem longRangeNetworkIps_exact {element : CString}
    (hType : determineHostType element = some .rangeLong) :
    ∃ first last, longRangeNetworkIps element = .range first last ∧
      writtenRange4 .rangeLong element = some (first.toNat, last.toNat) := by
  obtain ⟨addr, addr', hSep, hAddr, hAddr'⟩ := isAddressPair_spec (check_of_determineHostType hType)
  obtain ⟨a, ha⟩ := Option.isSome_iff_exists.mp hAddr
  obtain ⟨a', ha'⟩ := Option.isSome_iff_exists.mp hAddr'
  refine ⟨a, a', ?_, ?_⟩
  · simp [longRangeNetworkIps, hSep, ha, ha']
  · simp [writtenRange4, hSep, ha, ha']

theorem longRange6NetworkIps_exact {element : CString}
    (hType : determineHostType element = some .range6Long) :
    ∃ first last, longRange6NetworkIps element = .range first last ∧
      writtenRange6 .range6Long element = some (first.toNat, last.toNat) := by
  obtain ⟨addr, addr', hSep, hAddr, hAddr'⟩ := isAddressPair_spec (check_of_determineHostType hType)
  obtain ⟨a, ha⟩ := Option.isSome_iff_exists.mp hAddr
  obtain ⟨a', ha'⟩ := Option.isSome_iff_exists.mp hAddr'
  refine ⟨a, a', ?_, ?_⟩
  · simp [longRange6NetworkIps, hSep, ha, ha']
  · simp [writtenRange6, hSep, ha, ha']

theorem shortRange6NetworkIps_exact {element : CString}
    (hType : determineHostType element = some .range6Short) :
    ∃ first last, shortRange6NetworkIps element = .range first last ∧
      writtenRange6 .range6Short element = some (first.toNat, last.toNat) := by
  have hCheck := check_of_determineHostType hType
  simp only [HostType.check, isShortRange6Network] at hCheck
  split at hCheck
  · simp at hCheck
  · rename_i addr number hSep
    simp only [Bool.and_eq_true, decide_eq_true_eq] at hCheck
    obtain ⟨⟨⟨hAddr, _⟩, hDigits⟩, hLength⟩ := hCheck
    obtain ⟨a, ha⟩ := Option.isSome_iff_exists.mp hAddr
    have hRead : strtol16 number = xdigitsValue number := by
      rw [strtol16, List.takeWhile_eq_self_iff.mpr (List.all_eq_true.mp hDigits)]
    have hSmall : xdigitsValue number < 65536 := by
      calc xdigitsValue number < 16 ^ number.length := xdigitsValue_lt hDigits
        _ ≤ 16 ^ 4 := Nat.pow_le_pow_right (by decide) hLength
    have hBytes := Bytes.value_append (a.s6Addr.take 14) (a.s6Addr.drop 14)
    have hTail := Bytes.value_lt (a.s6Addr.drop 14)
    have hLength' : (a.s6Addr.drop 14).length = 2 := by rw [List.length_drop, a.size]
    rw [List.take_append_drop, hLength'] at hBytes
    rw [hLength'] at hTail
    have hLast : Bytes.value (a.s6Addr.take 14 ++
        [UInt8.ofNat (xdigitsValue number / 256), UInt8.ofNat (xdigitsValue number)]) =
          a.toNat - a.toNat % 65536 + xdigitsValue number := by
      rw [Bytes.value_append, In6Addr.toNat, hBytes]
      simp only [Bytes.value, List.length_cons, List.length_nil, UInt8.toNat_ofNat']
      omega
    refine ⟨a, ⟨a.s6Addr.take 14 ++ [UInt8.ofNat (xdigitsValue number / 256),
      UInt8.ofNat (xdigitsValue number)], by simp [a.size]⟩, ?_, ?_⟩
    · simp only [shortRange6NetworkIps, hSep, ha, hRead]
    · simp only [writtenRange6, hSep, ha, Option.bind_eq_bind, Option.bind_some]
      rw [In6Addr.toNat] at hLast ⊢
      rw [In6Addr.toNat, hLast]

/-- Network and broadcast address of the block around an IPv6 address. -/
theorem prefix_toNat (a : In6Addr) {block : Nat} (hBytes : (128 - block) / 8 < 16) :
    (a.overwriteTail ⟨(128 - block) / 8, hBytes⟩ 0
      (· &&& (255 ^^^ Bytes.lowBits ((128 - block) % 8)))).toNat =
        a.toNat - a.toNat % 2 ^ (128 - block) ∧
    (a.overwriteTail ⟨(128 - block) / 8, hBytes⟩ 255
      (· ||| Bytes.lowBits ((128 - block) % 8))).toNat =
        a.toNat - a.toNat % 2 ^ (128 - block) + (2 ^ (128 - block) - 1) := by
  have hTail : (128 - block) / 8 < a.s6Addr.length := by rw [a.size]; omega
  have hBits : 8 * ((128 - block) / 8) + (128 - block) % 8 = 128 - block := by omega
  have hClear := Bytes.value_clear hTail (r := (128 - block) % 8) (by omega)
  have hFill := Bytes.value_fill hTail (r := (128 - block) % 8) (by omega)
  rw [hBits] at hClear hFill
  exact ⟨hClear, hFill⟩

theorem cidr6GetBlock_of_accepted {element : CString}
    (hType : determineHostType element = some .cidr6Block) :
    ∃ addr number a, separate element (ch '/') = some (addr, number) ∧ inetPton6 addr = some a ∧
      1 ≤ digitsValue number ∧ digitsValue number ≤ 128 ∧
      cidr6GetBlock element = some (digitsValue (number.take 3)) := by
  obtain ⟨addr, number, hSep, hAddr, hNe, hDigits, hLow, hHigh⟩ :=
    isAddressAndNumber_spec (by decide) (check_of_determineHostType hType)
  obtain ⟨a, ha⟩ := Option.isSome_iff_exists.mp hAddr
  refine ⟨addr, number, a, hSep, ha, by omega, by omega, ?_⟩
  rw [cidr6GetBlock, scanBlock_of_separate hSep (ne_nil_of_isIpv6Address hAddr) _ (by decide),
    scanUnsigned_of_digits (by decide) hNe hDigits (by omega)]
  intro b hb
  rcases mem_of_inetPton6 hAddr hb with hDigit | rfl | rfl
  · simp [hDigit]
  · decide
  · decide

/-- Network and broadcast address are skipped in the larger blocks only. -/
theorem cidr6BlockIps_of_block {element addr number : CString} {a : In6Addr} {block : Nat}
    (hSep : separate element (ch '/') = some (addr, number)) (ha : inetPton6 addr = some a)
    (hBlock : cidr6GetBlock element = some block) (hLow : 1 ≤ block) (hHigh : block ≤ 128) :
    ∃ first last, cidr6BlockIps element = .range first last ∧
      (first.toNat, last.toNat) =
        if 2 ^ (128 - block) ≤ 2 then
          (a.toNat - a.toNat % 2 ^ (128 - block),
            a.toNat - a.toNat % 2 ^ (128 - block) + 2 ^ (128 - block) - 1)
        else
          (a.toNat - a.toNat % 2 ^ (128 - block) + 1,
            a.toNat - a.toNat % 2 ^ (128 - block) + 2 ^ (128 - block) - 2) := by
  have hIp : cidr6GetIp element = some a := by simp [cidr6GetIp, hSep, ha]
  simp only [cidr6BlockIps, hBlock, hIp]
  by_cases hHost : block = 128
  · refine ⟨a, a, if_pos hHost, ?_⟩
    simp [hHost, Nat.mod_one]
  · have hBlockLt : 0 < block ∧ block < 128 := by omega
    have hBytes : (128 - block) / 8 < 16 := by omega
    obtain ⟨hFirst, hLast⟩ := prefix_toNat a hBytes
    have hRoom := Bytes.sub_mod_add_le (k := 128 - block) a.toNat_lt (by omega)
    rw [if_neg hHost, dif_pos hBlockLt]
    by_cases hPair : block = 127
    · refine ⟨_, _, if_pos hPair, ?_⟩
      rw [hFirst, hLast]
      simp [hPair]
    · have hFour : 2 ^ 2 ≤ 2 ^ (128 - block) := Nat.pow_le_pow_right (by decide) (by omega)
      refine ⟨_, _, if_neg hPair, ?_⟩
      rw [In6Addr.toNat_next, In6Addr.toNat_previous (by rw [hLast]; omega), hFirst, hLast,
        if_neg (by omega)]
      generalize a.toNat - a.toNat % 2 ^ (128 - block) = network at *
      rw [Nat.mod_eq_of_lt (by omega)]
      congr 1
      omega

theorem cidr6BlockIps_exact {element : CString}
    (hType : determineHostType element = some .cidr6Block) (hShort : ¬ OverlongPrefix element) :
    ∃ first last, cidr6BlockIps element = .range first last ∧
      writtenRange6 .cidr6Block element = some (first.toNat, last.toNat) := by
  obtain ⟨addr, number, a, hSep, ha, hLow, hHigh, hBlock⟩ := cidr6GetBlock_of_accepted hType
  have hLength : number.length ≤ 3 := by
    by_contra hLong
    exact hShort ⟨addr, number, hSep, .inr ⟨hType, by omega⟩⟩
  rw [List.take_of_length_le hLength] at hBlock
  obtain ⟨first, last, hIps, hRange⟩ := cidr6BlockIps_of_block hSep ha hBlock hLow hHigh
  refine ⟨first, last, hIps, ?_⟩
  rw [hRange]
  simp only [writtenRange6, hSep, ha, Option.bind_eq_bind, Option.bind_some]
  split <;> rfl

/-! The address loops. -/

@[simp]
theorem exceeds_zero (hosts : OpenvasHosts) : hosts.exceeds 0 = false := by
  simp [OpenvasHosts.exceeds]

/-- Addresses as numbers below a limit, at which counting up wraps around. -/
structure AddressOrder {α : Type} (next : α → α) (notAfter : α → α → Bool) (toNat : α → Nat)
    (limit : Nat) : Prop where
  lt (a : α) : toNat a < limit
  next_eq (a : α) : toNat (next a) = (toNat a + 1) % limit
  notAfter_iff (a b : α) : notAfter a b = true ↔ toNat a ≤ toNat b

theorem addressOrder4 :
    AddressOrder (· + 1) (fun a b : UInt32 => decide (a ≤ b)) UInt32.toNat (2 ^ 32) where
  lt := UInt32.toNat_lt
  next_eq a := UInt32.toNat_add a 1
  notAfter_iff a b := by rw [decide_eq_true_eq, UInt32.le_iff_toNat_le]

theorem addressOrder6 : AddressOrder In6Addr.next In6Addr.notAfter In6Addr.toNat (2 ^ 128) where
  lt := In6Addr.toNat_lt
  next_eq := In6Addr.toNat_next
  notAfter_iff := In6Addr.notAfter_iff

section AddressLoop

variable {α : Type} {next : α → α} {notAfter : α → α → Bool} {host : α → OpenvasHost}
  {toNat : α → Nat} {limit : Nat}

/-- A loop up to the highest address does not end. -/
theorem addAddresses_running (order : AddressOrder next notAfter toNat limit) {last : α}
    (hLast : toNat last + 1 = limit) (fuel : Nat) (current : α) (hosts : OpenvasHosts) :
    addAddresses next notAfter host 0 fuel current last hosts = .error .running := by
  induction fuel generalizing current hosts with
  | zero => rfl
  | succ fuel ih =>
      have hIn : notAfter current last = true := by
        have hLt := order.lt current
        rw [order.notAfter_iff]
        omega
      simp [addAddresses, hIn, ih]

/-- A loop that ends adds the addresses from the first to the last in order. -/
theorem addAddresses_ok (order : AddressOrder next notAfter toNat limit) {fuel : Nat}
    {current last : α} {hosts : OpenvasHosts} {result : Option OpenvasHosts}
    (h : addAddresses next notAfter host 0 fuel current last hosts = .ok result) :
    ∃ added : List α, ∃ after, result = some after ∧
      after.hosts = (added.map host).reverse ++ hosts.hosts ∧
      added.map toNat = List.range' (toNat current) (toNat last + 1 - toNat current) := by
  by_cases hLast : toNat last + 1 = limit
  · rw [addAddresses_running order hLast] at h
    simp at h
  · have hBelow : toNat last + 1 < limit := by
      have hLt := order.lt last
      omega
    induction fuel generalizing current hosts with
    | zero => simp [addAddresses] at h
    | succ fuel ih =>
        rw [addAddresses] at h
        split at h
        · rename_i hIn
          rw [order.notAfter_iff] at hIn
          simp only [exceeds_zero, Bool.false_eq_true, if_false] at h
          obtain ⟨added, after, hResult, hHosts, hNumbers⟩ := ih h
          have hNext : toNat (next current) = toNat current + 1 := by
            rw [order.next_eq, Nat.mod_eq_of_lt (by omega)]
          refine ⟨current :: added, after, hResult, ?_, ?_⟩
          · simpa [OpenvasHosts.prepend] using hHosts
          · have hCount : toNat last + 1 - toNat current = toNat last + 1 - (toNat current + 1) + 1 := by
              omega
            rw [List.map_cons, hNumbers, hNext, hCount, List.range'_succ]
        · rename_i hOut
          rw [order.notAfter_iff] at hOut
          refine ⟨[], hosts, by simpa using h.symm, by simp, ?_⟩
          have hCount : toNat last + 1 - toNat current = 0 := by omega
          simp [hCount]

theorem addIps_ok (order : AddressOrder next notAfter toNat limit) {fuel : Nat} {first last : α}
    {hosts : OpenvasHosts} {result : Option OpenvasHosts}
    (h : addIps next notAfter host 0 fuel (.range first last) hosts = .ok result) :
    ∃ added : List α, ∃ after, result = some after ∧
      after.hosts = (added.map host).reverse ++ hosts.hosts ∧
      added.map toNat = List.range' (toNat first) (toNat last + 1 - toNat first) := by
  rw [addIps] at h
  split at h
  · exact addAddresses_ok order h
  · rename_i hOut
    rw [order.notAfter_iff] at hOut
    have hCount : toNat last + 1 - toNat first = 0 := by omega
    exact ⟨[], hosts, by simpa using h.symm, by simp, by simp [hCount]⟩

/-- The numbers of an interval are those between its ends. -/
theorem mem_added {added : List α} {first last : Nat}
    (hNumbers : added.map toNat = List.range' first (last + 1 - first))
    (hInjective : ∀ a b, toNat a = toNat b → a = b) (a : α) :
    a ∈ added ↔ first ≤ toNat a ∧ toNat a ≤ last := by
  have hMem : a ∈ added ↔ toNat a ∈ added.map toNat := by
    rw [List.mem_map]
    exact ⟨fun ha => ⟨a, ha, rfl⟩, fun ⟨b, hb, hEq⟩ => hInjective b a hEq ▸ hb⟩
  rw [hMem, hNumbers, List.mem_range'_1]
  omega

end AddressLoop

theorem standsFor_iff {element : CString} {type : HostType}
    (hType : determineHostType element = some type) (host : OpenvasHost) :
    StandsFor element host ↔ match host with
      | .name name => type = .name ∧ name = element
      | .ipv4 a => ∃ range ∈ writtenRange4 type element, range.1 ≤ a.toNat ∧ a.toNat ≤ range.2
      | .ipv6 a => ∃ range ∈ writtenRange6 type element, range.1 ≤ a.toNat ∧ a.toNat ≤ range.2 := by
  constructor
  · rintro ⟨type', hType', h⟩
    obtain rfl : type = type' := Option.some.inj (hType.symm.trans hType')
    exact h
  · exact fun h => ⟨type, hType, h⟩

/-! What is read of an element. -/

/-- Of a prefix length without too many digits all of them are read. -/
theorem asRead_of_short {element : CString} {type : HostType}
    (hType : determineHostType element = some type) (hShort : ¬ OverlongPrefix element) :
    asRead type element = element := by
  have hWidth (width : Nat) (h : ∀ addr number, separate element (ch '/') = some (addr, number) →
      number.length ≤ width) : readPrefix width element = element := by
    rw [readPrefix]
    split
    · rename_i addr number hSep
      rw [List.take_of_length_le (h addr number hSep)]
      exact (separate_spec hSep).1.symm
    · rfl
  cases type with
  | cidrBlock =>
      refine hWidth 2 fun addr number hSep => ?_
      by_contra hLong
      exact hShort ⟨addr, number, hSep, .inl ⟨hType, by omega⟩⟩
  | cidr6Block =>
      refine hWidth 3 fun addr number hSep => ?_
      by_contra hLong
      exact hShort ⟨addr, number, hSep, .inr ⟨hType, by omega⟩⟩
  | _ => rfl

theorem readAs_iff {element : CString} {type : HostType}
    (hType : determineHostType element = some type) (host : OpenvasHost) :
    ReadAs element host ↔ match host with
      | .name name => type = .name ∧ name = element
      | .ipv4 a =>
          ∃ range ∈ writtenRange4 type (asRead type element), range.1 ≤ a.toNat ∧ a.toNat ≤ range.2
      | .ipv6 a =>
          ∃ range ∈ writtenRange6 type (asRead type element),
            range.1 ≤ a.toNat ∧ a.toNat ≤ range.2 := by
  constructor
  · rintro ⟨type', hType', h⟩
    obtain rfl : type = type' := Option.some.inj (hType.symm.trans hType')
    exact h
  · exact fun h => ⟨type, hType, h⟩

theorem readAs_iff_standsFor {element : CString} {type : HostType}
    (hType : determineHostType element = some type) (hShort : ¬ OverlongPrefix element)
    (host : OpenvasHost) : ReadAs element host ↔ StandsFor element host := by
  rw [readAs_iff hType, standsFor_iff hType, asRead_of_short hType hShort]

/-- The addresses of an IPv4 block are those of the block that is read. -/
theorem cidrBlockIps_read {element : CString}
    (hType : determineHostType element = some .cidrBlock) :
    cidrBlockIps element = .undefined ∨ ∃ first last, cidrBlockIps element = .range first last ∧
      writtenRange4 .cidrBlock (asRead .cidrBlock element) = some (first.toNat, last.toNat) := by
  obtain ⟨addr, number, a, hSep, ha, _, hHigh, hBlock⟩ := cidrGetBlock_of_accepted hType
  have hRead := digitsValue_take_le number 2
  by_cases hZero : digitsValue (number.take 2) = 0
  · left
    simp [cidrBlockIps, hBlock, hZero, cidrGetIp, hSep, ha]
  · obtain ⟨first, last, hIps, hFirst, hLast⟩ :=
      cidrBlockIps_of_block hSep ha hBlock (by omega) (by omega)
    refine .inr ⟨first, last, hIps, ?_⟩
    simp only [asRead, writtenRange4, readPrefix_of_separate 2 hSep, ha, Option.bind_eq_bind,
      Option.bind_some, hFirst, hLast]

theorem cidr6BlockIps_read {element : CString}
    (hType : determineHostType element = some .cidr6Block) :
    cidr6BlockIps element = .undefined ∨ ∃ first last, cidr6BlockIps element = .range first last ∧
      writtenRange6 .cidr6Block (asRead .cidr6Block element) = some (first.toNat, last.toNat) := by
  obtain ⟨addr, number, a, hSep, ha, _, hHigh, hBlock⟩ := cidr6GetBlock_of_accepted hType
  have hRead := digitsValue_take_le number 3
  by_cases hZero : digitsValue (number.take 3) = 0
  · left
    simp [cidr6BlockIps, hBlock, hZero, cidr6GetIp, hSep, ha]
  · obtain ⟨first, last, hIps, hRange⟩ :=
      cidr6BlockIps_of_block hSep ha hBlock (by omega) (by omega)
    refine .inr ⟨first, last, hIps, ?_⟩
    rw [hRange]
    simp only [asRead, writtenRange6, readPrefix_of_separate 3 hSep, ha, Option.bind_eq_bind,
      Option.bind_some]
    split <;> rfl

/-! Elements and collections. -/

/-- What an element adds to a collection: a list of the hosts it is read as. -/
def Adds (element : CString) (hosts after : OpenvasHosts) : Prop :=
  ∃ added, after.hosts = added ++ hosts.hosts ∧ ∀ host, host ∈ added ↔ ReadAs element host

theorem adds_single {element : CString} {host : OpenvasHost} {hosts : OpenvasHosts}
    (h : ∀ host', host' = host ↔ ReadAs element host') :
    Adds element hosts (hosts.prepend host) :=
  ⟨[host], rfl, fun host' => by rw [List.mem_singleton]; exact h host'⟩

theorem adds_range4 {element : CString} {type : HostType} {fuel : Nat} {first last : UInt32}
    {hosts : OpenvasHosts} {result : Option OpenvasHosts}
    (hType : determineHostType element = some type) (hName : type ≠ .name)
    (hRange : writtenRange4 type (asRead type element) = some (first.toNat, last.toNat))
    (hOther : writtenRange6 type (asRead type element) = none)
    (h : addIps4 0 fuel (.range first last) hosts = .ok result) :
    ∃ after, result = some after ∧ Adds element hosts after := by
  obtain ⟨added, after, hResult, hHosts, hNumbers⟩ := addIps_ok addressOrder4 h
  refine ⟨after, hResult, (added.map .ipv4).reverse, hHosts, fun host => ?_⟩
  rw [readAs_iff hType]
  have hMem := mem_added hNumbers fun a b => UInt32.toNat_inj.mp
  cases host with
  | name name => simp [hName]
  | ipv4 a => simp [hRange, hMem]
  | ipv6 a => simp [hOther]

theorem adds_range6 {element : CString} {type : HostType} {fuel : Nat} {first last : In6Addr}
    {hosts : OpenvasHosts} {result : Option OpenvasHosts}
    (hType : determineHostType element = some type) (hName : type ≠ .name)
    (hRange : writtenRange6 type (asRead type element) = some (first.toNat, last.toNat))
    (hOther : writtenRange4 type (asRead type element) = none)
    (h : addIps6 0 fuel (.range first last) hosts = .ok result) :
    ∃ after, result = some after ∧ Adds element hosts after := by
  obtain ⟨added, after, hResult, hHosts, hNumbers⟩ := addIps_ok addressOrder6 h
  refine ⟨after, hResult, (added.map .ipv6).reverse, hHosts, fun host => ?_⟩
  rw [readAs_iff hType]
  have hMem := mem_added hNumbers fun a b => In6Addr.toNat_injective
  cases host with
  | name name => simp [hName]
  | ipv4 a => simp [hOther]
  | ipv6 a => simp [hRange, hMem]

/-- An accepted element adds what it is read as. -/
theorem addElement_ok {element : CString} {type : HostType} {fuel : Nat} {hosts : OpenvasHosts}
    {result : Option OpenvasHosts} (hType : determineHostType element = some type)
    (h : addElement 0 fuel element hosts = .ok result) :
    ∃ after, result = some after ∧ Adds element hosts after := by
  rw [addElement, hType] at h
  cases type with
  | name =>
      refine ⟨_, (Except.ok.inj h).symm, adds_single fun host => ?_⟩
      rw [readAs_iff hType]
      cases host <;> simp [writtenRange4, writtenRange6]
  | ipv4 =>
      obtain ⟨a, ha⟩ := Option.isSome_iff_exists.mp (check_of_determineHostType hType)
      refine ⟨_, (Except.ok.inj h).symm, adds_single fun host => ?_⟩
      rw [readAs_iff hType]
      cases host with
      | name name => simp
      | ipv4 b =>
          simp only [asRead, writtenRange4, ha, Option.getD_some, OpenvasHost.ipv4.injEq]
          simp [← UInt32.toNat_inj, Nat.le_antisymm_iff, and_comm]
      | ipv6 b => simp [writtenRange6]
  | ipv6 =>
      obtain ⟨a, ha⟩ := Option.isSome_iff_exists.mp (check_of_determineHostType hType)
      refine ⟨_, (Except.ok.inj h).symm, adds_single fun host => ?_⟩
      rw [readAs_iff hType]
      cases host with
      | name name => simp
      | ipv4 b => simp [writtenRange4]
      | ipv6 b =>
          simp only [asRead, writtenRange6, ha, Option.getD_some, OpenvasHost.ipv6.injEq]
          constructor
          · rintro rfl
            simp
          · rintro ⟨range, hRange, hLow, hHigh⟩
            obtain rfl : (a.toNat, a.toNat) = range := by simpa using hRange
            exact In6Addr.toNat_injective (Nat.le_antisymm hHigh hLow)
  | cidrBlock =>
      rcases cidrBlockIps_read hType with hUndefined | ⟨first, last, hIps, hRange⟩
      · simp [hUndefined, addIps4, addIps] at h
      · exact adds_range4 hType (by decide) hRange rfl (hIps ▸ h)
  | rangeShort =>
      obtain ⟨first, last, hIps, hRange⟩ := shortRangeNetworkIps_exact hType
      exact adds_range4 hType (by decide) hRange rfl (hIps ▸ h)
  | rangeLong =>
      obtain ⟨first, last, hIps, hRange⟩ := longRangeNetworkIps_exact hType
      exact adds_range4 hType (by decide) hRange rfl (hIps ▸ h)
  | cidr6Block =>
      rcases cidr6BlockIps_read hType with hUndefined | ⟨first, last, hIps, hRange⟩
      · simp [hUndefined, addIps6, addIps] at h
      · exact adds_range6 hType (by decide) hRange rfl (hIps ▸ h)
  | range6Short =>
      obtain ⟨first, last, hIps, hRange⟩ := shortRange6NetworkIps_exact hType
      exact adds_range6 hType (by decide) hRange rfl (hIps ▸ h)
  | range6Long =>
      obtain ⟨first, last, hIps, hRange⟩ := longRange6NetworkIps_exact hType
      exact adds_range6 hType (by decide) hRange rfl (hIps ▸ h)

end Hosts
