import OpenVAS.Hosts.Membership

/-! Which hosts strings `openvas_hosts_new` returns for. The address loops count
past their last address, so that a block or range up to the highest address
never ends; and a prefix length that is read as 0 has no defined expansion. -/
namespace Hosts

open CString Inet

/-- A block or range whose last address is the highest one. A prefix length of
which only a part is read is another matter. -/
def EndsAtHighest (element : CString) : Prop :=
  ¬ OverlongPrefix element ∧
    ∃ type, determineHostType element = some type ∧ type ≠ .ipv4 ∧ type ≠ .ipv6 ∧
      ∃ first, writtenRange4 type element = some (first, 2 ^ 32 - 1) ∨
        writtenRange6 type element = some (first, 2 ^ 128 - 1)

/-- A block whose prefix length starts with as many zeros as are read of it. -/
def ZeroPrefix (element : CString) : Prop :=
  ∃ addr number, separate element (ch '/') = some (addr, number) ∧
    ((determineHostType element = some .cidrBlock ∧ 2 < number.length ∧
        digitsValue (number.take 2) = 0) ∨
      (determineHostType element = some .cidr6Block ∧ 3 < number.length ∧
        digitsValue (number.take 3) = 0))

/-- The elements in front of the first one that is no host, block or range. -/
def reachedElements (hostsStr : CString) : List CString :=
  (hostElements hostsStr).takeWhile fun element => (determineHostType element).isSome

/-- Steps that are enough for every loop that ends. -/
def enoughFuel : Nat := 2 ^ 128 + 1

section AddressLoop

variable {α : Type} {next : α → α} {notAfter : α → α → Bool} {host : α → OpenvasHost}
  {toNat : α → Nat} {limit : Nat}

/-- A loop up to an address below the highest one ends after counting to it. -/
theorem addAddresses_ends (order : AddressOrder next notAfter toNat limit) {last : α}
    (hLast : toNat last + 1 < limit) {fuel : Nat} {current : α}
    (hFuel : toNat last + 1 - toNat current < fuel) (hosts : OpenvasHosts) :
    ∃ after, addAddresses next notAfter host 0 fuel current last hosts = .ok (some after) := by
  induction fuel generalizing current hosts with
  | zero => omega
  | succ fuel ih =>
      rw [addAddresses]
      split
      · rename_i hIn
        rw [order.notAfter_iff] at hIn
        have hNext : toNat (next current) = toNat current + 1 := by
          rw [order.next_eq, Nat.mod_eq_of_lt (by omega)]
        simp only [exceeds_zero, Bool.false_eq_true, if_false]
        exact ih (by omega) _
      · exact ⟨hosts, rfl⟩

theorem addIps_ends (order : AddressOrder next notAfter toNat limit) {first last : α}
    (hLast : toNat last + 1 < limit) {fuel : Nat} (hFuel : limit ≤ fuel) (hosts : OpenvasHosts) :
    ∃ after, addIps next notAfter host 0 fuel (.range first last) hosts = .ok (some after) := by
  rw [addIps]
  split
  · exact addAddresses_ends order hLast (by omega) hosts
  · exact ⟨hosts, rfl⟩

theorem addIps_running (order : AddressOrder next notAfter toNat limit) {first last : α}
    (hLast : toNat last + 1 = limit) (fuel : Nat) (hosts : OpenvasHosts) :
    addIps next notAfter host 0 fuel (.range first last) hosts = .error .running := by
  have hIn : notAfter first last = true := by
    have hLt := order.lt first
    rw [order.notAfter_iff]
    omega
  rw [addIps, if_pos hIn, addAddresses_running order hLast]

/-- Without a maximum the loop does not give up. -/
theorem addIps_ne_none {fuel : Nat} {ips : Ips α} {hosts : OpenvasHosts} :
    addIps next notAfter host 0 fuel ips hosts ≠ .ok none := by
  have hLoop : ∀ (fuel : Nat) (current last : α) (hosts : OpenvasHosts),
      addAddresses next notAfter host 0 fuel current last hosts ≠ .ok none := by
    intro fuel
    induction fuel with
    | zero => simp [addAddresses]
    | succ fuel ih =>
        intro current last hosts
        rw [addAddresses]
        split
        · simpa using ih _ _ _
        · simp
  cases ips with
  | failed => simp [addIps]
  | undefined => simp [addIps]
  | range first last =>
      rw [addIps]
      split
      · exact hLoop fuel first last hosts
      · simp

/-- A range is left undefined by no number of steps. -/
theorem addIps_range_ne_undefined {fuel : Nat} {first last : α} {hosts : OpenvasHosts} :
    addIps next notAfter host 0 fuel (.range first last) hosts ≠ .error .undefined := by
  have hLoop : ∀ (fuel : Nat) (current last : α) (hosts : OpenvasHosts),
      addAddresses next notAfter host 0 fuel current last hosts ≠ .error .undefined := by
    intro fuel
    induction fuel with
    | zero => simp [addAddresses]
    | succ fuel ih =>
        intro current last hosts
        rw [addAddresses]
        split
        · simpa using ih _ _ _
        · simp
  rw [addIps]
  split
  · exact hLoop fuel first last hosts
  · simp

/-- More steps than are needed change nothing. -/
theorem addAddresses_mono {fuel fuel' : Nat} (hLe : fuel ≤ fuel') {current last : α}
    {hosts : OpenvasHosts} {result : Option OpenvasHosts}
    (hOk : addAddresses next notAfter host 0 fuel current last hosts = .ok result) :
    addAddresses next notAfter host 0 fuel' current last hosts = .ok result := by
  induction fuel generalizing fuel' current hosts with
  | zero => simp [addAddresses] at hOk
  | succ fuel ih =>
      obtain ⟨fuel', rfl⟩ := Nat.exists_eq_add_one_of_ne_zero (Nat.ne_of_gt (Nat.lt_of_lt_of_le (Nat.succ_pos fuel) hLe))
      rw [addAddresses] at hOk ⊢
      split
      · rename_i hIn
        simp only [hIn, if_true, exceeds_zero, Bool.false_eq_true, if_false] at hOk ⊢
        exact ih (Nat.le_of_succ_le_succ hLe) hOk
      · rename_i hOut
        rwa [if_neg hOut] at hOk

theorem addIps_mono {fuel fuel' : Nat} (hLe : fuel ≤ fuel') {ips : Ips α} {hosts : OpenvasHosts}
    {result : Option OpenvasHosts} (hOk : addIps next notAfter host 0 fuel ips hosts = .ok result) :
    addIps next notAfter host 0 fuel' ips hosts = .ok result := by
  cases ips with
  | failed => exact hOk
  | undefined => exact hOk
  | range first last =>
      rw [addIps] at hOk ⊢
      split
      · rename_i hIn
        rw [if_pos hIn] at hOk
        exact addAddresses_mono hLe hOk
      · rename_i hOut
        rwa [if_neg hOut] at hOk

/-- The expansion of the element comes to an end. -/
def Ends (element : CString) : Prop :=
  ∀ fuel, enoughFuel ≤ fuel → ∀ hosts, ∃ after, addElement 0 fuel element hosts = .ok (some after)

/-- The expansion of the element has no result, however many steps it is given. -/
def Hangs (element : CString) : Prop :=
  ∀ fuel hosts result, addElement 0 fuel element hosts ≠ .ok result

theorem hangs_or_ends (order : AddressOrder next notAfter toNat limit) (hLimit : limit ≤ 2 ^ 128)
    {element : CString} {first last : α}
    (hAdd : ∀ fuel hosts, addElement 0 fuel element hosts =
      addIps next notAfter host 0 fuel (.range first last) hosts) :
    toNat last + 1 = limit ∧ Hangs element ∨ toNat last + 1 ≠ limit ∧ Ends element := by
  by_cases hLast : toNat last + 1 = limit
  · refine .inl ⟨hLast, fun fuel hosts result hOk => ?_⟩
    rw [hAdd, addIps_running order hLast] at hOk
    simp at hOk
  · refine .inr ⟨hLast, fun fuel hFuel hosts => ?_⟩
    have hLt := order.lt last
    rw [hAdd]
    exact addIps_ends order (by omega) (by unfold enoughFuel at hFuel; omega) hosts

end AddressLoop

/-- The elements that keep `openvas_hosts_new` from returning. -/
def Endless (element : CString) : Prop := EndsAtHighest element ∨ ZeroPrefix element

/-- Only blocks have prefix lengths. -/
theorem not_overlongPrefix {element : CString} {type : HostType}
    (hType : determineHostType element = some type) (hBlock : type ≠ .cidrBlock)
    (hBlock6 : type ≠ .cidr6Block) : ¬ OverlongPrefix element := by
  rintro ⟨addr, number, _, ⟨hOther, _⟩ | ⟨hOther, _⟩⟩
  · exact hBlock (Option.some.inj (hType.symm.trans hOther))
  · exact hBlock6 (Option.some.inj (hType.symm.trans hOther))

theorem overlongPrefix_of_zeroPrefix {element : CString} (h : ZeroPrefix element) :
    OverlongPrefix element := by
  obtain ⟨addr, number, hSep, ⟨hType, hLong, _⟩ | ⟨hType, hLong, _⟩⟩ := h
  · exact ⟨addr, number, hSep, .inl ⟨hType, hLong⟩⟩
  · exact ⟨addr, number, hSep, .inr ⟨hType, hLong⟩⟩

theorem endless_iff {element : CString} {type : HostType}
    (hType : determineHostType element = some type) (hSingle : type ≠ .ipv4)
    (hSingle6 : type ≠ .ipv6) (hShort : ¬ OverlongPrefix element) :
    Endless element ↔ ∃ first, writtenRange4 type element = some (first, 2 ^ 32 - 1) ∨
      writtenRange6 type element = some (first, 2 ^ 128 - 1) := by
  constructor
  · rintro (⟨_, type', hType', _, _, hHighest⟩ | hZero)
    · obtain rfl := Option.some.inj (hType.symm.trans hType')
      exact hHighest
    · exact absurd (overlongPrefix_of_zeroPrefix hZero) hShort
  · intro hHighest
    exact .inl ⟨hShort, type, hType, hSingle, hSingle6, hHighest⟩

theorem settled_range4 {element : CString} {type : HostType} {first last : UInt32}
    (hType : determineHostType element = some type) (hSingle : type ≠ .ipv4)
    (hShort : ¬ OverlongPrefix element)
    (hRange : writtenRange4 type element = some (first.toNat, last.toNat))
    (hAdd : ∀ fuel hosts, addElement 0 fuel element hosts = addIps4 0 fuel (.range first last) hosts) :
    Endless element ∧ Hangs element ∨ ¬ Endless element ∧ Ends element := by
  have hSingle6 : type ≠ .ipv6 := by
    rintro rfl
    simp [writtenRange4] at hRange
  have hOther : writtenRange6 type element = none := by
    cases type <;> simp_all [writtenRange4, writtenRange6]
  have hTop : Endless element ↔ last.toNat + 1 = 2 ^ 32 := by
    rw [endless_iff hType hSingle hSingle6 hShort, hRange, hOther]
    simp only [Option.some.injEq, Prod.mk.injEq, reduceCtorEq, or_false, exists_eq_left']
    omega
  rw [hTop]
  exact hangs_or_ends addressOrder4 (by decide) hAdd

theorem settled_range6 {element : CString} {type : HostType} {first last : In6Addr}
    (hType : determineHostType element = some type) (hSingle6 : type ≠ .ipv6)
    (hShort : ¬ OverlongPrefix element)
    (hRange : writtenRange6 type element = some (first.toNat, last.toNat))
    (hAdd : ∀ fuel hosts, addElement 0 fuel element hosts = addIps6 0 fuel (.range first last) hosts) :
    Endless element ∧ Hangs element ∨ ¬ Endless element ∧ Ends element := by
  have hSingle : type ≠ .ipv4 := by
    rintro rfl
    simp [writtenRange6] at hRange
  have hOther : writtenRange4 type element = none := by
    cases type <;> simp_all [writtenRange4, writtenRange6]
  have hTop : Endless element ↔ last.toNat + 1 = 2 ^ 128 := by
    rw [endless_iff hType hSingle hSingle6 hShort, hRange, hOther]
    simp only [Option.some.injEq, Prod.mk.injEq, reduceCtorEq, false_or, exists_eq_left']
    omega
  rw [hTop]
  exact hangs_or_ends addressOrder6 (by decide) hAdd

/-- Of an over-long prefix length only a tenth, or less, is read. -/
theorem overlong_value {number : CString} {width : Nat} (h : width < number.length) :
    10 * digitsValue (number.take width) ≤ digitsValue number := by
  conv_rhs => rw [← List.take_append_drop width number, digitsValue_append]
  have hTen : 10 ^ 1 ≤ 10 ^ (number.drop width).length :=
    Nat.pow_le_pow_right (by decide) (by rw [List.length_drop]; omega)
  have hMul := Nat.mul_le_mul_left (digitsValue (number.take width)) hTen
  omega

/-- What an over-long prefix length of an IPv4 block is read as. -/
theorem cidrBlockIps_overlong {element : CString}
    (hType : determineHostType element = some .cidrBlock) (hLong : OverlongPrefix element) :
    ZeroPrefix element ∧ cidrBlockIps element = .undefined ∨
      ¬ ZeroPrefix element ∧ ∃ addr number a block first last,
        separate element (ch '/') = some (addr, number) ∧ inetPton4 addr = some a ∧
        1 ≤ block ∧ 10 * block ≤ digitsValue number ∧ digitsValue number ≤ 30 ∧
        cidrBlockIps element = .range first last ∧
        first.toNat = a.toNat - a.toNat % 2 ^ (32 - block) + 1 ∧
        last.toNat = a.toNat - a.toNat % 2 ^ (32 - block) + 2 ^ (32 - block) - 2 := by
  obtain ⟨addr, number, a, hSep, ha, hLow, hHigh, hBlock⟩ := cidrGetBlock_of_accepted hType
  obtain ⟨addr', number', hSep', hCase⟩ := hLong
  obtain ⟨rfl, rfl⟩ := Prod.mk.inj (Option.some.inj (hSep.symm.trans hSep'))
  simp only [hType, Option.some.injEq, reduceCtorEq, false_and, or_false, true_and] at hCase
  have hTenth := overlong_value hCase
  by_cases hZero : digitsValue (number.take 2) = 0
  · refine .inl ⟨⟨addr, number, hSep, .inl ⟨hType, hCase, hZero⟩⟩, ?_⟩
    simp [cidrBlockIps, hBlock, hZero, cidrGetIp, hSep, ha]
  · obtain ⟨first, last, hIps, hFirst, hLast⟩ :=
      cidrBlockIps_of_block hSep ha hBlock (by omega) (by omega)
    refine .inr ⟨?_, addr, number, a, _, first, last, hSep, ha, by omega, hTenth, hHigh, hIps,
      hFirst, hLast⟩
    rintro ⟨addr'', number'', hSep'', ⟨_, _, hNone⟩ | ⟨hOther, _⟩⟩
    · obtain ⟨rfl, rfl⟩ := Prod.mk.inj (Option.some.inj (hSep.symm.trans hSep''))
      exact hZero hNone
    · simp [hType] at hOther

/-- What an over-long prefix length of an IPv6 block is read as. -/
theorem cidr6BlockIps_overlong {element : CString}
    (hType : determineHostType element = some .cidr6Block) (hLong : OverlongPrefix element) :
    ZeroPrefix element ∧ cidr6BlockIps element = .undefined ∨
      ¬ ZeroPrefix element ∧ ∃ addr number a block first last,
        separate element (ch '/') = some (addr, number) ∧ inetPton6 addr = some a ∧
        1 ≤ block ∧ 10 * block ≤ digitsValue number ∧ digitsValue number ≤ 128 ∧
        cidr6BlockIps element = .range first last ∧
        first.toNat = a.toNat - a.toNat % 2 ^ (128 - block) + 1 ∧
        last.toNat = a.toNat - a.toNat % 2 ^ (128 - block) + 2 ^ (128 - block) - 2 := by
  obtain ⟨addr, number, a, hSep, ha, hLow, hHigh, hBlock⟩ := cidr6GetBlock_of_accepted hType
  obtain ⟨addr', number', hSep', hCase⟩ := hLong
  obtain ⟨rfl, rfl⟩ := Prod.mk.inj (Option.some.inj (hSep.symm.trans hSep'))
  simp only [hType, Option.some.injEq, reduceCtorEq, false_and, false_or, true_and] at hCase
  have hTenth := overlong_value hCase
  by_cases hZero : digitsValue (number.take 3) = 0
  · refine .inl ⟨⟨addr, number, hSep, .inr ⟨hType, hCase, hZero⟩⟩, ?_⟩
    simp [cidr6BlockIps, hBlock, hZero, cidr6GetIp, hSep, ha]
  · obtain ⟨first, last, hIps, hRange⟩ :=
      cidr6BlockIps_of_block hSep ha hBlock (by omega) (by omega)
    have hFour : 2 ^ 2 ≤ 2 ^ (128 - digitsValue (number.take 3)) :=
      Nat.pow_le_pow_right (by decide) (by omega)
    rw [if_neg (by omega)] at hRange
    obtain ⟨hFirst, hLast⟩ := Prod.mk.inj hRange
    refine .inr ⟨?_, addr, number, a, _, first, last, hSep, ha, by omega, hTenth, hHigh, hIps,
      hFirst, hLast⟩
    rintro ⟨addr'', number'', hSep'', ⟨hOther, _⟩ | ⟨_, _, hNone⟩⟩
    · simp [hType] at hOther
    · obtain ⟨rfl, rfl⟩ := Prod.mk.inj (Option.some.inj (hSep.symm.trans hSep''))
      exact hZero hNone

theorem settled_overlong {element : CString} (hLong : OverlongPrefix element) :
    Endless element ∧ Hangs element ∨ ¬ Endless element ∧ Ends element := by
  have hEndless : Endless element ↔ ZeroPrefix element :=
    ⟨fun h => h.resolve_left fun hHighest => hHighest.1 hLong, .inr⟩
  rw [hEndless]
  have hType : determineHostType element = some .cidrBlock ∨
      determineHostType element = some .cidr6Block := by
    obtain ⟨_, _, _, hCase⟩ := hLong
    exact hCase.imp And.left And.left
  rcases hType with hType | hType
  · rcases cidrBlockIps_overlong hType hLong with ⟨hZero, hIps⟩ |
      ⟨hOther, addr, number, a, block, first, last, hSep, ha, hLow, hTenth, hHigh, hIps, hFirst, hLast⟩
    · refine .inl ⟨hZero, fun fuel hosts result hOk => ?_⟩
      simp [addElement, hType, hIps, addIps4, addIps] at hOk
    · have hRoom := Bytes.sub_mod_add_le (k := 32 - block) a.toNat_lt (by omega)
      have hSize : 2 ^ 2 ≤ 2 ^ (32 - block) := Nat.pow_le_pow_right (by decide) (by omega)
      have hAdd : ∀ fuel hosts, addElement 0 fuel element hosts =
          addIps4 0 fuel (.range first last) hosts := fun fuel hosts => by
        rw [addElement, hType, ← hIps]
      have hSettled := hangs_or_ends addressOrder4 (by decide) hAdd
      exact .inr ⟨hOther, (hSettled.resolve_left fun h => by omega).2⟩
  · rcases cidr6BlockIps_overlong hType hLong with ⟨hZero, hIps⟩ |
      ⟨hOther, addr, number, a, block, first, last, hSep, ha, hLow, hTenth, hHigh, hIps, hFirst, hLast⟩
    · refine .inl ⟨hZero, fun fuel hosts result hOk => ?_⟩
      simp [addElement, hType, hIps, addIps6, addIps] at hOk
    · have hRoom := Bytes.sub_mod_add_le (k := 128 - block) a.toNat_lt (by omega)
      have hSize : 2 ^ 2 ≤ 2 ^ (128 - block) := Nat.pow_le_pow_right (by decide) (by omega)
      have hAdd : ∀ fuel hosts, addElement 0 fuel element hosts =
          addIps6 0 fuel (.range first last) hosts := fun fuel hosts => by
        rw [addElement, hType, ← hIps]
      have hSettled := hangs_or_ends addressOrder6 (by decide) hAdd
      exact .inr ⟨hOther, (hSettled.resolve_left fun h => by omega).2⟩

/-- A single host is added without a loop. -/
theorem settled_single {element : CString} {type : HostType}
    (hType : determineHostType element = some type)
    (hSingle : type = .name ∨ type = .ipv4 ∨ type = .ipv6) :
    Endless element ∧ Hangs element ∨ ¬ Endless element ∧ Ends element := by
  have hShort : ¬ OverlongPrefix element :=
    not_overlongPrefix hType (by rcases hSingle with rfl | rfl | rfl <;> decide)
      (by rcases hSingle with rfl | rfl | rfl <;> decide)
  refine .inr ⟨?_, fun fuel hFuel hosts => ?_⟩
  · rintro (⟨_, type', hType', hNot, hNot6, first, hHighest⟩ | hZero)
    · obtain rfl := Option.some.inj (hType.symm.trans hType')
      rcases hSingle with rfl | rfl | rfl
      · simp [writtenRange4, writtenRange6] at hHighest
      · exact hNot rfl
      · exact hNot6 rfl
    · exact hShort (overlongPrefix_of_zeroPrefix hZero)
  · rcases hSingle with rfl | rfl | rfl
    all_goals exact ⟨_, by rw [addElement, hType]⟩

/-- The expansion of an accepted element ends, except for the endless ones. -/
theorem addElement_settled {element : CString} {type : HostType}
    (hType : determineHostType element = some type) :
    Endless element ∧ Hangs element ∨ ¬ Endless element ∧ Ends element := by
  by_cases hLong : OverlongPrefix element
  · exact settled_overlong hLong
  · cases type with
    | name => exact settled_single hType (.inl rfl)
    | ipv4 => exact settled_single hType (.inr (.inl rfl))
    | ipv6 => exact settled_single hType (.inr (.inr rfl))
    | cidrBlock =>
        obtain ⟨first, last, hIps, hRange⟩ := cidrBlockIps_exact hType hLong
        exact settled_range4 hType (by decide) hLong hRange fun fuel hosts => by
          rw [addElement, hType, ← hIps]
    | rangeShort =>
        obtain ⟨first, last, hIps, hRange⟩ := shortRangeNetworkIps_exact hType
        exact settled_range4 hType (by decide) hLong hRange fun fuel hosts => by
          rw [addElement, hType, ← hIps]
    | rangeLong =>
        obtain ⟨first, last, hIps, hRange⟩ := longRangeNetworkIps_exact hType
        exact settled_range4 hType (by decide) hLong hRange fun fuel hosts => by
          rw [addElement, hType, ← hIps]
    | cidr6Block =>
        obtain ⟨first, last, hIps, hRange⟩ := cidr6BlockIps_exact hType hLong
        exact settled_range6 hType (by decide) hLong hRange fun fuel hosts => by
          rw [addElement, hType, ← hIps]
    | range6Short =>
        obtain ⟨first, last, hIps, hRange⟩ := shortRange6NetworkIps_exact hType
        exact settled_range6 hType (by decide) hLong hRange fun fuel hosts => by
          rw [addElement, hType, ← hIps]
    | range6Long =>
        obtain ⟨first, last, hIps, hRange⟩ := longRange6NetworkIps_exact hType
        exact settled_range6 hType (by decide) hLong hRange fun fuel hosts => by
          rw [addElement, hType, ← hIps]

theorem addElement_ne_none {element : CString} {type : HostType} {fuel : Nat} {hosts : OpenvasHosts}
    (hType : determineHostType element = some type) : addElement 0 fuel element hosts ≠ .ok none := by
  rw [addElement, hType]
  cases type with
  | name => simp
  | ipv4 => simp
  | ipv6 => simp
  | cidrBlock => exact addIps_ne_none
  | rangeShort => exact addIps_ne_none
  | rangeLong => exact addIps_ne_none
  | cidr6Block => exact addIps_ne_none
  | range6Short => exact addIps_ne_none
  | range6Long => exact addIps_ne_none

theorem addElement_mono {fuel fuel' : Nat} (hLe : fuel ≤ fuel') {element : CString}
    {hosts : OpenvasHosts} {result : Option OpenvasHosts}
    (hOk : addElement 0 fuel element hosts = .ok result) :
    addElement 0 fuel' element hosts = .ok result := by
  rw [addElement] at hOk ⊢
  cases hType : determineHostType element with
  | none => rwa [hType] at hOk
  | some type =>
      rw [hType] at hOk
      cases type with
      | name => exact hOk
      | ipv4 => exact hOk
      | ipv6 => exact hOk
      | _ => exact addIps_mono hLe hOk

theorem addElements_mono {fuel fuel' : Nat} (hLe : fuel ≤ fuel') {elements : List CString}
    {hosts : OpenvasHosts} {result : Option OpenvasHosts}
    (hOk : addElements 0 fuel elements hosts = .ok result) :
    addElements 0 fuel' elements hosts = .ok result := by
  induction elements generalizing hosts with
  | nil => exact hOk
  | cons element rest ih =>
      rw [addElements] at hOk ⊢
      obtain ⟨answer, hElement, hRest⟩ := Except.bind_eq_ok.mp hOk
      refine Except.bind_eq_ok.mpr ⟨answer, addElement_mono hLe hElement, ?_⟩
      cases answer with
      | none => exact hRest
      | some middle =>
          simp only [exceeds_zero, Bool.false_eq_true, if_false] at hRest ⊢
          exact ih hRest

theorem openvasHostsNew_mono {fuel fuel' : Nat} (hLe : fuel ≤ fuel') {hostsStr : Option CString}
    {made : Option OpenvasHosts} (hOk : openvasHostsNew fuel hostsStr = .ok made) :
    openvasHostsNew fuel' hostsStr = .ok made := by
  cases hostsStr with
  | none => exact hOk
  | some hostsStr =>
      obtain ⟨answer, hBuilt, hRest⟩ := Except.bind_eq_ok.mp hOk
      exact Except.bind_eq_ok.mpr ⟨answer, addElements_mono hLe hBuilt, hRest⟩

/-! Expansions without a defined result. -/

/-- The expansion of an accepted element is undefined exactly when its prefix length is read as 0. -/
theorem addElement_undefined_iff {element : CString} {type : HostType} {fuel : Nat}
    {hosts : OpenvasHosts} (hType : determineHostType element = some type) :
    addElement 0 fuel element hosts = .error .undefined ↔ ZeroPrefix element := by
  have hOnly (hShort : ¬ OverlongPrefix element)
      (hNot : addElement 0 fuel element hosts ≠ .error .undefined) :
      addElement 0 fuel element hosts = .error .undefined ↔ ZeroPrefix element :=
    iff_of_false hNot fun hZero => hShort (overlongPrefix_of_zeroPrefix hZero)
  cases type with
  | name => exact hOnly (not_overlongPrefix hType (by decide) (by decide)) (by simp [addElement, hType])
  | ipv4 => exact hOnly (not_overlongPrefix hType (by decide) (by decide)) (by simp [addElement, hType])
  | ipv6 => exact hOnly (not_overlongPrefix hType (by decide) (by decide)) (by simp [addElement, hType])
  | cidrBlock =>
      simp only [addElement, hType] at hOnly ⊢
      by_cases hLong : OverlongPrefix element
      · rcases cidrBlockIps_overlong hType hLong with ⟨hZero, hIps⟩ | ⟨hOther, _, _, _, _, _, _, _, _, _, _, _, hIps, _⟩
        · exact iff_of_true (by rw [hIps]; rfl) hZero
        · exact iff_of_false (hIps ▸ addIps_range_ne_undefined) hOther
      · obtain ⟨first, last, hIps, _⟩ := cidrBlockIps_exact hType hLong
        exact hOnly hLong (hIps ▸ addIps_range_ne_undefined)
  | cidr6Block =>
      simp only [addElement, hType] at hOnly ⊢
      by_cases hLong : OverlongPrefix element
      · rcases cidr6BlockIps_overlong hType hLong with ⟨hZero, hIps⟩ | ⟨hOther, _, _, _, _, _, _, _, _, _, _, _, hIps, _⟩
        · exact iff_of_true (by rw [hIps]; rfl) hZero
        · exact iff_of_false (hIps ▸ addIps_range_ne_undefined) hOther
      · obtain ⟨first, last, hIps, _⟩ := cidr6BlockIps_exact hType hLong
        exact hOnly hLong (hIps ▸ addIps_range_ne_undefined)
  | rangeShort =>
      simp only [addElement, hType] at hOnly ⊢
      obtain ⟨first, last, hIps, _⟩ := shortRangeNetworkIps_exact hType
      exact hOnly (not_overlongPrefix hType (by decide) (by decide)) (hIps ▸ addIps_range_ne_undefined)
  | rangeLong =>
      simp only [addElement, hType] at hOnly ⊢
      obtain ⟨first, last, hIps, _⟩ := longRangeNetworkIps_exact hType
      exact hOnly (not_overlongPrefix hType (by decide) (by decide)) (hIps ▸ addIps_range_ne_undefined)
  | range6Short =>
      simp only [addElement, hType] at hOnly ⊢
      obtain ⟨first, last, hIps, _⟩ := shortRange6NetworkIps_exact hType
      exact hOnly (not_overlongPrefix hType (by decide) (by decide)) (hIps ▸ addIps_range_ne_undefined)
  | range6Long =>
      simp only [addElement, hType] at hOnly ⊢
      obtain ⟨first, last, hIps, _⟩ := longRange6NetworkIps_exact hType
      exact hOnly (not_overlongPrefix hType (by decide) (by decide)) (hIps ▸ addIps_range_ne_undefined)

/-- The first of the elements whose expansion does not end is one whose prefix length is read as 0. -/
def ReachesZeroPrefix : List CString → Prop
  | [] => False
  | element :: rest => ZeroPrefix element ∨ ¬ Endless element ∧ ReachesZeroPrefix rest

theorem reachesZeroPrefix_append (front back : List CString) :
    ReachesZeroPrefix (front ++ back) ↔
      ReachesZeroPrefix front ∨ (∀ element ∈ front, ¬ Endless element) ∧ ReachesZeroPrefix back := by
  induction front with
  | nil => simp [ReachesZeroPrefix]
  | cons element rest ih =>
      rw [List.cons_append, ReachesZeroPrefix, ReachesZeroPrefix, ih, List.forall_mem_cons]
      tauto

theorem reachesZeroPrefix_of_undefined {elements : List CString} {fuel : Nat} {hosts : OpenvasHosts}
    (h : addElements 0 fuel elements hosts = .error .undefined) :
    ReachesZeroPrefix (elements.takeWhile fun element => (determineHostType element).isSome) := by
  induction elements generalizing hosts with
  | nil => simp [addElements] at h
  | cons element rest ih =>
      rw [addElements] at h
      cases hType : determineHostType element with
      | none =>
          rw [addElement, hType] at h
          cases h
      | some type =>
          simp only [List.takeWhile_cons, hType, Option.isSome_some, if_true, ReachesZeroPrefix]
          cases hElement : addElement 0 fuel element hosts with
          | error halt =>
              rw [hElement] at h
              obtain rfl : halt = .undefined := Except.error.inj h
              exact .inl ((addElement_undefined_iff hType).mp hElement)
          | ok answer =>
              have hEnds := (addElement_settled hType).resolve_left fun hHangs =>
                hHangs.2 fuel hosts answer hElement
              rw [hElement] at h
              cases answer with
              | none => cases h
              | some middle =>
                  refine .inr ⟨hEnds.1, ih (?_ : addElements 0 fuel rest middle = .error .undefined)⟩
                  simpa [bind, Except.bind] using h

theorem addElements_undefined {elements : List CString} (hosts : OpenvasHosts) {fuel : Nat}
    (hFuel : enoughFuel ≤ fuel)
    (h : ReachesZeroPrefix (elements.takeWhile fun element => (determineHostType element).isSome)) :
    addElements 0 fuel elements hosts = .error .undefined := by
  induction elements generalizing hosts with
  | nil => exact h.elim
  | cons element rest ih =>
      cases hType : determineHostType element with
      | none =>
          rw [List.takeWhile_cons, hType] at h
          exact h.elim
      | some type =>
          simp only [List.takeWhile_cons, hType, Option.isSome_some, if_true, ReachesZeroPrefix] at h
          rw [addElements]
          rcases h with hZero | ⟨hEnds, hRest⟩
          · rw [(addElement_undefined_iff hType).mpr hZero]
            rfl
          · obtain ⟨_, hEnds⟩ := (addElement_settled hType).resolve_left fun hHangs => hEnds hHangs.1
            obtain ⟨middle, hMiddle⟩ := hEnds fuel hFuel hosts
            rw [hMiddle]
            simpa [bind, Except.bind] using ih middle hRest

/-- A run over elements ends exactly when none of those it reaches is endless. -/
theorem addElements_returns_iff (elements : List CString) (hosts : OpenvasHosts) :
    (∃ fuel result, addElements 0 fuel elements hosts = .ok result) ↔
      ∀ element ∈ elements.takeWhile fun element => (determineHostType element).isSome,
        ¬ Endless element := by
  constructor
  · rintro ⟨fuel, result, hOk⟩
    induction elements generalizing hosts with
    | nil => simp
    | cons element rest ih =>
        rw [addElements] at hOk
        obtain ⟨answer, hElement, hRest⟩ := Except.bind_eq_ok.mp hOk
        rw [List.takeWhile_cons]
        split
        · rename_i hAccepted
          obtain ⟨type, hType⟩ := Option.isSome_iff_exists.mp hAccepted
          rcases addElement_settled hType with ⟨_, hHangs⟩ | ⟨hEnds, _⟩
          · exact absurd hElement (hHangs fuel hosts answer)
          · intro element' hMem
            rcases List.mem_cons.mp hMem with rfl | hLater
            · exact hEnds
            · cases answer with
              | none => exact absurd hElement (addElement_ne_none hType)
              | some middle => exact ih middle (by simpa using hRest) element' hLater
        · simp
  · intro hAll
    refine ⟨enoughFuel, ?_⟩
    induction elements generalizing hosts with
    | nil => exact ⟨some hosts, rfl⟩
    | cons element rest ih =>
        rw [List.takeWhile_cons] at hAll
        cases hType : determineHostType element with
        | none =>
            refine ⟨none, ?_⟩
            rw [addElements, addElement, hType]
            rfl
        | some type =>
            simp only [hType, Option.isSome_some, if_true] at hAll
            obtain ⟨_, hEnds⟩ := (addElement_settled hType).resolve_left fun h =>
              hAll element (by simp) h.1
            obtain ⟨middle, hMiddle⟩ := hEnds enoughFuel (Nat.le_refl _) hosts
            obtain ⟨result, hRest⟩ := ih middle fun e he => hAll e (List.mem_cons_of_mem _ he)
            refine ⟨result, ?_⟩
            rw [addElements, hMiddle]
            simpa [bind, Except.bind] using hRest

/-- Expanding a hosts string comes to an end exactly when none of the elements in front of the
first malformed one is a block or range up to the highest address, or has a prefix length that
is read as 0. -/
theorem openvasHostsNew_returns_iff (hostsStr : CString) :
    (∃ fuel result, openvasHostsNew fuel (some hostsStr) = .ok result) ↔
      ∀ element ∈ reachedElements hostsStr, ¬ EndsAtHighest element ∧ ¬ ZeroPrefix element := by
  have hBuilt : (∃ fuel result, openvasHostsNew fuel (some hostsStr) = .ok result) ↔
      ∃ fuel result, addElements 0 fuel (hostElements hostsStr) .empty = .ok result := by
    constructor
    · rintro ⟨fuel, result, hOk⟩
      obtain ⟨built, hBuilt, _⟩ := Except.bind_eq_ok.mp hOk
      exact ⟨fuel, built, hBuilt⟩
    · rintro ⟨fuel, result, hOk⟩
      cases result with
      | none => exact ⟨fuel, none, Except.bind_eq_ok.mpr ⟨none, hOk, rfl⟩⟩
      | some built => exact ⟨fuel, _, Except.bind_eq_ok.mpr ⟨some built, hOk, rfl⟩⟩
  rw [hBuilt, addElements_returns_iff]
  simp only [reachedElements, Endless, not_or]

/-! Strings that may be missing. -/

/-- The elements that an expansion reaches, if nothing stops it in front of them. -/
def expanded (hostsStr : Option CString) : List CString := (hostsStr.map reachedElements).getD []

variable {hostsStr : Option CString}

theorem openvasHostsNew_ends_iff :
    (∃ fuel made, openvasHostsNew fuel hostsStr = .ok made) ↔
      ∀ element ∈ expanded hostsStr, ¬ Endless element := by
  cases hostsStr with
  | none => exact iff_of_true ⟨0, none, rfl⟩ (by simp [expanded])
  | some hostsStr =>
      rw [openvasHostsNew_returns_iff]
      simp only [expanded, Option.map_some, Option.getD_some, Endless, not_or]

theorem reachesZeroPrefix_of_openvasHostsNew {fuel : Nat}
    (h : openvasHostsNew fuel hostsStr = .error .undefined) :
    ReachesZeroPrefix (expanded hostsStr) := by
  cases hostsStr with
  | none => cases h
  | some hostsStr =>
      cases hBuilt : addElements 0 fuel (hostElements hostsStr) .empty with
      | error halt =>
          have hBind : (addElements 0 fuel (hostElements hostsStr) .empty).bind _ =
            .error .undefined := h
          rw [hBuilt] at hBind
          obtain rfl : halt = .undefined := Except.error.inj hBind
          exact reachesZeroPrefix_of_undefined hBuilt
      | ok answer =>
          have hBind : (addElements 0 fuel (hostElements hostsStr) .empty).bind _ =
            .error .undefined := h
          rw [hBuilt] at hBind
          cases answer with
          | none => cases hBind
          | some built => cases hBind

theorem openvasHostsNew_undefined {fuel : Nat} (hFuel : enoughFuel ≤ fuel)
    (h : ReachesZeroPrefix (expanded hostsStr)) :
    openvasHostsNew fuel hostsStr = .error .undefined := by
  cases hostsStr with
  | none => exact h.elim
  | some hostsStr =>
      change (addElements 0 fuel (hostElements hostsStr) .empty).bind _ = _
      rw [addElements_undefined .empty hFuel h]
      rfl

/-- A range that ends at the highest address: the loop starts again at `0.0.0.0`. -/
theorem highest_range_never_returns :
    determineHostType (lit "255.255.255.254-255") = some .rangeShort ∧
      ∀ fuel result, openvasHostsNew fuel (some (lit "255.255.255.254-255")) ≠ .ok result := by
  have hType : determineHostType (lit "255.255.255.254-255") = some .rangeShort := by decide +kernel
  refine ⟨hType, fun fuel result hOk => ?_⟩
  have hElements : hostElements (lit "255.255.255.254-255") = [lit "255.255.255.254-255"] := by
    decide +kernel
  have hIps : shortRangeNetworkIps (lit "255.255.255.254-255") = .range 0xfffffffe 0xffffffff := by
    rfl
  obtain ⟨built, hBuilt, _⟩ := Except.bind_eq_ok.mp hOk
  rw [hElements, addElements] at hBuilt
  obtain ⟨answer, hAnswer, _⟩ := Except.bind_eq_ok.mp hBuilt
  rw [addElement, hType] at hAnswer
  simp only [hIps] at hAnswer
  rw [addIps4, addIps_running addressOrder4 rfl] at hAnswer
  simp at hAnswer

end Hosts
