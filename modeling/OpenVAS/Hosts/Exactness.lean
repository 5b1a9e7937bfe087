import OpenVAS.Hosts.Loops

/-! The addresses that a block or range adds to a collection are those of the
interval it denotes, in increasing order. A prefix length of which only a part
is read makes another interval of it, and one up to the highest address never ends. -/
namespace Hosts

open CString Inet

/-- The hosts are the addresses of the interval that an element of a form denotes, in order. -/
def IsInterval (type : HostType) (element : CString) (added : List OpenvasHost) : Prop :=
  (∃ first last, writtenRange4 type element = some (first, last) ∧
    ∃ addrs : List UInt32, added = addrs.map .ipv4 ∧
      addrs.map UInt32.toNat = List.range' first (last + 1 - first)) ∨
  (∃ first last, writtenRange6 type element = some (first, last) ∧
    ∃ addrs : List In6Addr, added = addrs.map .ipv6 ∧
      addrs.map In6Addr.toNat = List.range' first (last + 1 - first))

/-- The element's expansion ends, has a defined result, and prepends the addresses of
the denoted interval one after the other. -/
def ExpandsExactly (type : HostType) (element : CString) : Prop :=
  ∃ fuel, ∀ hosts, ∃ after added, addElement 0 fuel element hosts = .ok (some after) ∧
    after.hosts = added.reverse ++ hosts.hosts ∧ IsInterval type element added

/-- The forms that stand for more than one address. -/
def HostType.IsRange : HostType → Prop
  | .name | .ipv4 | .ipv6 => False
  | _ => True

theorem expandsExactly_range4 {element : CString} {type : HostType} {first last : UInt32}
    (hEnds : Ends element)
    (hRange : writtenRange4 type element = some (first.toNat, last.toNat))
    (hAdd : ∀ fuel hosts, addElement 0 fuel element hosts = addIps4 0 fuel (.range first last) hosts) :
    ExpandsExactly type element := by
  refine ⟨enoughFuel, fun hosts => ?_⟩
  obtain ⟨after, hOk⟩ := hEnds enoughFuel (Nat.le_refl _) hosts
  obtain ⟨addrs, after', hSame, hHosts, hNumbers⟩ := addIps_ok addressOrder4 ((hAdd _ _).symm.trans hOk)
  obtain rfl := Option.some.inj hSame
  exact ⟨after, addrs.map .ipv4, hOk, hHosts, .inl ⟨_, _, hRange, addrs, rfl, hNumbers⟩⟩

theorem expandsExactly_range6 {element : CString} {type : HostType} {first last : In6Addr}
    (hEnds : Ends element)
    (hRange : writtenRange6 type element = some (first.toNat, last.toNat))
    (hAdd : ∀ fuel hosts, addElement 0 fuel element hosts = addIps6 0 fuel (.range first last) hosts) :
    ExpandsExactly type element := by
  refine ⟨enoughFuel, fun hosts => ?_⟩
  obtain ⟨after, hOk⟩ := hEnds enoughFuel (Nat.le_refl _) hosts
  obtain ⟨addrs, after', hSame, hHosts, hNumbers⟩ := addIps_ok addressOrder6 ((hAdd _ _).symm.trans hOk)
  obtain rfl := Option.some.inj hSame
  exact ⟨after, addrs.map .ipv6, hOk, hHosts, .inr ⟨_, _, hRange, addrs, rfl, hNumbers⟩⟩

/-- A block or range whose prefix length is read in full adds its interval when it ends. -/
theorem expandsExactly_of_ends {element : CString} {type : HostType}
    (hType : determineHostType element = some type) (hForm : type.IsRange)
    (hShort : ¬ OverlongPrefix element) (hEnds : Ends element) : ExpandsExactly type element := by
  cases type with
  | name => exact hForm.elim
  | ipv4 => exact hForm.elim
  | ipv6 => exact hForm.elim
  | cidrBlock =>
      obtain ⟨first, last, hIps, hRange⟩ := cidrBlockIps_exact hType hShort
      exact expandsExactly_range4 hEnds hRange fun fuel hosts => by rw [addElement, hType, ← hIps]
  | rangeShort =>
      obtain ⟨first, last, hIps, hRange⟩ := shortRangeNetworkIps_exact hType
      exact expandsExactly_range4 hEnds hRange fun fuel hosts => by rw [addElement, hType, ← hIps]
  | rangeLong =>
      obtain ⟨first, last, hIps, hRange⟩ := longRangeNetworkIps_exact hType
      exact expandsExactly_range4 hEnds hRange fun fuel hosts => by rw [addElement, hType, ← hIps]
  | cidr6Block =>
      obtain ⟨first, last, hIps, hRange⟩ := cidr6BlockIps_exact hType hShort
      exact expandsExactly_range6 hEnds hRange fun fuel hosts => by rw [addElement, hType, ← hIps]
  | range6Short =>
      obtain ⟨first, last, hIps, hRange⟩ := shortRange6NetworkIps_exact hType
      exact expandsExactly_range6 hEnds hRange fun fuel hosts => by rw [addElement, hType, ← hIps]
  | range6Long =>
      obtain ⟨first, last, hIps, hRange⟩ := longRange6NetworkIps_exact hType
      exact expandsExactly_range6 hEnds hRange fun fuel hosts => by rw [addElement, hType, ← hIps]

/-! Over-long prefix lengths. -/

/-- How many addresses an exact expansion adds. -/
theorem length_of_expandsExactly {element : CString} {type : HostType}
    (h : ExpandsExactly type element) :
    ∃ fuel after first last, addElement 0 fuel element .empty = .ok (some after) ∧
      (writtenRange4 type element = some (first, last) ∨
        writtenRange6 type element = some (first, last)) ∧
      after.hosts.length = last + 1 - first := by
  obtain ⟨fuel, hAll⟩ := h
  obtain ⟨after, added, hOk, hHosts, hInterval⟩ := hAll .empty
  rcases hInterval with ⟨first, last, hRange, addrs, rfl, hNumbers⟩ |
    ⟨first, last, hRange, addrs, rfl, hNumbers⟩
  · refine ⟨fuel, after, first, last, hOk, .inl hRange, ?_⟩
    simpa [hHosts, OpenvasHosts.empty] using congrArg List.length hNumbers
  · refine ⟨fuel, after, first, last, hOk, .inr hRange, ?_⟩
    simpa [hHosts, OpenvasHosts.empty] using congrArg List.length hNumbers

theorem length_of_addIps {α : Type} {next : α → α} {notAfter : α → α → Bool} {host : α → OpenvasHost}
    {toNat : α → Nat} {limit : Nat} (order : AddressOrder next notAfter toNat limit) {fuel : Nat}
    {first last : α} {after : OpenvasHosts}
    (h : addIps next notAfter host 0 fuel (.range first last) .empty = .ok (some after)) :
    after.hosts.length = toNat last + 1 - toNat first := by
  obtain ⟨added, after', hSame, hHosts, hNumbers⟩ := addIps_ok order h
  obtain rfl := Option.some.inj hSame
  simpa [hHosts, OpenvasHosts.empty] using congrArg List.length hNumbers

/-- A block with a shorter prefix length holds more than twice as many addresses. -/
theorem blockSize_lt (width : Nat) {block block' : Nat} (hLow : 1 ≤ block) (hTenth : 10 * block ≤ block')
    (hHigh : block' ≤ width) : 2 ^ 9 * 2 ^ (width - block') ≤ 2 ^ (width - block) := by
  rw [← Nat.pow_add]
  exact Nat.pow_le_pow_right (by decide) (by omega)

theorem not_expandsExactly_overlong {element : CString} {type : HostType}
    (hType : determineHostType element = some type) (hLong : OverlongPrefix element) :
    ¬ ExpandsExactly type element := by
  intro hExact
  obtain ⟨fuel, after, low, high, hOk, hWritten, hCount⟩ := length_of_expandsExactly hExact
  rw [addElement, hType] at hOk
  have hForm : type = .cidrBlock ∨ type = .cidr6Block := by
    obtain ⟨_, _, _, hCase⟩ := hLong
    exact hCase.imp (fun h => Option.some.inj (hType.symm.trans h.1))
      fun h => Option.some.inj (hType.symm.trans h.1)
  rcases hForm with rfl | rfl
  · rcases cidrBlockIps_overlong hType hLong with ⟨_, hIps⟩ |
      ⟨_, addr, number, a, block, first, last, hSep, ha, hLow, hTenth, hHigh, hIps, hFirst, hLast⟩
    · simp [hIps, addIps4, addIps] at hOk
    · rw [hIps] at hOk
      have hAdded := length_of_addIps addressOrder4 hOk
      have hSize := blockSize_lt 32 hLow hTenth (by omega)
      have hPos : 0 < 2 ^ (32 - digitsValue number) := Nat.two_pow_pos _
      simp only [writtenRange4, writtenRange6, hSep, ha, Option.bind_eq_bind, Option.bind_some,
        Option.some.injEq, Prod.mk.injEq, reduceCtorEq, or_false] at hWritten
      generalize a.toNat - a.toNat % 2 ^ (32 - block) = network at *
      generalize a.toNat - a.toNat % 2 ^ (32 - digitsValue number) = network' at *
      omega
  · rcases cidr6BlockIps_overlong hType hLong with ⟨_, hIps⟩ |
      ⟨_, addr, number, a, block, first, last, hSep, ha, hLow, hTenth, hHigh, hIps, hFirst, hLast⟩
    · simp [hIps, addIps6, addIps] at hOk
    · rw [hIps] at hOk
      have hAdded := length_of_addIps addressOrder6 hOk
      have hSize := blockSize_lt 128 hLow hTenth (by omega)
      have hPos : 0 < 2 ^ (128 - digitsValue number) := Nat.two_pow_pos _
      simp only [writtenRange4, writtenRange6, hSep, ha, Option.bind_eq_bind, Option.bind_some,
        reduceCtorEq, false_or] at hWritten
      generalize a.toNat - a.toNat % 2 ^ (128 - block) = network at *
      generalize a.toNat - a.toNat % 2 ^ (128 - digitsValue number) = network' at *
      split at hWritten
      · simp only [Option.some.injEq, Prod.mk.injEq] at hWritten
        omega
      · simp only [Option.some.injEq, Prod.mk.injEq] at hWritten
        omega

/-- A block or range is expanded to exactly the interval it denotes, unless only a part of
its prefix length is read or it ends at the highest address. -/
theorem expandsExactly_iff {element : CString} {type : HostType}
    (hType : determineHostType element = some type) (hForm : type.IsRange) :
    ExpandsExactly type element ↔ ¬ OverlongPrefix element ∧ ¬ EndsAtHighest element := by
  constructor
  · intro hExact
    refine ⟨fun hLong => not_expandsExactly_overlong hType hLong hExact, fun hHighest => ?_⟩
    obtain ⟨fuel, hAll⟩ := hExact
    obtain ⟨after, _, hOk, _⟩ := hAll .empty
    rcases addElement_settled hType with ⟨_, hHangs⟩ | ⟨hEndless, _⟩
    · exact hHangs fuel .empty (some after) hOk
    · exact hEndless (.inl hHighest)
  · rintro ⟨hShort, hHighest⟩
    rcases addElement_settled hType with ⟨hEndless, _⟩ | ⟨_, hEnds⟩
    · rcases hEndless with hTop | hZero
      · exact absurd hTop hHighest
      · exact absurd (overlongPrefix_of_zeroPrefix hZero) hShort
    · exact expandsExactly_of_ends hType hForm hShort hEnds

theorem expandsExactly_short_range :
    determineHostType (lit "192.168.1.0-9") = some .rangeShort ∧
      ExpandsExactly .rangeShort (lit "192.168.1.0-9") := by
  have hType : determineHostType (lit "192.168.1.0-9") = some .rangeShort := by decide +kernel
  have hShort : ¬ OverlongPrefix (lit "192.168.1.0-9") :=
    not_overlongPrefix hType (by decide) (by decide)
  have hRange : writtenRange4 .rangeShort (lit "192.168.1.0-9") = some (0xc0a80100, 0xc0a80109) := by
    decide +kernel
  have hLower : ¬ EndsAtHighest (lit "192.168.1.0-9") := by
    rintro ⟨_, type, hType', _, _, first, hTop | hTop⟩
    · obtain rfl := Option.some.inj (hType.symm.trans hType')
      simp [hRange] at hTop
    · obtain rfl := Option.some.inj (hType.symm.trans hType')
      simp [writtenRange6] at hTop
  exact ⟨hType, (expandsExactly_iff hType trivial).mpr ⟨hShort, hLower⟩⟩

/-- `strtol` accepts the prefix length 24, and `sscanf` reads 2 of it. -/
theorem overlong_prefix_other_block :
    determineHostType (lit "10.0.0.1/024") = some .cidrBlock ∧
      writtenRange4 .cidrBlock (lit "10.0.0.1/024") = some (0x0a000001, 0x0a0000fe) ∧
      cidrBlockIps (lit "10.0.0.1/024") = .range 0x00000001 0x3ffffffe ∧
      ¬ ExpandsExactly .cidrBlock (lit "10.0.0.1/024") := by
  have hType : determineHostType (lit "10.0.0.1/024") = some .cidrBlock := by decide +kernel
  refine ⟨hType, by decide +kernel, rfl, not_expandsExactly_overlong hType ?_⟩
  exact ⟨lit "10.0.0.1", lit "024", by decide +kernel, .inl ⟨hType, by decide⟩⟩

end Hosts
