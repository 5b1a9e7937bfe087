import OpenVAS.Hosts.Expansion
import OpenVAS.Lib.Results

/-! A host is in a collection made from a hosts string exactly when one of the
written elements denotes it. Comparison by printed text and comparison by
address agree on the hosts that such collections hold. -/
namespace Hosts

open CString Inet

/-- Names in a collection passed the check for names. -/
def ValidHost : OpenvasHost → Prop
  | .name name => determineHostType name = some .name
  | _ => True

/-! A property of collections that adding a host keeps holds of every collection that
is built from elements. -/

section AddressLoop

variable {α : Type} {next : α → α} {notAfter : α → α → Bool} {host : α → OpenvasHost}

theorem addAddresses_invariant {good : OpenvasHosts → Prop}
    (hPrepend : ∀ hosts a, good hosts → good (hosts.prepend (host a))) {maxHosts : UInt32}
    {fuel : Nat} {current last : α} {hosts after : OpenvasHosts} (hGood : good hosts)
    (hOk : addAddresses next notAfter host maxHosts fuel current last hosts = .ok (some after)) :
    good after := by
  induction fuel generalizing current hosts with
  | zero => simp [addAddresses] at hOk
  | succ fuel ih =>
      simp only [addAddresses] at hOk
      split_ifs at hOk
      · simp at hOk
      · exact ih (hPrepend hosts current hGood) hOk
      · obtain rfl : hosts = after := by simpa using hOk
        exact hGood

theorem addIps_invariant {good : OpenvasHosts → Prop}
    (hPrepend : ∀ hosts a, good hosts → good (hosts.prepend (host a))) {maxHosts : UInt32}
    {fuel : Nat} {ips : Ips α} {hosts after : OpenvasHosts} (hGood : good hosts)
    (hOk : addIps next notAfter host maxHosts fuel ips hosts = .ok (some after)) : good after := by
  cases ips with
  | failed =>
      obtain rfl : hosts = after := by simpa [addIps] using hOk
      exact hGood
  | undefined => simp [addIps] at hOk
  | range first last =>
      rw [addIps] at hOk
      split at hOk
      · exact addAddresses_invariant hPrepend hGood hOk
      · obtain rfl : hosts = after := by simpa using hOk
        exact hGood

end AddressLoop

theorem addElement_invariant {good : OpenvasHosts → Prop}
    (hPrepend : ∀ hosts host, ValidHost host → good hosts → good (hosts.prepend host))
    {maxHosts : UInt32} {fuel : Nat} {element : CString} {hosts after : OpenvasHosts}
    (hGood : good hosts) (hOk : addElement maxHosts fuel element hosts = .ok (some after)) :
    good after := by
  have hIpv4 : ∀ hosts a, good hosts → good (hosts.prepend (.ipv4 a)) :=
    fun hosts a => hPrepend hosts _ trivial
  have hIpv6 : ∀ hosts a, good hosts → good (hosts.prepend (.ipv6 a)) :=
    fun hosts a => hPrepend hosts _ trivial
  rw [addElement] at hOk
  split at hOk
  · rename_i hType
    obtain rfl := Option.some.inj (Except.ok.inj hOk)
    exact hPrepend hosts _ hType hGood
  · obtain rfl := Option.some.inj (Except.ok.inj hOk)
    exact hIpv4 hosts _ hGood
  · obtain rfl := Option.some.inj (Except.ok.inj hOk)
    exact hIpv6 hosts _ hGood
  · exact addIps_invariant hIpv4 hGood hOk
  · exact addIps_invariant hIpv4 hGood hOk
  · exact addIps_invariant hIpv4 hGood hOk
  · exact addIps_invariant hIpv6 hGood hOk
  · exact addIps_invariant hIpv6 hGood hOk
  · exact addIps_invariant hIpv6 hGood hOk
  · simp at hOk

/-- One element and then the others, for a run of the element loop that returns. -/
theorem addElements_cons {maxHosts : UInt32} {fuel : Nat} {element : CString} {rest : List CString}
    {hosts after : OpenvasHosts}
    (hOk : addElements maxHosts fuel (element :: rest) hosts = .ok (some after)) :
    ∃ middle, addElement maxHosts fuel element hosts = .ok (some middle) ∧
      addElements maxHosts fuel rest middle = .ok (some after) := by
  rw [addElements] at hOk
  obtain ⟨answer, hElement, hRest⟩ := Except.bind_eq_ok.mp hOk
  cases answer with
  | none => simp at hRest
  | some middle =>
      refine ⟨middle, hElement, ?_⟩
      simp only at hRest
      split at hRest
      · simp at hRest
      · exact hRest

theorem addElements_invariant {good : OpenvasHosts → Prop}
    (hPrepend : ∀ hosts host, ValidHost host → good hosts → good (hosts.prepend host))
    {maxHosts : UInt32} {fuel : Nat} {elements : List CString} {hosts after : OpenvasHosts}
    (hGood : good hosts) (hOk : addElements maxHosts fuel elements hosts = .ok (some after)) :
    good after := by
  induction elements generalizing hosts with
  | nil =>
      obtain rfl : hosts = after := by simpa [addElements] using hOk
      exact hGood
  | cons element rest ih =>
      obtain ⟨middle, hElement, hRest⟩ := addElements_cons hOk
      exact ih (addElement_invariant hPrepend hGood hElement) hRest

theorem valid_addElements {maxHosts : UInt32} {fuel : Nat} {elements : List CString}
    {hosts after : OpenvasHosts} (hValid : ∀ h ∈ hosts.hosts, ValidHost h)
    (hOk : addElements maxHosts fuel elements hosts = .ok (some after)) :
    ∀ h ∈ after.hosts, ValidHost h := by
  have hPrepend : ∀ (hosts : OpenvasHosts) host, ValidHost host → (∀ h ∈ hosts.hosts, ValidHost h) →
      ∀ h ∈ (hosts.prepend host).hosts, ValidHost h := by
    intro hosts host hHost hValid h hh
    rcases List.mem_cons.mp hh with rfl | hOld
    · exact hHost
    · exact hValid h hOld
  exact addElements_invariant hPrepend hValid hOk

/-- An element that no part of the scanner misreads. -/
def Faultless (element : CString) : Prop :=
  (determineHostType element).isSome = true ∧ ¬ OverlongPrefix element

/-- A list whose elements are all hosts, blocks or ranges. -/
def Accepted (elements : List CString) : Prop :=
  ∀ element ∈ elements, (determineHostType element).isSome = true

theorem mem_addElements {fuel : Nat} {elements : List CString} {hosts after : OpenvasHosts}
    (hAccepted : Accepted elements) (hOk : addElements 0 fuel elements hosts = .ok (some after))
    (host : OpenvasHost) :
    host ∈ after.hosts ↔ host ∈ hosts.hosts ∨ ∃ element ∈ elements, ReadAs element host := by
  induction elements generalizing hosts with
  | nil =>
      obtain rfl : hosts = after := by simpa [addElements] using hOk
      simp
  | cons element rest ih =>
      obtain ⟨middle, hElement, hRest⟩ := addElements_cons hOk
      obtain ⟨type, hType⟩ := Option.isSome_iff_exists.mp (hAccepted element (by simp))
      obtain ⟨after', hSome, added, hHosts, hAdded⟩ := addElement_ok hType hElement
      obtain rfl : middle = after' := Option.some.inj hSome
      rw [ih (fun e he => hAccepted e (List.mem_cons_of_mem element he)) hRest, hHosts,
        List.mem_append, hAdded]
      simp only [List.mem_cons, exists_eq_or_imp]
      tauto

/-- A run gives up exactly at an element that is no host, block or range. -/
theorem addElements_isSome_iff {fuel : Nat} {elements : List CString} {hosts : OpenvasHosts}
    {result : Option OpenvasHosts} (hOk : addElements 0 fuel elements hosts = .ok result) :
    result.isSome = true ↔ Accepted elements := by
  induction elements generalizing hosts with
  | nil =>
      obtain rfl : some hosts = result := by simpa [addElements] using hOk
      exact iff_of_true rfl (by simp [Accepted])
  | cons element rest ih =>
      rw [addElements] at hOk
      obtain ⟨answer, hElement, hRest⟩ := Except.bind_eq_ok.mp hOk
      cases hType : determineHostType element with
      | none =>
          rw [addElement, hType] at hElement
          obtain rfl := Except.ok.inj hElement
          obtain rfl := Except.ok.inj hRest
          refine iff_of_false (by simp) fun hAccepted => ?_
          have hSome := hAccepted element List.mem_cons_self
          rw [hType] at hSome
          cases hSome
      | some type =>
          obtain ⟨middle, rfl, _⟩ := addElement_ok hType hElement
          simp only [exceeds_zero, Bool.false_eq_true, if_false] at hRest
          rw [ih hRest]
          simp [Accepted, hType]

/-! Dropping duplicates. -/

theorem mem_of_mem_unify {key : OpenvasHost → Option CString} {table : List CString}
    {hosts : List OpenvasHost} {host : OpenvasHost} (h : host ∈ unify key table hosts) :
    host ∈ hosts := by
  induction hosts generalizing table with
  | nil => simp [unify] at h
  | cons first rest ih =>
      rw [unify] at h
      split at h
      · rcases List.mem_cons.mp h with rfl | hRest
        · simp
        · exact List.mem_cons_of_mem first (ih hRest)
      · split at h
        · exact List.mem_cons_of_mem first (ih h)
        · rcases List.mem_cons.mp h with rfl | hRest
          · simp
          · exact List.mem_cons_of_mem first (ih hRest)

/-- Every key of the list is still there, or was in the table at the start. -/
theorem exists_mem_unify {key : OpenvasHost → Option CString} {table : List CString}
    {hosts : List OpenvasHost} {host : OpenvasHost} {name : CString} (h : host ∈ hosts)
    (hKey : key host = some name) :
    name ∈ table ∨ ∃ host' ∈ unify key table hosts, key host' = some name := by
  induction hosts generalizing table with
  | nil => simp at h
  | cons first rest ih =>
      rw [unify]
      rcases List.mem_cons.mp h with rfl | hRest
      · rw [hKey]
        by_cases hSeen : name ∈ table
        · exact .inl hSeen
        · exact .inr ⟨host, by simp [hSeen], hKey⟩
      · cases hFirst : key first with
        | none =>
            have hTail : name ∈ table ∨ ∃ host' ∈ unify key table rest, key host' = some name :=
              ih hRest
            rcases hTail with hSeen | ⟨host', hMem, hName⟩
            · exact .inl hSeen
            · exact .inr ⟨host', List.mem_cons_of_mem first hMem, hName⟩
        | some other =>
            by_cases hSeen : other ∈ table
            · simpa only [hSeen, if_true] using ih hRest
            · have hTail : name ∈ other :: table ∨
                  ∃ host' ∈ unify key (other :: table) rest, key host' = some name := ih hRest
              rcases hTail with hTable | ⟨host', hMem, hName⟩
              · rcases List.mem_cons.mp hTable with rfl | hOld
                · exact .inr ⟨first, by simp [hSeen], hFirst⟩
                · exact .inl hOld
              · exact .inr ⟨host', by simp [hSeen, hMem], hName⟩

/-! Printed texts. -/

theorem colon_not_mem_hostname {name : CString} (h : isHostname name = true) : ch ':' ∉ name := by
  intro hMem
  rw [isHostname, Bool.and_eq_true] at h
  exact absurd (List.all_eq_true.mp h.1 _ hMem) (by decide)

/-- Folding case reaches a digit, a dot or a colon only from itself. -/
theorem eq_of_tolower {c d : UInt8} (hd : isdigit d = true ∨ d = ch '.' ∨ d = ch ':')
    (h : tolower c = d) : c = d := by
  have hAll : ∀ n < 256, (isdigit (tolower (UInt8.ofNat n)) = true ∨
      tolower (UInt8.ofNat n) = ch '.' ∨ tolower (UInt8.ofNat n) = ch ':') →
        tolower (UInt8.ofNat n) = UInt8.ofNat n := by decide +kernel
  have hFold := hAll c.toNat c.toNat_lt
  rw [UInt8.ofNat_toNat, h] at hFold
  exact (hFold hd).symm

theorem eq_of_map_tolower {s t : CString} (ht : ∀ d ∈ t, isdigit d = true ∨ d = ch '.')
    (h : s.map tolower = t) : s = t := by
  subst h
  have hSame : ∀ c ∈ s, c = tolower c := fun c hc =>
    eq_of_tolower ((ht _ (List.mem_map_of_mem hc)).imp id .inl) rfl
  conv_lhs => rw [← List.map_id s]
  exact List.map_congr_left hSame

/-- Texts of hosts that agree up to case are texts of names or of one address. -/
theorem strcaseeq_valueStr {host element : OpenvasHost} (hHost : ValidHost host)
    (hElement : ValidHost element)
    (h : strcaseeq (openvasHostValueStr host) (openvasHostValueStr element) = true) :
    (∃ name name', host = .name name ∧ element = .name name' ∧ strcaseeq name name' = true) ∨
      host = element := by
  have hIpv4 : ∀ {name : CString} {a : UInt32}, ValidHost (.name name) →
      name.map tolower ≠ inetNtop4 a := by
    intro name a hName hText
    have hSame : name = inetNtop4 a := eq_of_map_tolower (fun d hd => mem_dotted hd) hText
    have hRead := inetPton4_inetNtop4 a
    rw [← hSame, not_ipv4_of_name hName] at hRead
    simp at hRead
  have hIpv6 : ∀ {name : CString} {a : In6Addr}, ValidHost (.name name) →
      name.map tolower ≠ inetNtop6 a := by
    intro name a hName hText
    have hColon := colon_mem_inetNtop6 a
    rw [← hText] at hColon
    obtain ⟨c, hc, hFold⟩ := List.mem_map.mp hColon
    obtain rfl := eq_of_tolower (.inr (.inr rfl)) hFold
    exact colon_not_mem_hostname (check_of_determineHostType hName) hc
  have hMixed : ∀ {a : UInt32} {b : In6Addr}, inetNtop4 a ≠ inetNtop6 b := by
    intro a b hText
    exact colon_not_mem_inetNtop4 a (hText ▸ colon_mem_inetNtop6 b)
  rw [strcaseeq, decide_eq_true_eq] at h
  cases host with
  | name name =>
      cases element with
      | name name' => exact .inl ⟨name, name', rfl, rfl, by rw [strcaseeq, decide_eq_true_eq]; exact h⟩
      | ipv4 b => exact absurd (h.trans (map_tolower_inetNtop4 b)) (hIpv4 hHost)
      | ipv6 b => exact absurd (h.trans (map_tolower_inetNtop6 b)) (hIpv6 hHost)
  | ipv4 a =>
      have hText : inetNtop4 a = (openvasHostValueStr element).map tolower :=
        (map_tolower_inetNtop4 a).symm.trans h
      cases element with
      | name name' => exact absurd hText.symm (hIpv4 hElement)
      | ipv4 b =>
          exact .inr (congrArg _ (inetNtop4_injective (hText.trans (map_tolower_inetNtop4 b))))
      | ipv6 b => exact absurd (hText.trans (map_tolower_inetNtop6 b)) hMixed
  | ipv6 a =>
      have hText : inetNtop6 a = (openvasHostValueStr element).map tolower :=
        (map_tolower_inetNtop6 a).symm.trans h
      cases element with
      | name name' => exact absurd hText.symm (hIpv6 hElement)
      | ipv4 b => exact absurd (hText.trans (map_tolower_inetNtop4 b)).symm hMixed
      | ipv6 b =>
          exact .inr (congrArg _ (inetNtop6_injective (hText.trans (map_tolower_inetNtop6 b))))

/-- Different hosts of a collection have different texts. -/
theorem valueStr_injective {host element : OpenvasHost} (hHost : ValidHost host)
    (hElement : ValidHost element)
    (h : openvasHostValueStr host = openvasHostValueStr element) : host = element := by
  have hCase : strcaseeq (openvasHostValueStr host) (openvasHostValueStr element) = true := by
    rw [h, strcaseeq, decide_eq_true_eq]
  rcases strcaseeq_valueStr hHost hElement hCase with ⟨name, name', rfl, rfl, _⟩ | hEq
  · exact congrArg _ h
  · exact hEq

/-! Collections made from a string. -/

/-- The collection behind a string, before and after duplicates are dropped. -/
theorem openvasHostsNew_ok {fuel : Nat} {hostsStr : CString} {hosts : OpenvasHosts}
    (h : openvasHostsNew fuel (some hostsStr) = .ok (some hosts)) :
    ∃ built, addElements 0 fuel (hostElements hostsStr) .empty = .ok (some built) ∧
      hosts.hosts = unify (fun host => some (openvasHostValueStr host)) [] built.hosts.reverse := by
  obtain ⟨answer, hBuilt, hRest⟩ := Except.bind_eq_ok.mp h
  cases answer with
  | none => simp at hRest
  | some built =>
      obtain rfl := Option.some.inj (Except.ok.inj hRest)
      exact ⟨built, hBuilt, rfl⟩

theorem current_openvasHostsNew {fuel : Nat} {hostsStr : CString} {hosts : OpenvasHosts}
    (h : openvasHostsNew fuel (some hostsStr) = .ok (some hosts)) : hosts.current = hosts.hosts := by
  obtain ⟨answer, _, hRest⟩ := Except.bind_eq_ok.mp h
  cases answer with
  | none => simp at hRest
  | some built =>
      obtain rfl := Option.some.inj (Except.ok.inj hRest)
      rfl

theorem valid_openvasHostsNew {fuel : Nat} {hostsStr : CString} {hosts : OpenvasHosts}
    (h : openvasHostsNew fuel (some hostsStr) = .ok (some hosts)) :
    ∀ host ∈ hosts.hosts, ValidHost host := by
  obtain ⟨built, hBuilt, hHosts⟩ := openvasHostsNew_ok h
  intro host hMem
  rw [hHosts] at hMem
  exact valid_addElements (by simp [OpenvasHosts.empty]) hBuilt host
    (List.mem_reverse.mp (mem_of_mem_unify hMem))

/-- A collection is made exactly of a string without malformed elements. -/
theorem openvasHostsNew_isSome_iff {fuel : Nat} {hostsStr : CString} {made : Option OpenvasHosts}
    (h : openvasHostsNew fuel (some hostsStr) = .ok made) :
    made.isSome = true ↔ Accepted (hostElements hostsStr) := by
  obtain ⟨answer, hBuilt, hRest⟩ := Except.bind_eq_ok.mp h
  rw [← addElements_isSome_iff hBuilt]
  cases answer with
  | none =>
      obtain rfl := Except.ok.inj hRest
      rfl
  | some built =>
      obtain rfl := Except.ok.inj hRest
      rfl

/-- A collection holds exactly the hosts that the elements of its string are read as. -/
theorem mem_openvasHostsNew {fuel : Nat} {hostsStr : CString} {hosts : OpenvasHosts}
    (h : openvasHostsNew fuel (some hostsStr) = .ok (some hosts)) (host : OpenvasHost) :
    host ∈ hosts.hosts ↔ ∃ element ∈ hostElements hostsStr, ReadAs element host := by
  obtain ⟨built, hBuilt, hHosts⟩ := openvasHostsNew_ok h
  have hValid := valid_addElements (by simp [OpenvasHosts.empty]) hBuilt
  have hMem := mem_addElements ((openvasHostsNew_isSome_iff h).mp rfl) hBuilt host
  simp only [OpenvasHosts.empty, List.not_mem_nil, false_or] at hMem
  rw [← hMem, hHosts]
  constructor
  · intro hKept
    exact List.mem_reverse.mp (mem_of_mem_unify hKept)
  · intro hIn
    have hFound : openvasHostValueStr host ∈ [] ∨
        ∃ host' ∈ unify (fun host => some (openvasHostValueStr host)) [] built.hosts.reverse,
          some (openvasHostValueStr host') = some (openvasHostValueStr host) :=
      exists_mem_unify (List.mem_reverse.mpr hIn) rfl
    rcases hFound with hSeen | ⟨host', hKept, hText⟩
    · simp at hSeen
    · have hOld := List.mem_reverse.mp (mem_of_mem_unify hKept)
      rwa [valueStr_injective (hValid host hIn) (hValid host' hOld) (Option.some.inj hText).symm]

/-- Looking a host up compares names with names up to case, and addresses with its address. -/
theorem openvasHostInHosts_iff {names : Names} {host : OpenvasHost} {ip : In6Addr}
    {hosts : OpenvasHosts} (hHost : ValidHost host)
    (hIp : openvasHostGetAddr6 names host = some ip)
    (hValid : ∀ element ∈ hosts.hosts, ValidHost element) :
    openvasHostInHosts names host (some ip) hosts = true ↔
      (∃ name name', OpenvasHost.name name ∈ hosts.hosts ∧ host = .name name' ∧
        strcaseeq name' name = true) ∨
      (∃ a, OpenvasHost.ipv4 a ∈ hosts.hosts ∧ ipv4AsIpv6 a = ip) ∨
      OpenvasHost.ipv6 ip ∈ hosts.hosts := by
  rw [openvasHostInHosts, List.any_eq_true]
  constructor
  · rintro ⟨element, hMem, hMatch⟩
    rw [Bool.or_eq_true] at hMatch
    rcases hMatch with hText | hAddr
    · rcases strcaseeq_valueStr hHost (hValid element hMem) hText with
        ⟨name', name, rfl, rfl, hCase⟩ | rfl
      · exact .inl ⟨name, name', hMem, rfl, hCase⟩
      · cases host with
        | name name => exact .inl ⟨name, name, hMem, rfl, by simp [strcaseeq]⟩
        | ipv4 a => exact .inr (.inl ⟨a, hMem, Option.some.inj hIp⟩)
        | ipv6 a =>
            obtain rfl := Option.some.inj hIp
            exact .inr (.inr hMem)
    · cases element with
      | name name => simp at hAddr
      | ipv4 a => exact .inr (.inl ⟨a, hMem, by simpa [openvasHostGetAddr6] using hAddr⟩)
      | ipv6 a =>
          obtain rfl : a = ip := by simpa [openvasHostGetAddr6] using hAddr
          exact .inr (.inr hMem)
  · rintro (⟨name, name', hMem, rfl, hCase⟩ | ⟨a, hMem, rfl⟩ | hMem)
    · exact ⟨_, hMem, by simp [openvasHostValueStr, hCase]⟩
    · exact ⟨_, hMem, by simp [openvasHostGetAddr6]⟩
    · exact ⟨_, hMem, by simp [openvasHostGetAddr6]⟩

/-- A host is found in the collection of a string exactly when one of the
string's elements is read as its name or its address. -/
theorem openvasHostInHosts_iff_read {names : Names} {host : OpenvasHost} {ip : In6Addr}
    {fuel : Nat} {hostsStr : CString} {hosts : OpenvasHosts} (hHost : ValidHost host)
    (hIp : openvasHostGetAddr6 names host = some ip)
    (h : openvasHostsNew fuel (some hostsStr) = .ok (some hosts)) :
    openvasHostInHosts names host (some ip) hosts = true ↔
      ∃ element ∈ hostElements hostsStr, ReadDenotes element host ip := by
  rw [openvasHostInHosts_iff hHost hIp (valid_openvasHostsNew h)]
  simp only [mem_openvasHostsNew h, ReadDenotes]
  constructor
  · rintro (⟨name, name', ⟨element, hMem, hRead⟩, rfl, hCase⟩ |
      ⟨a, ⟨element, hMem, hRead⟩, rfl⟩ | ⟨element, hMem, hRead⟩)
    · exact ⟨element, hMem, .inl ⟨name, name', hRead, rfl, hCase⟩⟩
    · exact ⟨element, hMem, .inr (.inl ⟨a, hRead, rfl⟩)⟩
    · exact ⟨element, hMem, .inr (.inr hRead)⟩
  · rintro ⟨element, hMem, ⟨name, name', hRead, rfl, hCase⟩ | ⟨a, hRead, rfl⟩ | hRead⟩
    · exact .inl ⟨name, name', ⟨element, hMem, hRead⟩, rfl, hCase⟩
    · exact .inr (.inl ⟨a, ⟨element, hMem, hRead⟩, rfl⟩)
    · exact .inr (.inr ⟨element, hMem, hRead⟩)

/-- A faultless element is read as what it denotes. -/
theorem readDenotes_iff_denotes {element : CString} (h : Faultless element) (host : OpenvasHost)
    (ip : In6Addr) : ReadDenotes element host ip ↔ Denotes element host ip := by
  obtain ⟨type, hType⟩ := Option.isSome_iff_exists.mp h.1
  simp only [ReadDenotes, Denotes, readAs_iff_standsFor hType h.2]

end Hosts
