import OpenVAS.Attack.Expansions
import OpenVAS.Hosts.Collection

/-! Host access control. Lists whose elements are all read as written are
enforced exactly; a list with a malformed element is taken for one that is not
configured, and scan processes are then started for hosts it denies. -/
namespace Attack

open CString Inet Hosts

/-- The configured lists of hosts that must not be scanned. -/
def denyLists (preferences : Preferences) : List CString :=
  ["hosts_deny", "sys_hosts_deny"].filterMap (preferencesGetString preferences)

/-- The configured lists of the only hosts that may be scanned. -/
def allowLists (preferences : Preferences) : List CString :=
  ["hosts_allow", "sys_hosts_allow"].filterMap (preferencesGetString preferences)

/-- Some element written in the list denotes the host's name or address. -/
def Covers (list : CString) (host : OpenvasHost) (ip : In6Addr) : Prop :=
  ∃ element ∈ hostElements list, Denotes element host ip

/-- What the configured lists say about a host, as they are written. -/
def AccessAllowed (preferences : Preferences) (host : OpenvasHost) (ip : In6Addr) : Prop :=
  (∀ list ∈ denyLists preferences, ¬ Covers list host ip) ∧
    ∀ list ∈ allowLists preferences, Covers list host ip

/-- No run is undefined, and each starts processes for allowed hosts only. -/
def AccessEnforced (names : Names) (preferences : Preferences) : Prop :=
  ∀ fuel calls networkScanDone,
    (attackNetwork fuel names preferences calls networkScanDone).2 ≠ some .undefined ∧
    ∀ started ∈ (attackNetwork fuel names preferences calls networkScanDone).1,
      AccessAllowed preferences started.host started.hostIp

/-- A list with a malformed element, or with a prefix length of too many digits. -/
def Faulty (list : CString) : Prop := ∃ element ∈ hostElements list, ¬ Faultless element

/-- A list without a malformed element, which the scanner can make. -/
def Made (list : CString) : Prop := Accepted (hostElements list)

/-- Some element of the list is read as the host's name or address. -/
def ReadCovers (list : CString) (host : OpenvasHost) (ip : In6Addr) : Prop :=
  ∃ element ∈ hostElements list, ReadDenotes element host ip

/-- What the lists without malformed elements say about a host, as they are read. -/
def ReadAllowed (preferences : Preferences) (host : OpenvasHost) (ip : In6Addr) : Prop :=
  (∀ list ∈ denyLists preferences, Made list → ¬ ReadCovers list host ip) ∧
    ∀ list ∈ allowLists preferences, Made list → ReadCovers list host ip

/-- A host of the targets, without those that are excluded or not looked up. -/
def IsTarget (names : Names) (preferences : Preferences) (host : OpenvasHost) (ip : In6Addr) : Prop :=
  ∃ fuel random hostlist hosts, preferences (lit "TARGET") = some hostlist ∧
    targetHosts fuel names random preferences hostlist = .ok hosts ∧ host ∈ hosts ∧
    openvasHostGetAddr6 names host = some ip

/-- Whether the source interface, if there is one, may be used. -/
def sourceIfaceAuthorized (preferences : Preferences) : Bool :=
  (preferencesGetString preferences "source_iface").all fun iface => ifaceAuthorized iface preferences

/-- The elements that a scan expands, in this order. -/
def scanElements (preferences : Preferences) (hostlist : CString) : List CString :=
  targetElements preferences hostlist ++
    if sourceIfaceAuthorized preferences then listElements preferences else []

/-- Nothing but its targets keeps a scan from getting to its hosts. -/
structure ReachesHosts (preferences : Preferences) : Prop where
  portRange : Ports.validatePortRange (preferences (lit "port_range")) = true
  sourceIface : sourceIfaceAuthorized preferences = true
  lists : ∀ element ∈ listElements preferences, ¬ Endless element

/-- No prefix length that is read as 0 is reached, and a target that the lists without malformed
elements let through as they are read is also let through by the faulty lists as they are
written. -/
structure FaultyListsAgree (names : Names) (preferences : Preferences) : Prop where
  defined : ∀ hostlist, preferences (lit "TARGET") = some hostlist →
    Ports.validatePortRange (preferences (lit "port_range")) = true →
    ¬ ReachesZeroPrefix (scanElements preferences hostlist)
  agree : ReachesHosts preferences → ∀ host ip, IsTarget names preferences host ip →
    ReadAllowed preferences host ip →
      (∀ list ∈ denyLists preferences, Faulty list → ¬ Covers list host ip) ∧
        ∀ list ∈ allowLists preferences, Faulty list → Covers list host ip

/-- Whether the access lists that could be made let a host through. -/
def AccessLists.authorize (lists : AccessLists) (names : Names) (host : OpenvasHost)
    (ip : In6Addr) : Bool :=
  hostAuthorized names host ip lists.hostsAllow lists.hostsDeny &&
    hostAuthorized names host ip lists.sysHostsAllow lists.sysHostsDeny

/-! Targets are hosts that a hosts string stands for. -/

/-- All hosts of a collection, iterated over or not, are valid. -/
def AllValid (hosts : OpenvasHosts) : Prop :=
  (∀ host ∈ hosts.hosts, ValidHost host) ∧ ∀ host ∈ hosts.current, ValidHost host

theorem allValid_of_subset {hosts after : OpenvasHosts} (hValid : AllValid hosts)
    (hHosts : ∀ host ∈ after.hosts, host ∈ hosts.hosts)
    (hCurrent : ∀ host ∈ after.current, host ∈ hosts.hosts) : AllValid after :=
  ⟨fun host h => hValid.1 host (hHosts host h), fun host h => hValid.1 host (hCurrent host h)⟩

theorem allValid_keep {hosts : OpenvasHosts} (hValid : AllValid hosts) {kept : List OpenvasHost}
    (hKept : ∀ host ∈ kept, host ∈ hosts.hosts) : AllValid (hosts.keep kept) :=
  allValid_of_subset hValid hKept hKept

theorem mem_of_mem_shuffleHosts {random : Nat → Nat} {count : Nat}
    {hosts shuffled : List OpenvasHost} {host : OpenvasHost}
    (h : host ∈ shuffleHosts random count hosts shuffled) : host ∈ hosts ∨ host ∈ shuffled := by
  induction count generalizing hosts shuffled with
  | zero => exact .inr h
  | succ count ih =>
      simp only [shuffleHosts] at h
      split at h
      · exact ih h
      · rename_i picked hPicked
        rcases ih h with hRest | hNew
        · exact .inl (List.mem_of_mem_eraseIdx hRest)
        · rcases List.mem_cons.mp hNew with rfl | hOld
          · exact .inl (List.mem_of_getElem? hPicked)
          · exact .inr hOld

theorem allValid_shuffle (random : Nat → Nat) {hosts : OpenvasHosts} (hValid : AllValid hosts) :
    AllValid (openvasHostsShuffle random hosts) := by
  have hMem : ∀ host ∈ shuffleHosts random hosts.count.toNat hosts.hosts [],
      host ∈ hosts.hosts := fun host h => (mem_of_mem_shuffleHosts h).resolve_right (by simp)
  exact allValid_of_subset hValid hMem hMem

theorem allValid_reverse {hosts : OpenvasHosts} (hValid : AllValid hosts) :
    AllValid (openvasHostsReverse hosts) := by
  rw [openvasHostsReverse]
  split
  · exact hValid
  · exact allValid_of_subset hValid (fun host => List.mem_reverse.mp) fun host => List.mem_reverse.mp

theorem allValid_exclude {fuel : Nat} {names : Names} {hosts after : OpenvasHosts}
    {excludedStr : CString} {resolve : Bool} {answer : Int32} (hValid : AllValid hosts)
    (h : openvasHostsExclude fuel names hosts excludedStr resolve = .ok (answer, after)) :
    AllValid after := by
  rcases openvasHostsExclude_cases h with ⟨_, _, _, rfl⟩ | ⟨kept, hKept, rfl⟩
  · exact hValid
  · exact allValid_keep hValid fun host hMem => hKept.subset hMem

theorem allValid_orderHosts (random : Nat → Nat) (preferences : Preferences) {hosts : OpenvasHosts}
    (hValid : AllValid hosts) : AllValid (orderHosts random preferences hosts) := by
  rw [orderHosts]
  split
  · exact hValid
  · split_ifs
    · exact allValid_shuffle random hValid
    · exact allValid_reverse hValid
    · exact hValid

theorem allValid_excludePreferredHosts {fuel : Nat} {names : Names} {preferences : Preferences}
    {hosts after : OpenvasHosts} (hValid : AllValid hosts)
    (h : excludePreferredHosts fuel names preferences hosts = .ok after) : AllValid after := by
  rw [excludePreferredHosts] at h
  split at h
  · obtain rfl := Except.ok.inj h
    exact hValid
  · obtain ⟨⟨answer, remaining⟩, hAnswer, hRest⟩ := Except.bind_eq_ok.mp h
    obtain rfl := Except.ok.inj hRest
    exact allValid_exclude hValid hAnswer

theorem allValid_lookUpHosts (names : Names) (preferences : Preferences) {hosts : OpenvasHosts}
    (hValid : AllValid hosts) : AllValid (lookUpHosts names preferences hosts) := by
  have hUnify : AllValid (openvasHostsReverseLookupUnify names hosts) :=
    allValid_keep hValid fun host => mem_of_mem_unify
  have hOnly : ∀ {c : OpenvasHosts}, AllValid c → AllValid (openvasHostsReverseLookupOnly names c) :=
    fun hc => allValid_keep hc fun host h => (List.mem_filter.mp h).1
  simp only [lookUpHosts]
  split_ifs
  · exact hOnly hUnify
  · exact hOnly hValid
  · exact hUnify
  · exact hValid

theorem valid_targetHosts {fuel : Nat} {names : Names} {random : Nat → Nat}
    {preferences : Preferences} {hostlist : CString} {hosts : List OpenvasHost}
    (h : targetHosts fuel names random preferences hostlist = .ok hosts) :
    ∀ host ∈ hosts, ValidHost host := by
  obtain ⟨answer, hNew, hRest⟩ := Except.bind_eq_ok.mp h
  cases answer with
  | none =>
      obtain rfl := Except.ok.inj hRest
      simp
  | some collection =>
      obtain ⟨ordered, hOrdered, hCurrent⟩ := Except.bind_eq_ok.mp hRest
      obtain rfl := Except.ok.inj hCurrent
      obtain ⟨remaining, hExcluded, hLookup⟩ := Except.bind_eq_ok.mp hOrdered
      obtain rfl := Except.ok.inj hLookup
      have hValid := valid_openvasHostsNew hNew
      have hStart : AllValid collection := ⟨hValid, by rwa [current_openvasHostsNew hNew]⟩
      exact (allValid_lookUpHosts names preferences
        (allValid_excludePreferredHosts (allValid_orderHosts random preferences hStart) hExcluded)).2

section Inputs

variable {fuel : Nat} {names : Names} {preferences : Preferences} {circumstances : Circumstances}

theorem applySourceIfacePreference_true (preferences : Preferences) :
    applySourceIfacePreference (fun _ => true) preferences = sourceIfaceAuthorized preferences := by
  rw [applySourceIfacePreference, sourceIfaceAuthorized]
  cases preferencesGetString preferences "source_iface" with
  | none => rfl
  | some iface => exact Bool.and_true _

theorem sourceIfaceAuthorized_of_applied {sourceIfaceInit : CString → Bool}
    (h : applySourceIfacePreference sourceIfaceInit preferences = true) :
    sourceIfaceAuthorized preferences = true := by
  rw [applySourceIfacePreference] at h
  rw [sourceIfaceAuthorized]
  cases hIface : preferencesGetString preferences "source_iface" with
  | none => rfl
  | some iface =>
      rw [hIface] at h
      exact (Bool.and_eq_true _ _ ▸ h).1

/-- The parts of a scan that is not refused for its targets or ports. -/
theorem scanInputs_eq {hostlist : CString} (hTarget : preferences (lit "TARGET") = some hostlist)
    (hPorts : Ports.validatePortRange (preferences (lit "port_range")) = true) (fuel : Nat) :
    scanInputs fuel names preferences circumstances =
      (targetHosts fuel names circumstances.random preferences hostlist).bind fun hosts =>
        if !applySourceIfacePreference circumstances.sourceIfaceInit preferences then .ok none
        else (accessLists fuel preferences).bind fun lists => .ok (some (hosts, lists)) := by
  rw [scanInputs, hTarget]
  simp only [hPorts, Bool.not_true, Bool.false_eq_true, if_false]
  rfl

theorem expands_scanInputs {hostlist : CString}
    (hTarget : preferences (lit "TARGET") = some hostlist)
    (hPorts : Ports.validatePortRange (preferences (lit "port_range")) = true) :
    Expands (scanInputs · names preferences circumstances)
      (targetElements preferences hostlist ++
        if applySourceIfacePreference circumstances.sourceIfaceInit preferences then
          listElements preferences
        else []) := by
  simp only [scanInputs_eq hTarget hPorts]
  refine (expands_targetHosts names circumstances.random preferences hostlist).bind
    fun {fuel hosts} _ => ?_
  cases applySourceIfacePreference circumstances.sourceIfaceInit preferences with
  | false => exact Expands.pure none
  | true => exact (expands_accessLists preferences).map fun lists => some (hosts, lists)

/-- When the inputs of a scan are defined. -/
theorem scanInputs_defined_iff (names : Names) (preferences : Preferences) :
    (∀ fuel circumstances, scanInputs fuel names preferences circumstances ≠ .error .undefined) ↔
      ∀ hostlist, preferences (lit "TARGET") = some hostlist →
        Ports.validatePortRange (preferences (lit "port_range")) = true →
        ¬ ReachesZeroPrefix (scanElements preferences hostlist) := by
  constructor
  · intro hDefined hostlist hTarget hPorts hReaches
    let circumstances : Circumstances :=
      ⟨id, fun _ => true, fun _ => ⟨false, false, 0⟩, false⟩
    have hScan : Expands (scanInputs · names preferences circumstances) _ :=
      expands_scanInputs hTarget hPorts
    rw [applySourceIfacePreference_true] at hScan
    obtain ⟨least, hUndefined⟩ := hScan.undefined hReaches
    exact hDefined least circumstances (hUndefined least (Nat.le_refl _))
  · intro hDefined fuel circumstances hUndefined
    cases hTarget : preferences (lit "TARGET") with
    | none => simp [scanInputs, hTarget] at hUndefined
    | some hostlist =>
        cases hPorts : Ports.validatePortRange (preferences (lit "port_range")) with
        | false => simp [scanInputs, hTarget, hPorts] at hUndefined
        | true =>
            refine hDefined hostlist hTarget hPorts ?_
            have hReaches := (expands_scanInputs hTarget hPorts).reaches hUndefined
            cases hApplied : applySourceIfacePreference circumstances.sourceIfaceInit preferences with
            | true =>
                rw [hApplied, if_pos rfl] at hReaches
                rwa [scanElements, sourceIfaceAuthorized_of_applied hApplied, if_pos rfl]
            | false =>
                rw [hApplied, if_neg Bool.false_ne_true, List.append_nil] at hReaches
                exact (reachesZeroPrefix_append _ _).mpr (.inl hReaches)

/-- The inputs of a scan that is not refused. -/
theorem scanInputs_ok {hosts : List OpenvasHost} {lists : AccessLists}
    (h : scanInputs fuel names preferences circumstances = .ok (some (hosts, lists))) :
    ReachesHosts preferences ∧ (∀ host ∈ hosts, ValidHost host) ∧
      (∀ host ∈ hosts, ∀ ip, openvasHostGetAddr6 names host = some ip →
        IsTarget names preferences host ip) ∧
      accessLists fuel preferences = .ok lists := by
  cases hTarget : preferences (lit "TARGET") with
  | none => simp [scanInputs, hTarget] at h
  | some hostlist =>
      cases hPorts : Ports.validatePortRange (preferences (lit "port_range")) with
      | false => simp [scanInputs, hTarget, hPorts] at h
      | true =>
          rw [scanInputs_eq hTarget hPorts] at h
          obtain ⟨targets, hTargets, hRest⟩ := Except.bind_eq_ok.mp h
          cases hApplied : applySourceIfacePreference circumstances.sourceIfaceInit preferences with
          | false => simp [hApplied] at hRest
          | true =>
              rw [hApplied, Bool.not_true, if_neg Bool.false_ne_true] at hRest
              obtain ⟨access, hAccess, hBoth⟩ := Except.bind_eq_ok.mp hRest
              obtain ⟨rfl, rfl⟩ := Prod.mk.inj (Option.some.inj (Except.ok.inj hBoth))
              refine ⟨⟨hPorts, sourceIfaceAuthorized_of_applied hApplied, ?_⟩,
                valid_targetHosts hTargets, ?_, hAccess⟩
              · exact (expands_accessLists preferences).ends_iff.mp ⟨fuel, access, hAccess⟩
              · exact fun host hMem ip hIp =>
                  ⟨fuel, circumstances.random, hostlist, targets, hTarget, hTargets, hMem, hIp⟩

end Inputs

/-- Each access list comes from its preference. -/
theorem accessLists_ok {fuel : Nat} {preferences : Preferences} {lists : AccessLists}
    (h : accessLists fuel preferences = .ok lists) :
    openvasHostsNew fuel (preferencesGetString preferences "hosts_allow") = .ok lists.hostsAllow ∧
    openvasHostsNew fuel (preferencesGetString preferences "hosts_deny") = .ok lists.hostsDeny ∧
    openvasHostsNew fuel (preferencesGetString preferences "sys_hosts_allow") =
      .ok lists.sysHostsAllow ∧
    openvasHostsNew fuel (preferencesGetString preferences "sys_hosts_deny") =
      .ok lists.sysHostsDeny := by
  obtain ⟨hostsAllow, hAllow, h⟩ := Except.bind_eq_ok.mp h
  obtain ⟨hostsDeny, hDeny, h⟩ := Except.bind_eq_ok.mp h
  obtain ⟨sysHostsAllow, hSysAllow, h⟩ := Except.bind_eq_ok.mp h
  obtain ⟨sysHostsDeny, hSysDeny, h⟩ := Except.bind_eq_ok.mp h
  obtain rfl := Except.ok.inj h
  exact ⟨hAllow, hDeny, hSysAllow, hSysDeny⟩

/-! The host loop. -/

/-- Processes are started for hosts of the list that resolve and are let through. -/
theorem mem_attackHosts {names : Names} {preferences : Preferences} {lists : AccessLists}
    {networkPhase : Bool} {incident : Nat → Incident} {index forkRetries : Nat}
    {hosts : List OpenvasHost} {started : Started}
    (h : started ∈ (attackHosts names preferences lists networkPhase incident index forkRetries
      hosts).1) :
    started.host ∈ hosts ∧ openvasHostGetAddr6 names started.host = some started.hostIp ∧
      lists.authorize names started.host started.hostIp = true := by
  induction hosts generalizing index forkRetries with
  | nil => simp [attackHosts] at h
  | cons host rest ih =>
      have hLater : ∀ {i r : Nat}, started ∈ (attackHosts names preferences lists networkPhase
          incident i r rest).1 → started.host ∈ host :: rest ∧
            openvasHostGetAddr6 names started.host = some started.hostIp ∧
              lists.authorize names started.host started.hostIp = true := fun hRest =>
        ⟨List.mem_cons_of_mem host (ih hRest).1, (ih hRest).2⟩
      rw [attackHosts] at h
      split at h
      · exact hLater h
      · rename_i hostIp hIp
        by_cases hAuthorized : lists.authorize names host hostIp = true
        · have hHere : started = ⟨host, hostIp⟩ → started.host ∈ host :: rest ∧
              openvasHostGetAddr6 names started.host = some started.hostIp ∧
                lists.authorize names started.host started.hostIp = true := by
            rintro rfl
            exact ⟨by simp, hIp, hAuthorized⟩
          rw [AccessLists.authorize, Bool.and_eq_true] at hAuthorized
          simp only [hAuthorized, Bool.not_true, Bool.or_self, Bool.false_eq_true, if_false] at h
          split_ifs at h
          · exact hLater h
          · simp at h
          · simp at h
          · exact hHere (by simpa using h)
          · rcases List.mem_cons.mp h with hFirst | hRest
            · exact hHere hFirst
            · exact hLater hRest
        · have hRefused : (!hostAuthorized names host hostIp lists.hostsAllow lists.hostsDeny ||
              !hostAuthorized names host hostIp lists.sysHostsAllow lists.sysHostsDeny) = true := by
            rw [AccessLists.authorize, Bool.not_eq_true, Bool.and_eq_false_iff] at hAuthorized
            simpa using hAuthorized
          rw [if_pos hRefused] at h
          split_ifs at h
          · simp at h
          · exact hLater h

/-- No host is down, and sockets and processes can always be created. -/
def smooth : Nat → Incident := fun _ => { hostDown := false, noSocket := false, forkFailures := 0 }

/-- When nothing goes wrong every such host outside the network phase gets its process. -/
theorem attackHosts_smooth (names : Names) (preferences : Preferences) (lists : AccessLists)
    (index : Nat) (hosts : List OpenvasHost) :
    (attackHosts names preferences lists false smooth index 0 hosts).1 =
      hosts.filterMap fun host => (openvasHostGetAddr6 names host).bind fun ip =>
        if lists.authorize names host ip then some ⟨host, ip⟩ else none := by
  induction hosts generalizing index with
  | nil => rfl
  | cons host rest ih =>
      rw [attackHosts, List.filterMap_cons]
      cases hIp : openvasHostGetAddr6 names host with
      | none => exact ih (index + 1)
      | some ip =>
          by_cases hAuthorized : lists.authorize names host ip = true
          · have hBoth := hAuthorized
            rw [AccessLists.authorize, Bool.and_eq_true] at hBoth
            simp [hBoth, hAuthorized, smooth, maxForkRetries, ← ih (index + 1)]
          · have hRefused : (!hostAuthorized names host ip lists.hostsAllow lists.hostsDeny ||
                !hostAuthorized names host ip lists.sysHostsAllow lists.sysHostsDeny) = true := by
              rw [AccessLists.authorize, Bool.not_eq_true, Bool.and_eq_false_iff] at hAuthorized
              simpa using hAuthorized
            simp [hRefused, hAuthorized, ← ih (index + 1)]

/-! What the lists that the scanner could make let through. -/

theorem hostAuthorized_iff {names : Names} {host : OpenvasHost} {ip : In6Addr}
    {hostsAllow hostsDeny : Option OpenvasHosts} :
    hostAuthorized names host ip hostsAllow hostsDeny = true ↔
      (∀ deny, hostsDeny = some deny → openvasHostInHosts names host (some ip) deny ≠ true) ∧
        ∀ allow, hostsAllow = some allow → openvasHostInHosts names host (some ip) allow = true := by
  cases hostsDeny <;> cases hostsAllow <;> simp [hostAuthorized]

section Lists

variable {names : Names} {host : OpenvasHost} {ip : In6Addr} {fuel : Nat}

/-- A list is made if none of its elements is malformed, and holds what they are read as. -/
theorem made_cases {list : Option CString} {made : Option OpenvasHosts} (hHost : ValidHost host)
    (hIp : openvasHostGetAddr6 names host = some ip) (h : openvasHostsNew fuel list = .ok made) :
    ((∀ text, list = some text → ¬ Made text) ∧ made = none) ∨
      ∃ text hosts, list = some text ∧ Made text ∧ made = some hosts ∧
        (openvasHostInHosts names host (some ip) hosts = true ↔ ReadCovers text host ip) := by
  cases list with
  | none =>
      obtain rfl := Except.ok.inj h
      exact .inl ⟨nofun, rfl⟩
  | some text =>
      have hMade := openvasHostsNew_isSome_iff h
      cases made with
      | none =>
          refine .inl ⟨fun other hSame hAccepted => ?_, rfl⟩
          obtain rfl := Option.some.inj hSame
          exact absurd (hMade.mpr hAccepted) (by simp)
      | some hosts =>
          exact .inr ⟨text, hosts, rfl, hMade.mp rfl, rfl, openvasHostInHosts_iff_read hHost hIp h⟩

/-- One pair of lists, as they are read. -/
theorem hostAuthorized_iff_read {allowList denyList : Option CString}
    {hostsAllow hostsDeny : Option OpenvasHosts} (hHost : ValidHost host)
    (hIp : openvasHostGetAddr6 names host = some ip)
    (hAllow : openvasHostsNew fuel allowList = .ok hostsAllow)
    (hDeny : openvasHostsNew fuel denyList = .ok hostsDeny) :
    hostAuthorized names host ip hostsAllow hostsDeny = true ↔
      (∀ list, denyList = some list → Made list → ¬ ReadCovers list host ip) ∧
        ∀ list, allowList = some list → Made list → ReadCovers list host ip := by
  rw [hostAuthorized_iff]
  refine and_congr ?_ ?_
  · rcases made_cases hHost hIp hDeny with ⟨hNot, rfl⟩ | ⟨text, hosts, rfl, hMade, rfl, hIff⟩
    · exact iff_of_true nofun fun list hList hMade => absurd hMade (hNot list hList)
    · simp only [Option.some.injEq, forall_eq', hMade, true_implies, hIff, ne_eq]
  · rcases made_cases hHost hIp hAllow with ⟨hNot, rfl⟩ | ⟨text, hosts, rfl, hMade, rfl, hIff⟩
    · exact iff_of_true nofun fun list hList hMade => absurd hMade (hNot list hList)
    · simp only [Option.some.injEq, forall_eq', hMade, true_implies, hIff]

theorem mem_denyLists {preferences : Preferences} {list : CString} :
    list ∈ denyLists preferences ↔ preferencesGetString preferences "hosts_deny" = some list ∨
      preferencesGetString preferences "sys_hosts_deny" = some list := by
  simp [denyLists, List.mem_filterMap]

theorem mem_allowLists {preferences : Preferences} {list : CString} :
    list ∈ allowLists preferences ↔ preferencesGetString preferences "hosts_allow" = some list ∨
      preferencesGetString preferences "sys_hosts_allow" = some list := by
  simp [allowLists, List.mem_filterMap]

/-- The host loop lets through what the lists let through as they are read. -/
theorem authorize_iff_readAllowed {preferences : Preferences} {lists : AccessLists}
    (hHost : ValidHost host) (hIp : openvasHostGetAddr6 names host = some ip)
    (hLists : accessLists fuel preferences = .ok lists) :
    lists.authorize names host ip = true ↔ ReadAllowed preferences host ip := by
  obtain ⟨hAllow, hDeny, hSysAllow, hSysDeny⟩ := accessLists_ok hLists
  rw [AccessLists.authorize, Bool.and_eq_true, hostAuthorized_iff_read hHost hIp hAllow hDeny,
    hostAuthorized_iff_read hHost hIp hSysAllow hSysDeny, ReadAllowed]
  simp only [mem_denyLists, mem_allowLists, or_imp, forall_and]
  tauto

/-- A list without faults is made, and read as it is written. -/
theorem covers_of_not_faulty {list : CString} (h : ¬ Faulty list) :
    Made list ∧ (ReadCovers list host ip ↔ Covers list host ip) := by
  have hFaultless : ∀ element ∈ hostElements list, Faultless element := by
    intro element hMem
    by_contra hFault
    exact h ⟨element, hMem, hFault⟩
  refine ⟨fun element hMem => (hFaultless element hMem).1, ?_⟩
  exact exists_congr fun element => and_congr_right fun hMem =>
    readDenotes_iff_denotes (hFaultless element hMem) host ip

end Lists

theorem allowed_of_faultyListsAgree {names : Names} {preferences : Preferences}
    (hAgree : FaultyListsAgree names preferences) {fuel : Nat} {circumstances : Circumstances}
    {hosts : List OpenvasHost} {lists : AccessLists}
    (hInputs : scanInputs fuel names preferences circumstances = .ok (some (hosts, lists)))
    {host : OpenvasHost} {ip : In6Addr} (hMem : host ∈ hosts)
    (hIp : openvasHostGetAddr6 names host = some ip)
    (hAuthorized : lists.authorize names host ip = true) : AccessAllowed preferences host ip := by
  obtain ⟨hReaches, hValid, hTargets, hLists⟩ := scanInputs_ok hInputs
  have hRead := (authorize_iff_readAllowed (hValid host hMem) hIp hLists).mp hAuthorized
  obtain ⟨hFaultyDeny, hFaultyAllow⟩ := hAgree.agree hReaches host ip (hTargets host hMem ip hIp) hRead
  constructor
  · intro list hList
    by_cases hFaulty : Faulty list
    · exact hFaultyDeny list hList hFaulty
    · obtain ⟨hMade, hSame⟩ := covers_of_not_faulty hFaulty
      exact fun hCovers => hRead.1 list hList hMade (hSame.mpr hCovers)
  · intro list hList
    by_cases hFaulty : Faulty list
    · exact hFaultyAllow list hList hFaulty
    · obtain ⟨hMade, hSame⟩ := covers_of_not_faulty hFaulty
      exact hSame.mp (hRead.2 list hList hMade)

/-- A host that the scan reaches and that its lists let through is started in some run: one call in
which every process can be started, outside the network phase. -/
theorem started_of_readAllowed {names : Names} {preferences : Preferences} {host : OpenvasHost}
    {ip : In6Addr} (hReaches : ReachesHosts preferences) (hTarget : IsTarget names preferences host ip)
    (hRead : ReadAllowed preferences host ip) :
    ∃ fuel circumstances, (⟨host, ip⟩ : Started) ∈
      (attackNetwork fuel names preferences [circumstances] true).1 := by
  obtain ⟨hPorts, hIface, hEnd⟩ := hReaches
  obtain ⟨fuel, random, hostlist, hosts, hTarget, hHosts, hMem, hIp⟩ := hTarget
  obtain ⟨fuel', lists, hLists⟩ := (expands_accessLists preferences).ends_iff.mpr hEnd
  have hHosts := (expands_targetHosts names random preferences hostlist).mono
    (Nat.le_max_left fuel fuel') hHosts
  have hLists := (expands_accessLists preferences).mono (Nat.le_max_right fuel fuel') hLists
  let circumstances : Circumstances := ⟨random, fun _ => true, smooth, false⟩
  have hInputs : scanInputs (max fuel fuel') names preferences circumstances =
      .ok (some (hosts, lists)) := by
    rw [scanInputs_eq hTarget hPorts, hHosts]
    simp only [circumstances, applySourceIfacePreference_true, hIface, Except.bind, Bool.not_true,
      Bool.false_eq_true, if_false, hLists]
  have hAuthorized := (authorize_iff_readAllowed (valid_targetHosts hHosts host hMem) hIp hLists).mpr
    hRead
  refine ⟨max fuel fuel', circumstances, ?_⟩
  simp only [attackNetwork, hInputs, Bool.not_true, Bool.and_false, Bool.false_and,
    Bool.false_eq_true, if_false]
  rw [attackHosts_smooth, List.mem_filterMap]
  exact ⟨host, hMem, by simp [hIp, hAuthorized]⟩

/-- The hosts of a call are all allowed when the faulty lists agree. -/
theorem attackHosts_allowed {fuel : Nat} {names : Names} {preferences : Preferences}
    {circumstances : Circumstances} {hosts : List OpenvasHost} {lists : AccessLists}
    {networkPhase : Bool} (hAgree : FaultyListsAgree names preferences)
    (hInputs : scanInputs fuel names preferences circumstances = .ok (some (hosts, lists))) :
    ∀ started ∈ (attackHosts names preferences lists networkPhase circumstances.incident 0 0 hosts).1,
      AccessAllowed preferences started.host started.hostIp := by
  intro started hStarted
  obtain ⟨hMem, hIp, hAuthorized⟩ := mem_attackHosts hStarted
  exact allowed_of_faultyListsAgree hAgree hInputs hMem hIp hAuthorized

/-- Access control is enforced on every run exactly when the expansion of the
strings is defined and the lists with faults, as they are written, let through the targets
that the others let through. -/
theorem access_enforced_iff (names : Names) (preferences : Preferences) :
    AccessEnforced names preferences ↔ FaultyListsAgree names preferences := by
  constructor
  · intro hEnforced
    refine ⟨(scanInputs_defined_iff names preferences).mp fun fuel circumstances hUndefined => ?_, ?_⟩
    · exact (hEnforced fuel [circumstances] true).1 (by simp only [attackNetwork, hUndefined])
    · intro hReaches host ip hTarget hRead
      obtain ⟨fuel, circumstances, hStarted⟩ := started_of_readAllowed hReaches hTarget hRead
      obtain ⟨hDeny, hAllow⟩ := (hEnforced fuel [circumstances] true).2 ⟨host, ip⟩ hStarted
      exact ⟨fun list hList _ => hDeny list hList, fun list hList _ => hAllow list hList⟩
  · intro hAgree fuel calls networkScanDone
    induction calls generalizing networkScanDone with
    | nil => simp [attackNetwork]
    | cons circumstances calls ih =>
        rw [attackNetwork]
        cases hInputs : scanInputs fuel names preferences circumstances with
        | error halt =>
            refine ⟨?_, by simp⟩
            rintro hUndefined
            obtain rfl : halt = .undefined := by simpa using hUndefined
            exact (scanInputs_defined_iff names preferences).mpr hAgree.defined fuel circumstances hInputs
        | ok answer =>
            match answer, hInputs with
            | none, _ => simp
            | some (hosts, lists), hInputs =>
                simp only
                split
                · obtain ⟨hLaterDefined, hLater⟩ := ih _
                  refine ⟨hLaterDefined, fun started hStarted => ?_⟩
                  rcases List.mem_append.mp hStarted with hNow | hThen
                  · exact attackHosts_allowed hAgree hInputs started hNow
                  · exact hLater started hThen
                · exact ⟨by simp, attackHosts_allowed hAgree hInputs⟩

/-- A scan of 192.168.1.1, which is denied next to a block with an impossible prefix length. -/
def misspeltDeny : Preferences := fun name =>
  if name = lit "TARGET" then some (lit "192.168.1.1")
  else if name = lit "port_range" then some (lit "80")
  else if name = lit "hosts_deny" then some (lit "192.168.1.1, 10.0.0.0/31")
  else none

/-- The denied host is scanned. -/
theorem misspelt_deny_scanned :
    ∃ started ∈ (attackNetwork 1 ⟨fun _ => none, fun _ => none, fun _ => none⟩ misspeltDeny
        [⟨id, fun _ => true, smooth, false⟩] false).1,
      ¬ AccessAllowed misspeltDeny started.host started.hostIp := by
  refine ⟨⟨.ipv4 0xc0a80101, ipv4AsIpv6 0xc0a80101⟩, by decide +kernel, ?_⟩
  intro hAllowed
  apply hAllowed.1 (lit "192.168.1.1, 10.0.0.0/31") (by decide +kernel)
  refine ⟨lit "192.168.1.1", by decide +kernel, .inr (.inl ⟨0xc0a80101, ?_, rfl⟩)⟩
  exact ⟨.ipv4, by decide +kernel, (0xc0a80101, 0xc0a80101), by decide +kernel, by decide, by decide⟩

end Attack
