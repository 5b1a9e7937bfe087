import OpenVAS.Hosts.Membership
import OpenVAS.Lib.Split

/-! Cleaning a hosts string, as `clean_hosts` of `manage_sql.c` does it, and the hosts
that the cleaned string stands for. The two splitters agree on an element except where
blanks stand behind other white space in front of it. -/
namespace Hosts

open CString Inet

/-- The text behind leading blanks, up to the next blank. -/
def trimHosts (string : CString) : CString :=
  (string.dropWhile isblank).takeWhile fun c => !isblank c

/-- The texts between the commas; newlines count as commas. -/
def hostParts (givenHosts : CString) : List CString :=
  (givenHosts.map newlineToComma).splitOn (ch ',')

/-- Adds the trimmed texts that are not in the array yet; the maximum goes down for
each of the others. -/
def cleanLoop : List CString → List CString → Option Int → List CString × Option Int
  | [], cleanArray, max => (cleanArray, max)
  | point :: rest, cleanArray, max =>
      let host := trimHosts point
      if host = [] then cleanLoop rest cleanArray max
      else if host ∈ cleanArray then cleanLoop rest cleanArray (max.map (· - 1))
      else cleanLoop rest (cleanArray ++ [host]) max

/-- The first member of an empty array is read through a null pointer, so nothing is defined then. -/
def joinHosts : List CString → Option CString
  | [] => none
  | host :: rest => some (host ++ rest.flatMap (lit ", " ++ ·))

/-- The clean string and the adjusted maximum; `g_strsplit` answers no texts for the empty string. -/
def cleanHosts (givenHosts : CString) (max : Option Int) : Option (CString × Option Int) :=
  if givenHosts = [] then some ([], max)
  else
    let (cleanArray, max) := cleanLoop (hostParts givenHosts) [] max
    (joinHosts cleanArray).map (·, max)

/-! White space at the ends. -/

theorem gStrstrip_gStrstrip (s : CString) : gStrstrip (gStrstrip s) = gStrstrip s := by
  obtain ⟨trail, hText, hTrail⟩ := exists_gStrstrip s
  calc gStrstrip (gStrstrip s)
    _ = gStrstrip (s.takeWhile gAsciiIsspace ++ gStrstrip s ++ trail) :=
        (gStrstrip_pad (fun c hc => List.mem_takeWhile_imp hc) hTrail _).symm
    _ = gStrstrip s := by rw [List.append_assoc, ← hText]

/-! One text between commas. -/

/-- Whether blanks stand behind other white space at the start of a text. -/
def interruptedLead (part : CString) : Bool :=
  ((part.takeWhile gAsciiIsspace).dropWhile isblank).any isblank

/-- What trimming makes of a text without blanks between its white space. -/
theorem gStrstrip_trimHosts {part : CString} (h : ∀ c ∈ gStrstrip part, isblank c = false) :
    gStrstrip (trimHosts part) = if interruptedLead part then [] else gStrstrip part := by
  obtain ⟨trail, hText, hTrail⟩ := exists_gStrstrip part
  by_cases hEmpty : gStrstrip part = []
  · have hSpace : ∀ c ∈ part, gAsciiIsspace c = true := by
      intro c hc
      rw [hText, hEmpty, List.nil_append] at hc
      exact (List.mem_append.mp hc).elim (fun hLead => List.mem_takeWhile_imp hLead) (hTrail c)
    have hTrimmed : gStrstrip (trimHosts part) = [] := (gStrstrip_eq_nil_iff _).mpr fun c hc =>
      hSpace c ((List.dropWhile_sublist _).subset ((List.takeWhile_sublist _).subset hc))
    rw [hTrimmed, hEmpty, ite_self]
  · obtain ⟨first, middle, hBody⟩ := List.exists_cons_of_ne_nil hEmpty
    have hFirst : isblank first = false := h first (by simp [hBody])
    let lead := (part.takeWhile gAsciiIsspace).dropWhile isblank
    have hLead : ∀ c ∈ lead, gAsciiIsspace c = true := fun c hc =>
      List.mem_takeWhile_imp ((List.dropWhile_sublist _).subset hc)
    have hDrop : part.dropWhile isblank = lead ++ (gStrstrip part ++ trail) := by
      conv_lhs => rw [hText]
      rw [List.dropWhile_append]
      split
      · rename_i hBlank
        rw [show lead = [] from List.isEmpty_iff.mp hBlank, hBody]
        simp [hFirst]
      · rfl
    rw [trimHosts, hDrop]
    by_cases hInterrupted : interruptedLead part = true
    · rw [if_pos hInterrupted, List.takeWhile_append]
      obtain ⟨c, hMem, hBlank⟩ := List.any_eq_true.mp hInterrupted
      rw [if_neg]
      · exact (gStrstrip_eq_nil_iff _).mpr fun c hc => hLead c ((List.takeWhile_sublist _).subset hc)
      · intro hLength
        have hAll := List.takeWhile_eq_self_iff.mp
          ((List.takeWhile_sublist (fun c => !isblank c)).eq_of_length hLength)
        simpa [hBlank] using hAll c hMem
    · have hSolid : ∀ c ∈ lead ++ gStrstrip part, (!isblank c) = true := by
        intro c hc
        rw [Bool.not_eq_true']
        rcases List.mem_append.mp hc with hLeft | hRight
        · exact Bool.eq_false_iff.mpr fun hBlank =>
            hInterrupted (List.any_eq_true.mpr ⟨c, hLeft, hBlank⟩)
        · exact h c hRight
      rw [if_neg hInterrupted, ← List.append_assoc, List.takeWhile_append_of_pos hSolid,
        gStrstrip_pad hLead fun c hc => hTrail c ((List.takeWhile_sublist _).subset hc)]
      exact gStrstrip_gStrstrip part

/-! Accepted elements. -/

/-- A text without blanks. -/
def Solid (s : CString) : Prop := ∀ c ∈ s, isblank c = false

theorem Solid.separate {s front back : CString} {sep : UInt8} (hSep : isblank sep = false)
    (hText : separate s sep = some (front, back)) (hFront : Solid front) (hBack : Solid back) :
    Solid s := by
  obtain ⟨rfl, _⟩ := separate_spec hText
  intro c hc
  rcases List.mem_append.mp hc with hLeft | hRight
  · exact hFront c hLeft
  · rcases List.mem_cons.mp hRight with rfl | hLater
    · exact hSep
    · exact hBack c hLater

theorem isblank_of_isxdigit {c : UInt8} (h : isxdigit c = true) : isblank c = false := by
  rw [Bool.eq_false_iff]
  intro hBlank
  simp only [isblank, Bool.or_eq_true, decide_eq_true_eq] at hBlank
  rcases hBlank with rfl | rfl
  · exact absurd h (by decide)
  · exact absurd h (by decide)

theorem solid_of_isIpv6Address {s : CString} (h : isIpv6Address s = true) : Solid s := by
  intro c hc
  rcases mem_of_inetPton6 h hc with hDigit | rfl | rfl
  · exact isblank_of_isxdigit hDigit
  · rfl
  · rfl

theorem solid_of_isIpv4Address {s : CString} (h : isIpv4Address s = true) : Solid s := by
  intro c hc
  rcases mem_of_inetPton4 h hc with hDigit | rfl
  · exact isblank_of_isxdigit (isxdigit_of_isdigit hDigit)
  · rfl

theorem solid_of_isHostname {s : CString} (h : isHostname s = true) : Solid s := by
  rw [isHostname, Bool.and_eq_true] at h
  intro c hc
  have hChar := List.all_eq_true.mp h.1 c hc
  rw [Bool.eq_false_iff]
  intro hBlank
  simp only [isblank, Bool.or_eq_true, decide_eq_true_eq] at hBlank
  rcases hBlank with rfl | rfl
  · exact absurd hChar (by decide)
  · exact absurd hChar (by decide)

theorem solid_of_isAddressAndNumber {isAddress : CString → Bool} {sep : UInt8} {low high : Int}
    {s : CString} (hAddress : ∀ {addr}, isAddress addr = true → Solid addr)
    (hSep : isblank sep = false) (hHigh : high < 2 ^ 63 - 1)
    (h : isAddressAndNumber isAddress sep low high s = true) : Solid s := by
  obtain ⟨addr, number, hText, hAddr, _, hDigits, _⟩ := isAddressAndNumber_spec hHigh h
  exact .separate hSep hText (hAddress hAddr) fun c hc =>
    isblank_of_isxdigit (isxdigit_of_isdigit (List.all_eq_true.mp hDigits c hc))

theorem solid_of_isAddressPair {isAddress : CString → Bool} {s : CString}
    (hAddress : ∀ {addr}, isAddress addr = true → Solid addr)
    (h : isAddressPair isAddress s = true) : Solid s := by
  obtain ⟨first, second, hText, hFirst, hSecond⟩ := isAddressPair_spec h
  exact .separate (by decide) hText (hAddress hFirst) (hAddress hSecond)

theorem solid_of_isShortRange6Network {s : CString} (h : isShortRange6Network s = true) :
    Solid s := by
  rw [isShortRange6Network] at h
  split at h
  · simp at h
  · rename_i addr number hText
    simp only [Bool.and_eq_true, decide_eq_true_eq] at h
    exact .separate (by decide) hText (solid_of_isIpv6Address h.1.1.1) fun c hc =>
      isblank_of_isxdigit (List.all_eq_true.mp h.1.2 c hc)

/-- The elements of an accepted hosts string have no blanks in them. -/
theorem solid_of_determineHostType {element : CString} {type : HostType}
    (h : determineHostType element = some type) : Solid element := by
  have hCheck := check_of_determineHostType h
  cases type with
  | name => exact solid_of_isHostname hCheck
  | ipv4 => exact solid_of_isIpv4Address hCheck
  | ipv6 => exact solid_of_isIpv6Address hCheck
  | cidrBlock => exact solid_of_isAddressAndNumber solid_of_isIpv4Address rfl (by decide) hCheck
  | rangeShort => exact solid_of_isAddressAndNumber solid_of_isIpv4Address rfl (by decide) hCheck
  | cidr6Block => exact solid_of_isAddressAndNumber solid_of_isIpv6Address rfl (by decide) hCheck
  | rangeLong => exact solid_of_isAddressPair solid_of_isIpv4Address hCheck
  | range6Long => exact solid_of_isAddressPair solid_of_isIpv6Address hCheck
  | range6Short => exact solid_of_isShortRange6Network hCheck

/-! Hosts of elements. -/

/-- The hosts that an element adds, in the order in which it adds them. -/
def elementHosts (fuel : Nat) (element : CString) : List OpenvasHost :=
  match addElement 0 fuel element .empty with
  | .ok (some hosts) => hosts.hosts.reverse
  | _ => []

/-- An element can be added. -/
def Expands (fuel : Nat) (element : CString) : Prop :=
  ∃ hosts, addElement 0 fuel element .empty = .ok (some hosts)

section AddressLoop

variable {α : Type} {next : α → α} {notAfter : α → α → Bool} {host : α → OpenvasHost}

/-- What is added does not depend on what is there. -/
theorem addAddresses_prepends {fuel : Nat} {current last : α} {hosts after : OpenvasHosts}
    (h : addAddresses next notAfter host 0 fuel current last hosts = .ok (some after)) :
    ∃ added, after.hosts = added ++ hosts.hosts ∧ ∀ other, ∃ after',
      addAddresses next notAfter host 0 fuel current last other = .ok (some after') ∧
        after'.hosts = added ++ other.hosts := by
  induction fuel generalizing current hosts with
  | zero => simp [addAddresses] at h
  | succ fuel ih =>
      rw [addAddresses] at h
      by_cases hNext : notAfter current last = true
      · simp only [hNext, if_true, exceeds_zero, Bool.false_eq_true, if_false] at h
        obtain ⟨added, hAfter, hOther⟩ := ih h
        refine ⟨added ++ [host current], by simp [hAfter, OpenvasHosts.prepend], fun other => ?_⟩
        obtain ⟨after', hRun, hHosts⟩ := hOther (other.prepend (host current))
        refine ⟨after', ?_, by simp [hHosts, OpenvasHosts.prepend]⟩
        rw [addAddresses]
        simp only [hNext, if_true, exceeds_zero, Bool.false_eq_true, if_false]
        exact hRun
      · simp only [hNext, Bool.false_eq_true, if_false] at h
        obtain rfl := Option.some.inj (Except.ok.inj h)
        refine ⟨[], rfl, fun other => ⟨other, ?_, rfl⟩⟩
        simp [addAddresses, hNext]

theorem addIps_prepends {fuel : Nat} {ips : Ips α} {hosts after : OpenvasHosts}
    (h : addIps next notAfter host 0 fuel ips hosts = .ok (some after)) :
    ∃ added, after.hosts = added ++ hosts.hosts ∧ ∀ other, ∃ after',
      addIps next notAfter host 0 fuel ips other = .ok (some after') ∧
        after'.hosts = added ++ other.hosts := by
  cases ips with
  | failed =>
      obtain rfl := Option.some.inj (Except.ok.inj h)
      exact ⟨[], rfl, fun other => ⟨other, rfl, rfl⟩⟩
  | undefined => simp [addIps] at h
  | range first last =>
      simp only [addIps] at h ⊢
      split at h
      · rename_i hNext
        simp only [hNext, if_true]
        exact addAddresses_prepends h
      · rename_i hEmpty
        obtain rfl := Option.some.inj (Except.ok.inj h)
        exact ⟨[], rfl, fun other => ⟨other, by simp [hEmpty], rfl⟩⟩

end AddressLoop

theorem addElement_prepends {fuel : Nat} {element : CString} {hosts after : OpenvasHosts}
    (h : addElement 0 fuel element hosts = .ok (some after)) :
    ∃ added, after.hosts = added ++ hosts.hosts ∧ ∀ other, ∃ after',
      addElement 0 fuel element other = .ok (some after') ∧
        after'.hosts = added ++ other.hosts := by
  have hSingle : ∀ host, hosts.prepend host = after →
      ∃ added, after.hosts = added ++ hosts.hosts ∧ ∀ other : OpenvasHosts, ∃ after',
        (Except.ok (some (other.prepend host)) : Except Halt (Option OpenvasHosts)) =
          .ok (some after') ∧ after'.hosts = added ++ other.hosts := by
    rintro host rfl
    exact ⟨[host], rfl, fun other => ⟨_, rfl, rfl⟩⟩
  unfold addElement at h ⊢
  split at h
  · exact hSingle _ (Option.some.inj (Except.ok.inj h))
  · exact hSingle _ (Option.some.inj (Except.ok.inj h))
  · exact hSingle _ (Option.some.inj (Except.ok.inj h))
  · exact addIps_prepends h
  · exact addIps_prepends h
  · exact addIps_prepends h
  · exact addIps_prepends h
  · exact addIps_prepends h
  · exact addIps_prepends h
  · simp at h

/-- What an element adds to a collection, given that it can be added to one. -/
theorem addElement_expands {fuel : Nat} {element : CString} (h : Expands fuel element)
    (hosts : OpenvasHosts) : ∃ after, addElement 0 fuel element hosts = .ok (some after) ∧
      after.hosts = (elementHosts fuel element).reverse ++ hosts.hosts := by
  obtain ⟨alone, hAlone⟩ := h
  obtain ⟨added, hHosts, hOther⟩ := addElement_prepends hAlone
  obtain ⟨after, hRun, hAfter⟩ := hOther hosts
  refine ⟨after, hRun, ?_⟩
  have hAdded : alone.hosts = added := by simpa [OpenvasHosts.empty] using hHosts
  rw [hAfter, elementHosts, hAlone, List.reverse_reverse, hAdded]

/-- The elements all expand, and their hosts come one after the other. -/
theorem addElements_ok {fuel : Nat} {elements : List CString} {hosts after : OpenvasHosts}
    (h : addElements 0 fuel elements hosts = .ok (some after)) :
    (∀ e ∈ elements, Expands fuel e) ∧
      after.hosts.reverse = hosts.hosts.reverse ++ elements.flatMap (elementHosts fuel) := by
  induction elements generalizing hosts with
  | nil =>
      obtain rfl := Option.some.inj (Except.ok.inj h)
      simp
  | cons element rest ih =>
      obtain ⟨middle, hElement, hRest⟩ := addElements_cons h
      obtain ⟨_, _, hOther⟩ := addElement_prepends hElement
      obtain ⟨alone, hAlone, _⟩ := hOther .empty
      have hExpands : Expands fuel element := ⟨alone, hAlone⟩
      obtain ⟨middle', hElement', hMiddle⟩ := addElement_expands hExpands hosts
      obtain rfl := Option.some.inj (Except.ok.inj (hElement.symm.trans hElement'))
      obtain ⟨hAll, hAfter⟩ := ih hRest
      refine ⟨List.forall_mem_cons.mpr ⟨hExpands, hAll⟩, ?_⟩
      rw [hAfter, hMiddle, List.reverse_append, List.reverse_reverse, List.append_assoc,
        List.flatMap_cons]

theorem exists_addElements {fuel : Nat} {elements : List CString}
    (h : ∀ e ∈ elements, Expands fuel e) (hosts : OpenvasHosts) :
    ∃ after, addElements 0 fuel elements hosts = .ok (some after) := by
  induction elements generalizing hosts with
  | nil => exact ⟨hosts, rfl⟩
  | cons element rest ih =>
      obtain ⟨hExpands, hRest⟩ := List.forall_mem_cons.mp h
      obtain ⟨middle, hElement, _⟩ := addElement_expands hExpands hosts
      obtain ⟨after, hAfter⟩ := ih hRest middle
      refine ⟨after, ?_⟩
      rw [addElements, hElement]
      simp only [bind, Except.bind, exceeds_zero, Bool.false_eq_true, if_false]
      exact hAfter

/-- The hosts of some elements, each once. -/
def distinctHosts (fuel : Nat) (elements : List CString) : List OpenvasHost :=
  unify (fun host => some (openvasHostValueStr host)) [] (elements.flatMap (elementHosts fuel))

/-- What an accepted string stands for. -/
theorem openvasHostsNew_hosts {fuel : Nat} {hostsStr : CString} {hosts : OpenvasHosts}
    (h : openvasHostsNew fuel (some hostsStr) = .ok (some hosts)) :
    (∀ e ∈ hostElements hostsStr, Expands fuel e) ∧
      hosts.hosts = distinctHosts fuel (hostElements hostsStr) := by
  obtain ⟨built, hBuilt, hHosts⟩ := openvasHostsNew_ok h
  obtain ⟨hAll, hOrder⟩ := addElements_ok hBuilt
  refine ⟨hAll, ?_⟩
  rw [hHosts, hOrder]
  rfl

theorem exists_openvasHostsNew {fuel : Nat} {hostsStr : CString}
    (h : ∀ e ∈ hostElements hostsStr, Expands fuel e) :
    ∃ hosts, openvasHostsNew fuel (some hostsStr) = .ok (some hosts) := by
  obtain ⟨built, hBuilt⟩ := exists_addElements h .empty
  refine ⟨openvasHostsDeduplicate { built with hosts := built.hosts.reverse }, ?_⟩
  rw [openvasHostsNew, openvasHostsNewWithMax, hBuilt]
  rfl

theorem solid_of_expands {fuel : Nat} {element : CString} (h : Expands fuel element) :
    Solid element := by
  obtain ⟨hosts, hRun⟩ := h
  cases hType : determineHostType element with
  | none => simp [addElement, hType] at hRun
  | some type => exact solid_of_determineHostType hType

/-! Hosts that are there already. -/

section Unify

variable {key : OpenvasHost → CString} {table : List CString}

theorem unify_congr {table' : List CString} (h : ∀ name, name ∈ table ↔ name ∈ table')
    (hosts : List OpenvasHost) :
    unify (fun host => some (key host)) table hosts =
      unify (fun host => some (key host)) table' hosts := by
  induction hosts generalizing table table' with
  | nil => rfl
  | cons host rest ih =>
      have hMore : ∀ name, name ∈ key host :: table ↔ name ∈ key host :: table' := fun name => by
        rw [List.mem_cons, List.mem_cons, h name]
      simp only [unify, h (key host), ih h, ih hMore]

theorem unify_append (hosts hosts' : List OpenvasHost) :
    unify (fun host => some (key host)) table (hosts ++ hosts') =
      unify (fun host => some (key host)) table hosts ++
        unify (fun host => some (key host)) (hosts.map key ++ table) hosts' := by
  induction hosts generalizing table with
  | nil => rfl
  | cons host rest ih =>
      by_cases hSeen : key host ∈ table
      · have hSame : ∀ name, name ∈ rest.map key ++ table ↔
            name ∈ (host :: rest).map key ++ table := fun name => by
          simp only [List.map_cons, List.cons_append, List.mem_cons, List.mem_append]
          constructor
          · exact .inr
          · rintro (rfl | hName)
            · exact .inr hSeen
            · exact hName
        simp only [List.cons_append, unify, hSeen, if_true, ih, unify_congr hSame]
      · have hSame : ∀ name, name ∈ rest.map key ++ key host :: table ↔
            name ∈ (host :: rest).map key ++ table := fun name => by
          simp only [List.map_cons, List.cons_append, List.mem_cons, List.mem_append]
          tauto
        simp only [List.cons_append, unify, hSeen, if_false, ih, unify_congr hSame]

theorem unify_seen {hosts : List OpenvasHost} (h : ∀ host ∈ hosts, key host ∈ table) :
    unify (fun host => some (key host)) table hosts = [] := by
  induction hosts with
  | nil => rfl
  | cons host rest ih =>
      obtain ⟨hFirst, hRest⟩ := List.forall_mem_cons.mp h
      simp only [unify, hFirst, if_true, ih hRest]

/-- Hosts that occurred before can be left out. -/
theorem unify_skip {front again : List OpenvasHost} (h : ∀ host ∈ again, host ∈ front)
    (back : List OpenvasHost) :
    unify (fun host => some (key host)) table (front ++ (again ++ back)) =
      unify (fun host => some (key host)) table (front ++ back) := by
  have hSeen : ∀ host ∈ again, key host ∈ front.map key ++ table := fun host hHost =>
    List.mem_append_left _ (List.mem_map_of_mem (h host hHost))
  have hSame : ∀ name, name ∈ again.map key ++ (front.map key ++ table) ↔
      name ∈ front.map key ++ table := by
    intro name
    rw [List.mem_append]
    constructor
    · rintro (hAgain | hOld)
      · obtain ⟨host, hHost, rfl⟩ := List.mem_map.mp hAgain
        exact hSeen host hHost
      · exact hOld
    · exact .inr
  rw [unify_append, unify_append, unify_append, unify_seen hSeen, List.nil_append,
    unify_congr hSame]

end Unify

/-! The array of the cleaned hosts. -/

/-- The elements that the scanner reads from some texts. -/
def strippedElements (texts : List CString) : List CString :=
  (texts.map gStrstrip).filter (· ≠ [])

theorem strippedElements_append (texts texts' : List CString) :
    strippedElements (texts ++ texts') = strippedElements texts ++ strippedElements texts' := by
  simp [strippedElements]

theorem strippedElements_subset {texts texts' : List CString} (h : ∀ text ∈ texts, text ∈ texts') :
    ∀ element ∈ strippedElements texts, element ∈ strippedElements texts' := by
  intro element hElement
  rw [strippedElements, List.mem_filter, List.mem_map] at hElement ⊢
  obtain ⟨⟨text, hText, hStrip⟩, hNe⟩ := hElement
  exact ⟨⟨text, h text hText, hStrip⟩, hNe⟩

/-- Leaving out the empty texts and the repeated ones does not change the hosts. -/
theorem distinctHosts_cleanLoop (fuel : Nat) (points cleanArray : List CString) (max : Option Int) :
    distinctHosts fuel (strippedElements (cleanLoop points cleanArray max).1) =
      distinctHosts fuel (strippedElements (cleanArray ++ points.map trimHosts)) := by
  induction points generalizing cleanArray max with
  | nil => simp [cleanLoop]
  | cons point rest ih =>
      rw [cleanLoop]
      by_cases hEmpty : trimHosts point = []
      · simp only [hEmpty, if_true, ih, List.map_cons]
        rw [strippedElements_append, strippedElements_append]
        rfl
      · by_cases hSeen : trimHosts point ∈ cleanArray
        · simp only [hEmpty, if_false, hSeen, if_true, ih, List.map_cons]
          rw [List.append_cons, strippedElements_append, strippedElements_append,
            strippedElements_append, distinctHosts, distinctHosts, List.flatMap_append,
            List.flatMap_append, List.flatMap_append, List.append_assoc]
          refine (unify_skip (fun host hHost => ?_) _).symm
          rw [List.mem_flatMap] at hHost ⊢
          obtain ⟨element, hElement, hIn⟩ := hHost
          refine ⟨element, strippedElements_subset (fun text hText => ?_) element hElement, hIn⟩
          rwa [List.mem_singleton.mp hText]
        · simp only [hEmpty, if_false, hSeen, ih, List.map_cons, List.append_assoc,
            List.singleton_append]

/-- What the texts in the array are like: each is there once, and they have neither
blanks nor separators in them. -/
structure CleanArray (cleanArray : List CString) : Prop where
  nodup : cleanArray.Nodup
  ne_nil : ∀ host ∈ cleanArray, host ≠ []
  solid : ∀ host ∈ cleanArray, Solid host
  comma : ∀ host ∈ cleanArray, ch ',' ∉ host
  newline : ∀ host ∈ cleanArray, ch '\n' ∉ host

theorem solid_trimHosts (string : CString) : Solid (trimHosts string) := fun c hc => by
  have hTaken : (!isblank c) = true :=
    @List.mem_takeWhile_imp _ (fun c => !isblank c) _ _ hc
  rwa [Bool.not_eq_true'] at hTaken

theorem trimHosts_sublist (string : CString) : (trimHosts string).Sublist string :=
  (List.takeWhile_sublist _).trans (List.dropWhile_sublist _)

theorem trimHosts_solid {host : CString} (h : Solid host) : trimHosts host = host := by
  have hDrop : host.dropWhile isblank = host := by
    cases host with
    | nil => rfl
    | cons c rest =>
        rw [List.dropWhile_cons_of_neg]
        rw [h c (List.mem_cons_self ..)]
        decide
  rw [trimHosts, hDrop, List.takeWhile_eq_self_iff]
  intro c hc
  rw [Bool.not_eq_true']
  exact h c hc

theorem trimHosts_eq_nil_iff {string : CString} :
    trimHosts string = [] ↔ ∀ c ∈ string, isblank c = true := by
  constructor
  · intro h
    rw [← List.dropWhile_eq_nil_iff]
    have hHead := List.head?_dropWhile_not isblank string
    rw [trimHosts] at h
    cases hRest : string.dropWhile isblank with
    | nil => rfl
    | cons c rest =>
        rw [hRest] at h hHead
        simp only [List.head?_cons] at hHead
        simp [hHead] at h
  · intro h
    rw [trimHosts, List.dropWhile_eq_nil_iff.mpr h]
    rfl

theorem cleanLoop_clean {points cleanArray : List CString} (h : CleanArray cleanArray)
    (hComma : ∀ point ∈ points, ch ',' ∉ point) (hNewline : ∀ point ∈ points, ch '\n' ∉ point)
    (max : Option Int) : CleanArray (cleanLoop points cleanArray max).1 := by
  induction points generalizing cleanArray max with
  | nil => exact h
  | cons point rest ih =>
      obtain ⟨hComma, hCommas⟩ := List.forall_mem_cons.mp hComma
      obtain ⟨hNewline, hNewlines⟩ := List.forall_mem_cons.mp hNewline
      rw [cleanLoop]
      split
      · exact ih h hCommas hNewlines max
      · rename_i hNe
        split
        · exact ih h hCommas hNewlines _
        · rename_i hNew
          have hAdd : ∀ {good : CString → Prop}, (∀ host ∈ cleanArray, good host) →
              good (trimHosts point) → ∀ host ∈ cleanArray ++ [trimHosts point], good host := by
            intro good hOld hPoint host hHost
            rcases List.mem_append.mp hHost with hIn | hLast
            · exact hOld host hIn
            · rwa [List.mem_singleton.mp hLast]
          have hGrown : CleanArray (cleanArray ++ [trimHosts point]) := {
            nodup := by
              rw [List.nodup_append]
              refine ⟨h.nodup, by simp, fun host hHost other hOther => ?_⟩
              rintro rfl
              exact hNew (List.mem_singleton.mp hOther ▸ hHost)
            ne_nil := hAdd h.ne_nil hNe
            solid := hAdd h.solid (solid_trimHosts point)
            comma := hAdd h.comma fun hIn => hComma ((trimHosts_sublist point).subset hIn)
            newline := hAdd h.newline fun hIn => hNewline ((trimHosts_sublist point).subset hIn)
          }
          exact ih hGrown hCommas hNewlines max

theorem mem_cleanLoop {points cleanArray : List CString} {max : Option Int} {host : CString}
    (h : host ∈ (cleanLoop points cleanArray max).1) :
    host ∈ cleanArray ∨ host ∈ points.map trimHosts := by
  induction points generalizing cleanArray max with
  | nil => exact .inl h
  | cons point rest ih =>
      rw [List.map_cons, List.mem_cons]
      rw [cleanLoop] at h
      split at h
      · exact (ih h).imp_right .inr
      · split at h
        · exact (ih h).imp_right .inr
        · rcases ih h with hArray | hRest
          · rcases List.mem_append.mp hArray with hOld | hLast
            · exact .inl hOld
            · exact .inr (.inl (List.mem_singleton.mp hLast))
          · exact .inr (.inr hRest)

theorem cleanLoop_eq_nil_iff {points cleanArray : List CString} {max : Option Int} :
    (cleanLoop points cleanArray max).1 = [] ↔
      cleanArray = [] ∧ ∀ point ∈ points, trimHosts point = [] := by
  induction points generalizing cleanArray max with
  | nil => simp [cleanLoop]
  | cons point rest ih =>
      rw [cleanLoop]
      by_cases hEmpty : trimHosts point = []
      · simp [hEmpty, ih]
      · by_cases hSeen : trimHosts point ∈ cleanArray
        · simp [hEmpty, hSeen, ih, List.ne_nil_of_mem hSeen]
        · simp [hEmpty, hSeen, ih]

/-- Texts that are all new once they are trimmed are added as they come. -/
theorem cleanLoop_new {points cleanArray : List CString} (hNe : ∀ point ∈ points, trimHosts point ≠ [])
    (hNodup : (cleanArray ++ points.map trimHosts).Nodup) (max : Option Int) :
    cleanLoop points cleanArray max = (cleanArray ++ points.map trimHosts, max) := by
  induction points generalizing cleanArray with
  | nil => simp [cleanLoop]
  | cons point rest ih =>
      obtain ⟨hPoint, hRest⟩ := List.forall_mem_cons.mp hNe
      have hNew : trimHosts point ∉ cleanArray := by
        intro hMem
        exact (List.nodup_append.mp hNodup).2.2 _ hMem _ (by simp) rfl
      rw [List.map_cons, List.append_cons] at hNodup ⊢
      rw [cleanLoop, if_neg hPoint, if_neg hNew, ih hRest hNodup]

/-! The string that is joined from the array. -/

theorem splitOn_join {first : CString} {rest : List CString} (hFirst : ch ',' ∉ first)
    (hRest : ∀ host ∈ rest, ch ',' ∉ host) :
    (first ++ rest.flatMap (lit ", " ++ ·)).splitOn (ch ',') =
      first :: rest.map (ch ' ' :: ·) := by
  induction rest generalizing first with
  | nil =>
      rw [Split.splitOn_append hFirst]
      simp
  | cons host rest ih =>
      obtain ⟨hHost, hOthers⟩ := List.forall_mem_cons.mp hRest
      have hBlank : ch ',' ∉ ch ' ' :: host := by
        rw [List.mem_cons]
        rintro (hFalse | hIn)
        · exact absurd hFalse (by decide)
        · exact hHost hIn
      have hText : (host :: rest).flatMap (lit ", " ++ ·) =
          ch ',' :: ((ch ' ' :: host) ++ rest.flatMap (lit ", " ++ ·)) := rfl
      rw [hText, Split.splitOn_append hFirst, List.splitOn_cons_eq_if_modifyHead,
        if_pos (by simp), ih hBlank hOthers]
      simp

theorem hostParts_join {first : CString} {rest : List CString} (h : CleanArray (first :: rest)) :
    hostParts (first ++ rest.flatMap (lit ", " ++ ·)) = first :: rest.map (ch ' ' :: ·) := by
  have hNewline : ch '\n' ∉ first ++ rest.flatMap (lit ", " ++ ·) := by
    rw [List.mem_append, List.mem_flatMap]
    rintro (hIn | ⟨host, hHost, hIn⟩)
    · exact h.newline first (List.mem_cons_self ..) hIn
    · rcases List.mem_append.mp hIn with hSep | hText
      · exact absurd hSep (by decide)
      · exact h.newline host (List.mem_cons_of_mem _ hHost) hText
  rw [hostParts, map_newlineToComma hNewline]
  exact splitOn_join (h.comma first (List.mem_cons_self ..)) fun host hHost =>
    h.comma host (List.mem_cons_of_mem _ hHost)

/-- The texts come out of the joined string as they are. -/
theorem trimHosts_join {first : CString} {rest : List CString} (h : CleanArray (first :: rest)) :
    (hostParts (first ++ rest.flatMap (lit ", " ++ ·))).map trimHosts = first :: rest := by
  have hBlank : ∀ host, trimHosts (ch ' ' :: host) = trimHosts host := fun host => rfl
  rw [hostParts_join h, List.map_cons, trimHosts_solid (h.solid first (List.mem_cons_self ..)),
    List.map_map]
  refine congrArg _ ?_
  conv_rhs => rw [← List.map_id rest]
  refine List.map_congr_left fun host hHost => ?_
  rw [Function.comp_apply, hBlank]
  exact trimHosts_solid (h.solid host (List.mem_cons_of_mem _ hHost))

/-- Cleaning changes nothing in a string that is joined from a clean array. -/
theorem cleanHosts_join {first : CString} {rest : List CString} (h : CleanArray (first :: rest))
    (max : Option Int) :
    cleanHosts (first ++ rest.flatMap (lit ", " ++ ·)) max =
      some (first ++ rest.flatMap (lit ", " ++ ·), max) := by
  have hTrimmed := trimHosts_join h
  have hNe : ∀ point ∈ hostParts (first ++ rest.flatMap (lit ", " ++ ·)), trimHosts point ≠ [] :=
    fun point hPoint => h.ne_nil _ (hTrimmed ▸ List.mem_map_of_mem hPoint)
  have hLoop := @cleanLoop_new _ [] hNe (by rw [hTrimmed]; exact h.nodup) max
  rw [hTrimmed, List.nil_append] at hLoop
  have hFirst := h.ne_nil first (List.mem_cons_self ..)
  rw [cleanHosts, if_neg (by simp [hFirst]), hLoop]
  rfl

/-- The scanner reads the texts of the array from the joined string. -/
theorem hostElements_join {first : CString} {rest : List CString} (h : CleanArray (first :: rest)) :
    hostElements (first ++ rest.flatMap (lit ", " ++ ·)) = strippedElements (first :: rest) := by
  have hBlank : ∀ host : CString, gStrstrip (ch ' ' :: host) = gStrstrip host := fun host => rfl
  have hParts : hostElements (first ++ rest.flatMap (lit ", " ++ ·)) =
      strippedElements (hostParts (first ++ rest.flatMap (lit ", " ++ ·))) := rfl
  rw [hParts, hostParts_join h, strippedElements, strippedElements, List.map_cons, List.map_cons,
    List.map_map]
  refine congrArg _ (congrArg _ (List.map_congr_left fun host _ => hBlank host))

/-! Parts of a hosts string. -/

theorem mem_of_mem_hostParts {givenHosts part : CString} (h : part ∈ hostParts givenHosts)
    {c : UInt8} (hc : c ∈ part) : c ∈ givenHosts ∧ c ≠ ch ',' ∧ c ≠ ch '\n' := by
  have hComma : c ≠ ch ',' := fun he => Split.not_mem_of_mem_splitOn h (he ▸ hc)
  have hMem : c ∈ givenHosts.map newlineToComma := Split.mem_of_mem_splitOn h hc
  obtain ⟨d, hd, rfl⟩ := List.mem_map.mp hMem
  rw [newlineToComma] at hComma ⊢
  split
  · rename_i hNewline
    exact absurd (if_pos hNewline) hComma
  · rename_i hOther
    rw [if_neg hOther] at hComma
    exact ⟨hd, hComma, hOther⟩

/-- A string has something in it besides blanks and separators. -/
def HasText (givenHosts : CString) : Prop :=
  ∃ c ∈ givenHosts, isblank c = false ∧ c ≠ ch ',' ∧ c ≠ ch '\n'

theorem hasText_iff {givenHosts : CString} :
    HasText givenHosts ↔ ¬ ∀ part ∈ hostParts givenHosts, trimHosts part = [] := by
  constructor
  · rintro ⟨c, hMem, hBlank, hComma, hNewline⟩ hEmpty
    have hMapped : c ∈ givenHosts.map newlineToComma := by
      refine List.mem_map.mpr ⟨c, hMem, ?_⟩
      rw [newlineToComma, if_neg hNewline]
    obtain ⟨part, hPart, hIn⟩ := Split.exists_mem_splitOn hMapped hComma
    have hAll := trimHosts_eq_nil_iff.mp (hEmpty part hPart) c hIn
    rw [hBlank] at hAll
    exact Bool.false_ne_true hAll
  · intro hSome
    push Not at hSome
    obtain ⟨part, hPart, hNe⟩ := hSome
    rw [Ne, trimHosts_eq_nil_iff] at hNe
    push Not at hNe
    obtain ⟨c, hc, hSolid⟩ := hNe
    obtain ⟨hMem, hComma, hNewline⟩ := mem_of_mem_hostParts hPart hc
    exact ⟨c, hMem, Bool.eq_false_iff.mpr hSolid, hComma, hNewline⟩

/-- The elements whose white space in front is not interrupted. -/
def keptElements (givenHosts : CString) : List CString :=
  strippedElements ((hostParts givenHosts).filter fun part => !interruptedLead part)

theorem strippedElements_trimHosts {parts : List CString}
    (h : ∀ element ∈ strippedElements parts, Solid element) :
    strippedElements (parts.map trimHosts) =
      strippedElements (parts.filter fun part => !interruptedLead part) := by
  induction parts with
  | nil => rfl
  | cons part rest ih =>
      have hSolid : Solid (gStrstrip part) := by
        by_cases hEmpty : gStrstrip part = []
        · rw [hEmpty]
          exact fun c hc => absurd hc List.not_mem_nil
        · exact h _ (by simp [strippedElements, hEmpty])
      have hRest := ih fun element hElement => h element (by
        rw [← List.singleton_append, strippedElements_append]
        exact List.mem_append_right _ hElement)
      have hOne : strippedElements [trimHosts part] =
          if interruptedLead part then [] else strippedElements [part] := by
        rw [strippedElements, List.map_singleton, gStrstrip_trimHosts hSolid]
        split
        · rfl
        · rfl
      rw [List.map_cons, ← List.singleton_append, strippedElements_append, hRest, hOne]
      by_cases hLost : interruptedLead part = true
      · rw [List.filter_cons_of_neg (by simp [hLost]), if_pos hLost, List.nil_append]
      · rw [List.filter_cons_of_pos (by simp [hLost]), if_neg hLost, ← strippedElements_append,
          List.singleton_append]

/-! The cleaned string. -/

/-- The cleaned string stands for the hosts of the given one in their order, and cleaning
it again changes nothing. -/
def Preserves (fuel : Nat) (givenHosts : CString) (max : Option Int) (hosts : OpenvasHosts) : Prop :=
  ∃ clean max', cleanHosts givenHosts max = some (clean, max') ∧
    (∃ hosts', openvasHostsNew fuel (some clean) = .ok (some hosts') ∧
      hosts'.hosts = hosts.hosts) ∧
    ∀ max, cleanHosts clean max = some (clean, max)

/-- What cleaning answers for a string with some text in it. -/
theorem cleanHosts_spec {givenHosts : CString} (h : HasText givenHosts) (max : Option Int) :
    ∃ first rest max', CleanArray (first :: rest) ∧
      cleanHosts givenHosts max = some (first ++ rest.flatMap (lit ", " ++ ·), max') ∧
      (∀ host ∈ first :: rest, host ∈ (hostParts givenHosts).map trimHosts) ∧
      ∀ fuel, distinctHosts fuel (strippedElements (first :: rest)) =
        distinctHosts fuel (strippedElements ((hostParts givenHosts).map trimHosts)) := by
  have hEmptyArray : CleanArray [] := ⟨List.nodup_nil, by simp, by simp, by simp, by simp⟩
  have hClean : CleanArray (cleanLoop (hostParts givenHosts) [] max).1 := cleanLoop_clean hEmptyArray
    (fun part hPart hIn => (mem_of_mem_hostParts hPart hIn).2.1 rfl)
    (fun part hPart hIn => (mem_of_mem_hostParts hPart hIn).2.2 rfl) max
  have hNe : (cleanLoop (hostParts givenHosts) [] max).1 ≠ [] := fun hNil =>
    hasText_iff.mp h (cleanLoop_eq_nil_iff.mp hNil).2
  have hGiven : givenHosts ≠ [] := by
    rintro rfl
    obtain ⟨c, hMem, _⟩ := h
    exact List.not_mem_nil hMem
  obtain ⟨first, rest, hArray⟩ := List.exists_cons_of_ne_nil hNe
  refine ⟨first, rest, (cleanLoop (hostParts givenHosts) [] max).2, hArray ▸ hClean, ?_, ?_, ?_⟩
  · rw [cleanHosts, if_neg hGiven]
    simp only [hArray, joinHosts, Option.map_some]
  · intro host hHost
    exact (mem_cleanLoop (hArray ▸ hHost)).resolve_left List.not_mem_nil
  · intro fuel
    rw [← hArray, distinctHosts_cleanLoop, List.nil_append]

/-- Where a string has nothing in it but blanks and separators, cleaning it is not defined. -/
theorem cleanHosts_eq_none {givenHosts : CString} (hNe : givenHosts ≠ [])
    (h : ¬ HasText givenHosts) (max : Option Int) : cleanHosts givenHosts max = none := by
  rw [hasText_iff, not_not] at h
  have hArray : (cleanLoop (hostParts givenHosts) [] max).1 = [] :=
    cleanLoop_eq_nil_iff.mpr ⟨rfl, h⟩
  rw [cleanHosts, if_neg hNe]
  simp only [hArray, joinHosts, Option.map_none]

/-- Cleaning an accepted string preserves its hosts if and only if the string is empty or has some
text in it, and the elements with an interrupted lead do not matter for the hosts. -/
theorem cleanHosts_preserves_iff {fuel : Nat} {givenHosts : CString} {hosts : OpenvasHosts}
    (h : openvasHostsNew fuel (some givenHosts) = .ok (some hosts)) (max : Option Int) :
    Preserves fuel givenHosts max hosts ↔
      (givenHosts = [] ∨ HasText givenHosts) ∧
        distinctHosts fuel (keptElements givenHosts) =
          distinctHosts fuel (hostElements givenHosts) := by
  obtain ⟨hAll, hHosts⟩ := openvasHostsNew_hosts h
  by_cases hEmpty : givenHosts = []
  · subst hEmpty
    have hSame : distinctHosts fuel (keptElements []) = distinctHosts fuel (hostElements []) := rfl
    refine ⟨fun _ => ⟨.inl rfl, hSame⟩, fun _ => ⟨[], max, rfl, ⟨hosts, h, rfl⟩, fun _ => rfl⟩⟩
  · by_cases hText : HasText givenHosts
    · obtain ⟨first, rest, max', hClean, hAnswer, hTexts, hSame⟩ := cleanHosts_spec hText max
      have hTrimmed : strippedElements ((hostParts givenHosts).map trimHosts) =
          keptElements givenHosts := strippedElements_trimHosts fun element hElement =>
        solid_of_expands (hAll element hElement)
      have hKept : distinctHosts fuel (hostElements (first ++ rest.flatMap (lit ", " ++ ·))) =
          distinctHosts fuel (keptElements givenHosts) := by
        rw [hostElements_join hClean, hSame, hTrimmed]
      have hExpands : ∀ element ∈ hostElements (first ++ rest.flatMap (lit ", " ++ ·)),
          Expands fuel element := by
        intro element hElement
        rw [hostElements_join hClean] at hElement
        have hOld : element ∈ keptElements givenHosts :=
          hTrimmed ▸ strippedElements_subset hTexts element hElement
        exact hAll element (strippedElements_subset (fun part hPart => List.mem_of_mem_filter hPart)
          element hOld)
      obtain ⟨hosts', hNew⟩ := exists_openvasHostsNew hExpands
      have hHosts' := (openvasHostsNew_hosts hNew).2.trans hKept
      constructor
      · rintro ⟨clean, max'', hClean', ⟨hosts'', hNew', hSame'⟩, _⟩
        obtain ⟨rfl, rfl⟩ := Prod.mk.inj (Option.some.inj (hAnswer.symm.trans hClean'))
        obtain rfl := Option.some.inj (Except.ok.inj (hNew.symm.trans hNew'))
        exact ⟨.inr hText, hHosts'.symm.trans (hSame'.trans hHosts)⟩
      · rintro ⟨_, hDistinct⟩
        exact ⟨_, max', hAnswer, ⟨hosts', hNew, hHosts'.trans (hDistinct.trans hHosts.symm)⟩,
          cleanHosts_join hClean⟩
    · have hNone := cleanHosts_eq_none hEmpty hText max
      refine ⟨fun ⟨clean, max', hAnswer, _⟩ => ?_, fun hGood => ?_⟩
      · rw [hNone] at hAnswer
        exact absurd hAnswer (by simp)
      · exact absurd hGood.1 (by simp [hEmpty, hText])

/-- A string with an address given twice, over two lines. -/
theorem cleanHosts_preserves_repeated :
    Preserves 1 (lit "192.168.1.1,\n 192.168.1.2 \t\n192.168.1.1") (some 2)
      { hosts := [.ipv4 0xc0a80101, .ipv4 0xc0a80102]
        current := [.ipv4 0xc0a80101, .ipv4 0xc0a80102]
        count := 2
        removed := 1 } := by
  refine (cleanHosts_preserves_iff ?_ (some 2)).mpr ⟨.inr ⟨ch '1', by decide, by decide⟩, ?_⟩
  · decide +kernel
  · decide +kernel

/-- A carriage return and a blank in front of an address: the address is lost. -/
theorem cleanHosts_loses_host :
    ¬ ∀ fuel givenHosts max hosts, openvasHostsNew fuel (some givenHosts) = .ok (some hosts) →
      Preserves fuel givenHosts max hosts := by
  intro h
  have hNew : openvasHostsNew 1 (some (lit "192.168.1.1,\r 192.168.1.2")) = .ok (some
      { hosts := [.ipv4 0xc0a80101, .ipv4 0xc0a80102]
        current := [.ipv4 0xc0a80101, .ipv4 0xc0a80102]
        count := 2
        removed := 0 }) := by decide +kernel
  have hClean : cleanHosts (lit "192.168.1.1,\r 192.168.1.2") none =
      some (lit "192.168.1.1, \r", none) := by decide +kernel
  have hLess : openvasHostsNew 1 (some (lit "192.168.1.1, \r")) = .ok (some
      { hosts := [.ipv4 0xc0a80101], current := [.ipv4 0xc0a80101], count := 1, removed := 0 }) := by
    decide +kernel
  obtain ⟨clean, max', hAnswer, ⟨hosts', hNew', hSame⟩, _⟩ := h 1 _ none _ hNew
  obtain ⟨rfl, rfl⟩ := Prod.mk.inj (Option.some.inj (hClean.symm.trans hAnswer))
  obtain rfl := Option.some.inj (Except.ok.inj (hLess.symm.trans hNew'))
  exact absurd hSame (by decide)

end Hosts
