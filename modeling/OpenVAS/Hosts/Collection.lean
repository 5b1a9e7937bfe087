import OpenVAS.Hosts.Membership
import OpenVAS.Lib.Run
import Mathlib.Data.List.Perm.Basic

/-! The bookkeeping of a hosts collection along any sequence of calls: its count,
the number of removed hosts, the list itself and the position of the iteration. -/
namespace Hosts

open CString

/-! Counting. -/

/-- The count of a collection, in the width it has, is the length of its list. -/
def Counts (hosts : OpenvasHosts) : Prop := hosts.count = UInt32.ofNat hosts.hosts.length

theorem counts_prepend {hosts : OpenvasHosts} (h : Counts hosts) (host : OpenvasHost) :
    Counts (hosts.prepend host) := by
  rw [Counts] at h
  simp only [Counts, OpenvasHosts.prepend, h, List.length_cons, UInt32.ofNat_add]
  rfl

theorem counts_keep {hosts : OpenvasHosts} {kept : List OpenvasHost} (h : Counts hosts)
    (hKept : kept.length ≤ hosts.hosts.length) : Counts (hosts.keep kept) := by
  have hSum : UInt32.ofNat hosts.hosts.length =
      UInt32.ofNat kept.length + UInt32.ofNat (hosts.hosts.length - kept.length) := by
    rw [← UInt32.ofNat_add, Nat.add_sub_cancel' hKept]
  rw [Counts] at h
  simp only [Counts, OpenvasHosts.keep, h]
  rw [hSum, UInt32.add_sub_cancel]

theorem counts_addElements {maxHosts : UInt32} {fuel : Nat} {elements : List CString}
    {built : OpenvasHosts} (h : addElements maxHosts fuel elements .empty = .ok (some built)) :
    Counts built ∧ built.removed = 0 := by
  have hPrepend : ∀ (hosts : OpenvasHosts) host, ValidHost host →
      Counts hosts ∧ hosts.removed = 0 →
      Counts (hosts.prepend host) ∧ (hosts.prepend host).removed = 0 :=
    fun hosts host _ hGood => ⟨counts_prepend hGood.1 host, hGood.2⟩
  have hEmpty : Counts .empty ∧ OpenvasHosts.empty.removed = 0 := ⟨rfl, rfl⟩
  exact addElements_invariant hPrepend hEmpty h

theorem unify_sublist (key : OpenvasHost → Option CString) (table : List CString)
    (hosts : List OpenvasHost) : (unify key table hosts).Sublist hosts := by
  induction hosts generalizing table with
  | nil => simp [unify]
  | cons host rest ih =>
      rw [unify]
      split
      · exact (ih table).cons_cons host
      · split
        · exact (ih table).cons host
        · exact (ih _).cons_cons host

/-- No printed value is left twice, and none that was in the table at the start. -/
theorem nodup_unify (table : List CString) (hosts : List OpenvasHost) :
    ((unify (fun host => some (openvasHostValueStr host)) table hosts).map
      openvasHostValueStr).Nodup ∧
    ∀ name ∈ table,
      name ∉ (unify (fun host => some (openvasHostValueStr host)) table hosts).map
        openvasHostValueStr := by
  induction hosts generalizing table with
  | nil => simp [unify]
  | cons host rest ih =>
      by_cases hSeen : openvasHostValueStr host ∈ table
      · simp only [unify, hSeen, if_true]
        exact ih table
      · obtain ⟨hNodup, hOther⟩ := ih (openvasHostValueStr host :: table)
        simp only [unify, hSeen, if_false, List.map_cons, List.nodup_cons]
        refine ⟨⟨hOther _ (by simp), hNodup⟩, fun name hName hMem => ?_⟩
        rcases List.mem_cons.mp hMem with rfl | hLater
        · exact hSeen hName
        · exact hOther name (List.mem_cons_of_mem _ hName) hLater

/-! Collections from a string. -/

/-- How a collection comes out of the list that its string is expanded to. -/
theorem openvasHostsNew_eq {fuel : Nat} {hostsStr : CString} {hosts built : OpenvasHosts}
    (h : openvasHostsNew fuel (some hostsStr) = .ok (some hosts))
    (hBuilt : addElements 0 fuel (hostElements hostsStr) .empty = .ok (some built)) :
    hosts = openvasHostsDeduplicate { built with hosts := built.hosts.reverse } := by
  obtain ⟨answer, hAnswer, hRest⟩ := Except.bind_eq_ok.mp h
  obtain rfl := Except.ok.inj (hBuilt.symm.trans hAnswer)
  exact (Option.some.inj (Except.ok.inj hRest)).symm

theorem counts_openvasHostsNew {fuel : Nat} {hostsStr : CString} {hosts : OpenvasHosts}
    (h : openvasHostsNew fuel (some hostsStr) = .ok (some hosts)) : Counts hosts := by
  obtain ⟨built, hBuilt, _⟩ := openvasHostsNew_ok h
  rw [openvasHostsNew_eq h hBuilt]
  refine counts_keep ?_ (unify_sublist _ _ _).length_le
  simpa [Counts] using (counts_addElements hBuilt).1

theorem nodup_openvasHostsNew {fuel : Nat} {hostsStr : CString} {hosts : OpenvasHosts}
    (h : openvasHostsNew fuel (some hostsStr) = .ok (some hosts)) :
    (hosts.hosts.map openvasHostValueStr).Nodup := by
  obtain ⟨built, _, hHosts⟩ := openvasHostsNew_ok h
  rw [hHosts]
  exact (nodup_unify [] _).1

/-! What the calls keep. -/

/-- The bookkeeping of a collection that `expanded` hosts were expanded for, and whose list
was `original` at the start. -/
structure WellFormed (expanded : Nat) (original : List OpenvasHost) (hosts : OpenvasHosts) :
    Prop where
  count_eq : hosts.count.toNat = hosts.hosts.length
  total_eq : hosts.count.toNat + hosts.removed.toNat = expanded
  distinct : (hosts.hosts.map openvasHostValueStr).Nodup
  sub : hosts.hosts.Subperm original
  -- The iteration is somewhere in the list.
  suffix : hosts.current <:+ hosts.hosts

section Bookkeeping

variable {expanded : Nat} {original : List OpenvasHost} {hosts : OpenvasHosts}

/-- The counters follow when hosts are taken out. -/
theorem keep_counters {kept : List OpenvasHost} (hFits : expanded < 2 ^ 32)
    (hCount : hosts.count.toNat = hosts.hosts.length)
    (hTotal : hosts.count.toNat + hosts.removed.toNat = expanded)
    (hKept : kept.length ≤ hosts.hosts.length) :
    (hosts.keep kept).count.toNat = kept.length ∧
      (hosts.keep kept).count.toNat + (hosts.keep kept).removed.toNat = expanded := by
  have hDropped : (UInt32.ofNat (hosts.hosts.length - kept.length)).toNat =
      hosts.hosts.length - kept.length := UInt32.toNat_ofNat_of_lt' (by rw [UInt32.size]; omega)
  have hLess : (hosts.keep kept).count.toNat = kept.length := by
    simp only [OpenvasHosts.keep]
    rw [UInt32.toNat_sub_of_le _ _ (by rw [UInt32.le_iff_toNat_le]; omega), hDropped]
    omega
  refine ⟨hLess, ?_⟩
  rw [hLess]
  simp only [OpenvasHosts.keep, UInt32.toNat_add, hDropped]
  omega

theorem WellFormed.keep (h : WellFormed expanded original hosts) (hFits : expanded < 2 ^ 32)
    {kept : List OpenvasHost} (hKept : kept.Sublist hosts.hosts) :
    WellFormed expanded original (hosts.keep kept) := by
  obtain ⟨hCount, hTotal⟩ := keep_counters hFits h.count_eq h.total_eq hKept.length_le
  exact {
    count_eq := hCount
    total_eq := hTotal
    distinct := h.distinct.sublist (hKept.map openvasHostValueStr)
    sub := hKept.subperm.trans h.sub
    suffix := List.suffix_refl kept
  }

/-- Reordering the list changes none of the counters. -/
theorem WellFormed.reorder (h : WellFormed expanded original hosts) {list : List OpenvasHost}
    (hPerm : list.Perm hosts.hosts) :
    WellFormed expanded original { hosts with hosts := list, current := list } where
  count_eq := h.count_eq.trans hPerm.length_eq.symm
  total_eq := h.total_eq
  distinct := ((hPerm.map openvasHostValueStr).nodup_iff).mpr h.distinct
  sub := hPerm.subperm.trans h.sub
  suffix := List.suffix_refl list

theorem shuffleHosts_perm (random : Nat → Nat) {count : Nat} {list : List OpenvasHost}
    (hLength : list.length = count) (shuffled : List OpenvasHost) :
    (shuffleHosts random count list shuffled).Perm (list ++ shuffled) := by
  induction count generalizing list shuffled with
  | zero =>
      obtain rfl := List.length_eq_zero_iff.mp hLength
      simp [shuffleHosts]
  | succ count ih =>
      have hPosition : (if count + 1 < 2 ^ 31 then random (count + 1) % (count + 1) else 0) <
          list.length := by
        rw [hLength]
        split
        · exact Nat.mod_lt _ (by omega)
        · omega
      simp only [shuffleHosts]
      generalize (if count + 1 < 2 ^ 31 then random (count + 1) % (count + 1) else 0) = position at *
      rw [List.getElem?_eq_getElem hPosition]
      have hErased : (list.eraseIdx position).length = count := by
        rw [List.length_eraseIdx_of_lt hPosition]
        omega
      calc shuffleHosts random count (list.eraseIdx position) (list[position] :: shuffled)
        _ |>.Perm (list.eraseIdx position ++ list[position] :: shuffled) := ih hErased _
        _ |>.Perm (list[position] :: (list.eraseIdx position ++ shuffled)) := List.perm_middle
        _ |>.Perm (list ++ shuffled) :=
            (List.getElem_cons_eraseIdx_perm hPosition).append_right shuffled

theorem WellFormed.shuffle (h : WellFormed expanded original hosts) (random : Nat → Nat) :
    WellFormed expanded original (openvasHostsShuffle random hosts) ∧
      (openvasHostsShuffle random hosts).hosts.Perm hosts.hosts := by
  have hPerm : (shuffleHosts random hosts.count.toNat hosts.hosts []).Perm hosts.hosts := by
    simpa using shuffleHosts_perm random h.count_eq.symm []
  exact ⟨h.reorder hPerm, hPerm⟩

theorem WellFormed.reverse (h : WellFormed expanded original hosts) :
    WellFormed expanded original (openvasHostsReverse hosts) := by
  rw [openvasHostsReverse]
  split
  · exact h
  · exact h.reorder (List.reverse_perm hosts.hosts)

theorem WellFormed.next (h : WellFormed expanded original hosts) :
    WellFormed expanded original (openvasHostsNext hosts).2 := by
  have hSuffix := h.suffix
  rw [openvasHostsNext]
  split
  · exact h
  · rename_i host rest hCurrent
    rw [hCurrent] at hSuffix
    exact { h with suffix := (List.suffix_cons host rest).trans hSuffix }

end Bookkeeping

/-- A collection as it is created, for a string of fewer hosts than its count can hold. -/
theorem wellFormed_openvasHostsNew {fuel : Nat} {hostsStr : CString} {start built : OpenvasHosts}
    (hNew : openvasHostsNew fuel (some hostsStr) = .ok (some start))
    (hBuilt : addElements 0 fuel (hostElements hostsStr) .empty = .ok (some built))
    (hFits : built.hosts.length < 2 ^ 32) : WellFormed built.hosts.length start.hosts start := by
  obtain ⟨hCounts, hRemoved⟩ := counts_addElements hBuilt
  have hCount : built.count.toNat = built.hosts.length := by
    rw [show built.count = UInt32.ofNat built.hosts.length from hCounts]
    exact UInt32.toNat_ofNat_of_lt' hFits
  have hStart := openvasHostsNew_eq hNew hBuilt
  let ordered : OpenvasHosts := { built with hosts := built.hosts.reverse }
  have hOrdered : ordered.count.toNat = ordered.hosts.length := by simpa [ordered] using hCount
  have hTotal : ordered.count.toNat + ordered.removed.toNat = built.hosts.length := by
    simp [ordered, hCount, hRemoved]
  have hCounters := keep_counters hFits hOrdered hTotal
    (unify_sublist (fun host => some (openvasHostValueStr host)) [] ordered.hosts).length_le
  have hDistinct := nodup_openvasHostsNew hNew
  subst hStart
  exact {
    count_eq := hCounters.1
    total_eq := hCounters.2
    distinct := hDistinct
    sub := List.Subperm.refl _
    suffix := List.suffix_refl _
  }

/-! Exclusion. -/

/-- The texts that hosts are compared with. -/
def excludedTable (names : Names) (resolve : Bool) (excluded : OpenvasHosts) : List CString :=
  (if resolve then openvasHostsResolve names excluded else excluded).hosts.map openvasHostValueStr

/-- What excluding hosts answers and leaves, by what the exclude string is expanded to. -/
theorem openvasHostsExclude_eq {fuel : Nat} {excludedStr : CString} {excluded : OpenvasHosts}
    (hNew : openvasHostsNew fuel (some excludedStr) = .ok (some excluded)) (names : Names)
    (hosts : OpenvasHosts) (resolve : Bool) :
    openvasHostsExclude fuel names hosts excludedStr resolve =
      .ok (if excluded.hosts.length % 2 ^ 32 = 0 then (0, hosts)
        else
          let kept := hosts.hosts.filter fun host =>
            openvasHostValueStr host ∉ excludedTable names resolve excluded
          (Int32.ofNat (hosts.hosts.length - kept.length), hosts.keep kept)) := by
  have hCount : (if resolve then openvasHostsResolve names excluded else excluded).count = 0 ↔
      excluded.hosts.length % 2 ^ 32 = 0 := by
    have hSame : (if resolve then openvasHostsResolve names excluded else excluded).count =
        excluded.count := by
      split <;> rfl
    rw [hSame, show excluded.count = UInt32.ofNat excluded.hosts.length from
      counts_openvasHostsNew hNew, ← UInt32.toNat_inj, UInt32.toNat_ofNat']
    rfl
  rw [openvasHostsExclude, hNew]
  simp only [bind, Except.bind, hCount, excludedTable]
  split <;> rfl

theorem openvasHostsExclude_refused {fuel : Nat} {excludedStr : CString}
    (hNew : openvasHostsNew fuel (some excludedStr) = .ok none) (names : Names)
    (hosts : OpenvasHosts) (resolve : Bool) :
    openvasHostsExclude fuel names hosts excludedStr resolve = .ok (-1, hosts) := by
  rw [openvasHostsExclude, hNew]
  rfl

/-- Excluding leaves a collection as it is or keeps a part of its list. -/
theorem openvasHostsExclude_cases {fuel : Nat} {names : Names} {hosts after : OpenvasHosts}
    {excludedStr : CString} {resolve : Bool} {answer : Int32}
    (h : openvasHostsExclude fuel names hosts excludedStr resolve = .ok (answer, after)) :
    (∃ excluded, openvasHostsNew fuel (some excludedStr) = .ok excluded ∧
        excluded.all (fun excluded => excluded.hosts.length % 2 ^ 32 = 0) ∧ after = hosts) ∨
      ∃ kept, kept.Sublist hosts.hosts ∧ after = hosts.keep kept := by
  obtain ⟨excluded, hNew, _⟩ := Except.bind_eq_ok.mp h
  cases excluded with
  | none =>
      rw [openvasHostsExclude_refused hNew] at h
      obtain ⟨_, rfl⟩ := Prod.mk.inj (Except.ok.inj h)
      exact .inl ⟨none, hNew, rfl, rfl⟩
  | some excluded =>
      rw [openvasHostsExclude_eq hNew] at h
      split at h
      · rename_i hEmpty
        obtain ⟨_, rfl⟩ := Prod.mk.inj (Except.ok.inj h)
        exact .inl ⟨some excluded, hNew, by simpa using hEmpty, rfl⟩
      · obtain ⟨_, rfl⟩ := Prod.mk.inj (Except.ok.inj h)
        exact .inr ⟨_, List.filter_sublist, rfl⟩

/-! Sequences of calls. -/

/-- The calls that change or iterate over a collection. The random numbers and the
answers of the name service are those that the call gets. -/
inductive Call where
  | shuffle (random : Nat → Nat)
  | reverse
  | exclude (fuel : Nat) (names : Names) (excludedStr : CString) (resolve : Bool)
  | reverseLookupOnly (names : Names)
  | reverseLookupUnify (names : Names)
  | next

/-- The collection after a call, if the call returns. -/
def Call.apply (hosts : OpenvasHosts) : Call → Except Halt OpenvasHosts
  | .shuffle random => .ok (openvasHostsShuffle random hosts)
  | .reverse => .ok (openvasHostsReverse hosts)
  | .exclude fuel names excludedStr resolve =>
      (openvasHostsExclude fuel names hosts excludedStr resolve).map Prod.snd
  | .reverseLookupOnly names => .ok (openvasHostsReverseLookupOnly names hosts)
  | .reverseLookupUnify names => .ok (openvasHostsReverseLookupUnify names hosts)
  | .next => .ok (openvasHostsNext hosts).2

/-- A collection and the call that was made last; nothing follows a call that does not return. -/
abbrev CallState := Except Halt (Option Call × OpenvasHosts)

def callStep (state : CallState) (call : Call) : CallState := do
  let (_, hosts) ← state
  let after ← call.apply hosts
  .ok (some call, after)

/-- The hosts that a loop over `openvas_hosts_next` gets until it gets NULL. -/
def iterateHosts : Nat → OpenvasHosts → List OpenvasHost
  | 0, _ => []
  | steps + 1, hosts =>
      match openvasHostsNext hosts with
      | (none, _) => []
      | (some host, rest) => host :: iterateHosts steps rest

theorem iterateHosts_eq (steps : Nat) (hosts : OpenvasHosts) :
    iterateHosts steps hosts = hosts.current.take steps := by
  induction steps generalizing hosts with
  | zero => simp [iterateHosts]
  | succ steps ih =>
      rw [iterateHosts, openvasHostsNext]
      cases hCurrent : hosts.current with
      | nil => simp
      | cons host rest => simp [ih]

/-- A loop over the whole collection gets each of its hosts once. -/
def IteratesFully (hosts : OpenvasHosts) : Prop :=
  ∀ steps, hosts.hosts.length < steps → iterateHosts steps hosts = hosts.hosts

theorem iteratesFully_of_current {hosts : OpenvasHosts} (h : hosts.current = hosts.hosts) :
    IteratesFully hosts := by
  intro steps hSteps
  rw [iterateHosts_eq, h, List.take_of_length_le (by omega)]

/-- What is expected of a collection between two calls. -/
structure Consistent (expanded : Nat) (original : List OpenvasHost) (last : Option Call)
    (hosts : OpenvasHosts) : Prop where
  count_eq : hosts.count.toNat = hosts.hosts.length
  total_eq : hosts.count.toNat + hosts.removed.toNat = expanded
  distinct : (hosts.hosts.map openvasHostValueStr).Nodup
  sub : hosts.hosts.Subperm original
  shuffle_perm : ∀ random, (openvasHostsShuffle random hosts).hosts.Perm hosts.hosts
  iterates : last ≠ some .next → IteratesFully hosts

/-- The early returns of excluding do not touch the iterator. They are taken when the exclude
string is refused or holds no hosts by its count, and do no harm in front of an iteration. -/
def ResetsIterator (hosts : OpenvasHosts) : Call → Prop
  | .exclude fuel _ excludedStr _ =>
      ∀ excluded, openvasHostsNew fuel (some excludedStr) = .ok excluded →
        (∃ collection, excluded = some collection ∧ collection.hosts.length % 2 ^ 32 ≠ 0) ∨
          hosts.current = hosts.hosts
  | _ => True

/-- The calls other than `openvas_hosts_next` start the iteration anew. -/
theorem wellFormed_apply {expanded : Nat} {original : List OpenvasHost} {hosts after : OpenvasHosts}
    {call : Call} (hFits : expanded < 2 ^ 32) (h : WellFormed expanded original hosts)
    (hResets : ResetsIterator hosts call) (hCall : call.apply hosts = .ok after) :
    WellFormed expanded original after ∧ (call ≠ .next → after.current = after.hosts) := by
  cases call with
  | shuffle random =>
      obtain rfl := Except.ok.inj hCall
      exact ⟨(h.shuffle random).1, fun _ => rfl⟩
  | reverse =>
      obtain rfl := Except.ok.inj hCall
      refine ⟨h.reverse, fun _ => ?_⟩
      rw [openvasHostsReverse]
      split
      · rename_i hEmpty
        have hSuffix := h.suffix
        rw [hEmpty, List.suffix_nil] at hSuffix
        rw [hSuffix, hEmpty]
      · rfl
  | exclude fuel names excludedStr resolve =>
      simp only [Call.apply] at hCall
      cases hExclude : openvasHostsExclude fuel names hosts excludedStr resolve with
      | error halt => simp [hExclude, Except.map] at hCall
      | ok answer =>
          obtain rfl : answer.2 = after := by simpa [hExclude, Except.map] using hCall
          rcases openvasHostsExclude_cases hExclude with ⟨excluded, hNew, hEmpty, hSame⟩ |
            ⟨kept, hKept, hKeep⟩
          · rw [hSame]
            refine ⟨h, fun _ => ?_⟩
            rcases hResets excluded hNew with ⟨collection, rfl, hSome⟩ | hCurrent
            · exact absurd (by simpa using hEmpty) hSome
            · exact hCurrent
          · rw [hKeep]
            exact ⟨h.keep hFits hKept, fun _ => rfl⟩
  | reverseLookupOnly names =>
      obtain rfl := Except.ok.inj hCall
      exact ⟨h.keep hFits List.filter_sublist, fun _ => rfl⟩
  | reverseLookupUnify names =>
      obtain rfl := Except.ok.inj hCall
      exact ⟨h.keep hFits (unify_sublist _ _ _), fun _ => rfl⟩
  | next =>
      obtain rfl := Except.ok.inj hCall
      exact ⟨h.next, fun hNext => absurd rfl hNext⟩

/-- A collection of fewer than 2^32 expanded hosts stays consistent along every sequence of
calls in which excluding nothing does not come in the middle of an iteration. -/
theorem consistent_along {fuel : Nat} {hostsStr : CString} {start built : OpenvasHosts}
    (hNew : openvasHostsNew fuel (some hostsStr) = .ok (some start))
    (hBuilt : addElements 0 fuel (hostElements hostsStr) .empty = .ok (some built))
    (hFits : built.hosts.length < 2 ^ 32) (calls : List Call)
    (hCalls : Run.AllSteps callStep
      (fun state call => ∀ last hosts, state = .ok (last, hosts) → ResetsIterator hosts call)
      (.ok (none, start)) calls) :
    Run.AllStates callStep
      (fun state => ∀ last hosts, state = .ok (last, hosts) →
        Consistent built.hosts.length start.hosts last hosts)
      (.ok (none, start)) calls := by
  refine Run.AllStates.of_allSteps
    (fun state => ∀ last hosts, state = .ok (last, hosts) →
      WellFormed built.hosts.length start.hosts hosts ∧
        (last ≠ some .next → hosts.current = hosts.hosts)) ?_ ?_ ?_ calls hCalls
  · intro state call hInv hSafe last after hAfter
    obtain ⟨⟨last', hosts⟩, hState, hRest⟩ := Except.bind_eq_ok.mp hAfter
    obtain ⟨after', hApply, hPair⟩ := Except.bind_eq_ok.mp hRest
    obtain ⟨rfl, rfl⟩ := Prod.mk.inj (Except.ok.inj hPair)
    obtain ⟨hWell, hCurrent⟩ := wellFormed_apply hFits (hInv last' hosts hState).1
      (hSafe last' hosts hState) hApply
    exact ⟨hWell, fun hLast => hCurrent fun hNext => hLast (congrArg some hNext)⟩
  · intro state hInv last hosts hState
    obtain ⟨hWell, hCurrent⟩ := hInv last hosts hState
    exact {
      count_eq := hWell.count_eq
      total_eq := hWell.total_eq
      distinct := hWell.distinct
      sub := hWell.sub
      shuffle_perm := fun random => (hWell.shuffle random).2
      iterates := fun hLast => iteratesFully_of_current (hCurrent hLast)
    }
  · intro last hosts hState
    obtain ⟨rfl, rfl⟩ := Prod.mk.inj (Except.ok.inj hState)
    exact ⟨wellFormed_openvasHostsNew hNew hBuilt hFits, fun _ => current_openvasHostsNew hNew⟩

/-- A name service that knows no names. -/
def noNames : Names where
  resolve _ := none
  lookup4 _ := none
  lookup6 _ := none

/-- The collection of two names. -/
def twoNames : OpenvasHosts where
  hosts := [.name (lit "a"), .name (lit "b")]
  current := [.name (lit "a"), .name (lit "b")]
  count := 2
  removed := 0

theorem consistent_along_two_names :
    Run.AllStates callStep
      (fun state => ∀ last hosts, state = .ok (last, hosts) → Consistent 2 twoNames.hosts last hosts)
      (.ok (none, twoNames)) [.next, .reverse, .exclude 1 noNames (lit "a") true] := by
  have hNew : openvasHostsNew 1 (some (lit "a,b")) = .ok (some twoNames) := by decide +kernel
  have hBuilt : addElements 0 1 (hostElements (lit "a,b")) .empty = .ok (some
      { twoNames with hosts := twoNames.hosts.reverse, current := [] }) := by decide +kernel
  apply consistent_along hNew hBuilt (by decide)
  refine ⟨fun _ _ _ => trivial, fun _ _ _ => trivial, fun last hosts hState excluded hExcluded => ?_, trivial⟩
  have hExclude : openvasHostsNew 1 (some (lit "a")) = .ok (some
      { hosts := [.name (lit "a")], current := [.name (lit "a")], count := 1, removed := 0 }) := by
    decide +kernel
  obtain rfl := Except.ok.inj (hExclude.symm.trans hExcluded)
  exact .inl ⟨_, rfl, by decide⟩

/-- Excluding the empty string in the middle of an iteration: the host in front is not seen again. -/
theorem exclude_nothing_keeps_position :
    openvasHostsNew 1 (some (lit "a,b")) = .ok (some twoNames) ∧
      addElements 0 1 (hostElements (lit "a,b")) .empty = .ok (some
        { twoNames with hosts := twoNames.hosts.reverse, current := [] }) ∧
      ¬ Run.AllStates callStep
        (fun state => ∀ last hosts, state = .ok (last, hosts) →
          Consistent 2 twoNames.hosts last hosts)
        (.ok (none, twoNames)) [.next, .exclude 1 noNames (lit "") false] := by
  refine ⟨by decide +kernel, by decide +kernel, fun hAll => ?_⟩
  have hLast := hAll.final
  have hState : [.next, .exclude 1 noNames (lit "") false].foldl callStep (.ok (none, twoNames)) =
      .ok (some (.exclude 1 noNames (lit "") false),
        { twoNames with current := [.name (lit "b")] }) := by
    rfl
  have hIterates := (hLast _ _ hState).iterates (by simp) 3 (by decide)
  exact absurd hIterates (by decide +kernel)

end Hosts
