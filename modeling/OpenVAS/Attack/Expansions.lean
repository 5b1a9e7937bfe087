import OpenVAS.Attack.Network
import OpenVAS.Hosts.Loops

/-! The hosts strings that a scan expands, one after the other: its targets, the excluded hosts and
the access lists. One of them may keep it from going on, or leave it undefined. -/
namespace Attack

open CString Hosts

/-! A computation that expands elements, with a number of steps for each loop. -/

/-- It has a result exactly when none of its elements is endless, and is undefined exactly when the
first endless one has a prefix length that is read as 0. -/
structure Expands {α : Type} (run : Nat → Except Halt α) (elements : List CString) : Prop where
  mono : ∀ {fuel fuel' a}, fuel ≤ fuel' → run fuel = .ok a → run fuel' = .ok a
  ends_iff : (∃ fuel a, run fuel = .ok a) ↔ ∀ element ∈ elements, ¬ Endless element
  reaches : ∀ {fuel}, run fuel = .error .undefined → ReachesZeroPrefix elements
  undefined : ReachesZeroPrefix elements → ∃ least, ∀ fuel, least ≤ fuel → run fuel = .error .undefined

namespace Expands

variable {α β : Type} {run : Nat → Except Halt α} {elements : List CString}

theorem pure (a : α) : Expands (fun _ => .ok a) [] where
  mono := fun _ hOk => hOk
  ends_iff := iff_of_true ⟨0, a, rfl⟩ (by simp)
  reaches := fun h => by cases h
  undefined := fun h => h.elim

/-- One expansion after the other. -/
theorem bind {rest : α → Nat → Except Halt β} {later : List CString} (h : Expands run elements)
    (hRest : ∀ {fuel a}, run fuel = .ok a → Expands (rest a) later) :
    Expands (fun fuel => (run fuel).bind fun a => rest a fuel) (elements ++ later) where
  mono := by
    intro fuel fuel' b hLe hOk
    obtain ⟨a, hRun, hNext⟩ := Except.bind_eq_ok.mp hOk
    exact Except.bind_eq_ok.mpr ⟨a, h.mono hLe hRun, (hRest hRun).mono hLe hNext⟩
  ends_iff := by
    simp only [List.forall_mem_append]
    constructor
    · rintro ⟨fuel, b, hOk⟩
      obtain ⟨a, hRun, hNext⟩ := Except.bind_eq_ok.mp hOk
      exact ⟨h.ends_iff.mp ⟨fuel, a, hRun⟩, (hRest hRun).ends_iff.mp ⟨fuel, b, hNext⟩⟩
    · rintro ⟨hFirst, hLater⟩
      obtain ⟨fuel, a, hRun⟩ := h.ends_iff.mpr hFirst
      obtain ⟨fuel', b, hNext⟩ := (hRest hRun).ends_iff.mpr hLater
      refine ⟨max fuel fuel', b, Except.bind_eq_ok.mpr ⟨a, h.mono (Nat.le_max_left _ _) hRun, ?_⟩⟩
      exact (hRest hRun).mono (Nat.le_max_right _ _) hNext
  reaches := by
    intro fuel hUndefined
    rw [reachesZeroPrefix_append]
    cases hRun : run fuel with
    | error halt =>
        rw [hRun] at hUndefined
        obtain rfl : halt = .undefined := Except.error.inj hUndefined
        exact .inl (h.reaches hRun)
    | ok a =>
        rw [hRun] at hUndefined
        exact .inr ⟨h.ends_iff.mp ⟨fuel, a, hRun⟩, (hRest hRun).reaches hUndefined⟩
  undefined := by
    rw [reachesZeroPrefix_append]
    rintro (hFirst | ⟨hFirst, hLater⟩)
    · obtain ⟨least, hUndefined⟩ := h.undefined hFirst
      exact ⟨least, fun fuel hLe => by rw [hUndefined fuel hLe]; rfl⟩
    · obtain ⟨fuel, a, hRun⟩ := h.ends_iff.mpr hFirst
      obtain ⟨least, hUndefined⟩ := (hRest hRun).undefined hLater
      refine ⟨max fuel least, fun fuel' hLe => ?_⟩
      rw [h.mono (Nat.le_trans (Nat.le_max_left _ _) hLe) hRun]
      exact hUndefined fuel' (Nat.le_trans (Nat.le_max_right _ _) hLe)

theorem map (h : Expands run elements) (f : α → β) :
    Expands (fun fuel => (run fuel).bind fun a => .ok (f a)) elements := by
  have hRest {fuel : Nat} {a : α} (_ : run fuel = .ok a) : Expands (fun _ => .ok (f a)) [] := pure _
  have hBind := h.bind hRest
  rwa [List.append_nil] at hBind

end Expands

theorem expands_openvasHostsNew (hostsStr : Option CString) :
    Expands (openvasHostsNew · hostsStr) (expanded hostsStr) where
  mono := fun hLe hOk => openvasHostsNew_mono hLe hOk
  ends_iff := openvasHostsNew_ends_iff
  reaches := reachesZeroPrefix_of_openvasHostsNew
  undefined := fun h => ⟨enoughFuel, fun _ hFuel => openvasHostsNew_undefined hFuel h⟩

/-! The inputs of a scan. -/

/-- The elements that are expanded for the targets. Without a collection of hosts, none are excluded. -/
def targetElements (preferences : Preferences) (hostlist : CString) : List CString :=
  reachedElements hostlist ++
    if (hostElements hostlist).all fun element => (determineHostType element).isSome then
      expanded (preferencesGetString preferences "exclude_hosts")
    else []

/-- The elements that are expanded for the access lists. -/
def listElements (preferences : Preferences) : List CString :=
  ["hosts_allow", "hosts_deny", "sys_hosts_allow", "sys_hosts_deny"].flatMap fun name =>
    expanded (preferencesGetString preferences name)

theorem expands_excludePreferredHosts (names : Names) (preferences : Preferences)
    (hosts : OpenvasHosts) :
    Expands (excludePreferredHosts · names preferences hosts)
      (expanded (preferencesGetString preferences "exclude_hosts")) := by
  unfold excludePreferredHosts
  cases preferencesGetString preferences "exclude_hosts" with
  | none => exact Expands.pure hosts
  | some excludeHosts =>
      have hExclude : Expands
          (fun fuel => openvasHostsExclude fuel names hosts excludeHosts true)
          (expanded (some excludeHosts)) := by
        rw [← List.append_nil (expanded _)]
        refine (expands_openvasHostsNew (some excludeHosts)).bind fun {fuel made} _ => ?_
        cases made with
        | none => exact Expands.pure _
        | some excluded =>
            dsimp only
            split_ifs
            · exact Expands.pure _
            · exact Expands.pure _
            · exact Expands.pure _
            · exact Expands.pure _
      exact hExclude.map (·.2)

theorem expands_targetHosts (names : Names) (random : Nat → Nat) (preferences : Preferences)
    (hostlist : CString) :
    Expands (targetHosts · names random preferences hostlist)
      (targetElements preferences hostlist) := by
  refine (expands_openvasHostsNew (some hostlist)).bind fun {fuel made} hMade => ?_
  have hAccepted := openvasHostsNew_isSome_iff hMade
  cases made with
  | none =>
      have hNot : (hostElements hostlist).all (fun element => (determineHostType element).isSome) =
          false := by
        apply Bool.eq_false_iff.mpr
        intro hAll
        exact absurd (hAccepted.mpr (List.all_eq_true.mp hAll)) (by simp)
      rw [hNot]
      exact Expands.pure []
  | some hosts =>
      have hAll : (hostElements hostlist).all (fun element => (determineHostType element).isSome) =
          true := List.all_eq_true.mpr (hAccepted.mp rfl)
      rw [hAll]
      have hOrdered := (expands_excludePreferredHosts names preferences
        (orderHosts random preferences hosts)).map fun remaining =>
          lookUpHosts names preferences remaining
      exact hOrdered.map (·.current)

theorem expands_accessLists (preferences : Preferences) :
    Expands (accessLists · preferences) (listElements preferences) := by
  have hLists := (expands_openvasHostsNew (preferencesGetString preferences "hosts_allow")).bind
    fun {_ hostsAllow} _ =>
      (expands_openvasHostsNew (preferencesGetString preferences "hosts_deny")).bind
        fun {_ hostsDeny} _ =>
          (expands_openvasHostsNew (preferencesGetString preferences "sys_hosts_allow")).bind
            fun {_ sysHostsAllow} _ =>
              (expands_openvasHostsNew (preferencesGetString preferences "sys_hosts_deny")).map
                fun sysHostsDeny =>
                  (⟨hostsAllow, hostsDeny, sysHostsAllow, sysHostsDeny⟩ : AccessLists)
  simp only [listElements, List.flatMap_cons, List.flatMap_nil, List.append_nil]
  exact hLists

end Attack
