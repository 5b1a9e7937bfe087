import Mathlib.Order.Bounds.Basic
import OpenVAS.DeltaReports.Basic

/-! The tree of the ports of a delta report. The severities are values that
`g_malloc` gives an address each, and the tree holds the addresses. -/
namespace DeltaReports

open CString

/-- A tree of trees, from hosts and ports to addresses, and the severities at
the addresses in use. -/
structure Ports where
  tree : CString → Option (CString → Option Nat)
  heap : Nat → Option ℚ

namespace Ports

def empty : Ports where
  tree _ := none
  heap _ := none

/-- `add_port`, where `severity` is the address that `g_malloc` returns. There
is no next state if the address cannot be returned, being null or in use. -/
def addPort (ports : Ports) (result : Result) (severity : Nat) : Option Ports :=
  if severity = 0 ∨ (ports.heap severity).isSome then none
  else
    let hostPorts := (ports.tree result.host).getD fun _ => none
    let heap := Function.update ports.heap severity (some result.severity)
    match hostPorts result.port with
    | none =>
        some {
          tree := Function.update ports.tree result.host
            (some (Function.update hostPorts result.port (some severity)))
          heap := heap }
    | some oldSeverity =>
        let tree := Function.update ports.tree result.host (some hostPorts)
        if severity > oldSeverity then
          some {
            tree := tree
            heap := Function.update (Function.update heap oldSeverity (some result.severity))
              severity none }
        else some { tree := tree, heap := heap }

/-- The results one after the other, each with the address its severity gets. -/
def addPorts (ports : Ports) : List (Result × Nat) → Option Ports
  | [] => some ports
  | (result, severity) :: rest => (ports.addPort result severity).bind fun next => next.addPorts rest

/-- The address in the tree. -/
def address (ports : Ports) (host port : CString) : Option Nat :=
  (ports.tree host).bind fun hostPorts => hostPorts port

/-- The severity in the tree. -/
def stored (ports : Ports) (host port : CString) : Option ℚ :=
  (ports.address host port).bind ports.heap

/-- Every host and port of the results is in the tree, with the highest
severity of the results with this host and port. -/
def CarriesHighest (ports : Ports) (results : List Result) : Prop :=
  ∀ result ∈ results, ∃ severity, ports.stored result.host result.port = some severity ∧
    IsGreatest {s | ∃ other ∈ results, other.host = result.host ∧ other.port = result.port ∧
      other.severity = s} severity

/-! One result. -/

theorem address_eq_getD (ports : Ports) (host port : CString) :
    ports.address host port = ((ports.tree host).getD fun _ => none) port := by
  rw [address]
  cases ports.tree host <;> rfl

theorem address_update (ports : Ports) (heap : Nat → Option ℚ) (host : CString)
    (hostPorts : CString → Option Nat) (host' port' : CString) :
    address ⟨Function.update ports.tree host (some hostPorts), heap⟩ host' port' =
      if host' = host then hostPorts port' else ports.address host' port' := by
  change ((Function.update ports.tree host (some hostPorts) host').bind fun hostPorts =>
    hostPorts port') = _
  rw [Function.update_apply]
  split
  · rfl
  · rfl

/-- What one call does: it stores a first severity at its address, or copies it
over the old one if its address is higher, or leaves the tree alone. -/
theorem addPort_cases {ports next : Ports} {result : Result} {severity : Nat}
    (h : ports.addPort result severity = some next) :
    severity ≠ 0 ∧ ports.heap severity = none ∧
      ((ports.address result.host result.port = none ∧
          (∀ host port, next.address host port =
            if host = result.host ∧ port = result.port then some severity
            else ports.address host port) ∧
          next.heap = Function.update ports.heap severity (some result.severity)) ∨
        (∃ old, ports.address result.host result.port = some old ∧
          (∀ host port, next.address host port = ports.address host port) ∧
          next.heap = if severity > old then
              Function.update (Function.update
                (Function.update ports.heap severity (some result.severity))
                old (some result.severity)) severity none
            else Function.update ports.heap severity (some result.severity))) := by
  rw [addPort] at h
  split at h
  · exact absurd h (by simp)
  · rename_i hFree
    obtain ⟨hNotNull, hUnused⟩ := not_or.mp hFree
    refine ⟨hNotNull, Option.not_isSome_iff_eq_none.mp hUnused, ?_⟩
    have hAddress := address_eq_getD ports result.host result.port
    dsimp only at h
    split at h
    · rename_i hNone
      left
      refine ⟨hAddress.trans hNone, ?_, ?_⟩
      · intro host port
        rw [← Option.some.inj h, address_update, Function.update_apply]
        by_cases hHost : host = result.host
        · subst hHost
          by_cases hPort : port = result.port
          · simp [hPort]
          · simp [hPort, address_eq_getD]
        · simp [hHost]
      · rw [← Option.some.inj h]
    · rename_i old hSome
      right
      have hSame (heap : Nat → Option ℚ) (host port : CString) :
          address ⟨Function.update ports.tree result.host
            (some ((ports.tree result.host).getD fun _ => none)), heap⟩ host port =
            ports.address host port := by
        rw [address_update]
        split
        · rename_i hHost
          rw [hHost, address_eq_getD]
        · rfl
      refine ⟨old, hAddress.trans hSome, ?_, ?_⟩
      · split at h
        · rw [← Option.some.inj h]
          exact hSame _
        · rw [← Option.some.inj h]
          exact hSame _
      · split at h
        · rename_i hHigher
          rw [← Option.some.inj h, if_pos hHigher]
        · rename_i hNotHigher
          rw [← Option.some.inj h, if_neg hNotHigher]

theorem exists_addPort (ports : Ports) (result : Result) {severity : Nat} (hNotNull : severity ≠ 0)
    (hUnused : ports.heap severity = none) : ∃ next, ports.addPort result severity = some next := by
  rw [addPort, if_neg (by simp [hNotNull, hUnused])]
  dsimp only
  split
  · exact ⟨_, rfl⟩
  · split
    · exact ⟨_, rfl⟩
    · exact ⟨_, rfl⟩

/-! Whatever the addresses are, the tree has the hosts and ports of the results,
each with a severity of one of its results. -/

/-- The tree after the results of a list. -/
structure Sound (ports : Ports) (results : List Result) : Prop where
  live : ∀ host port a, ports.address host port = some a →
    ∃ result ∈ results, result.host = host ∧ result.port = port ∧
      ports.heap a = some result.severity
  apart : ∀ host port host' port' a, ports.address host port = some a →
    ports.address host' port' = some a → host = host' ∧ port = port'
  present : ∀ result ∈ results, ports.address result.host result.port ≠ none

theorem sound_empty : Sound empty [] where
  live _ _ _ h := (nomatch h)
  apart _ _ _ _ _ h := (nomatch h)
  present _ h := (nomatch h)

theorem Sound.addPort {ports next : Ports} {results : List Result} (hSound : Sound ports results)
    {result : Result} {severity : Nat} (h : ports.addPort result severity = some next) :
    Sound next (results ++ [result]) := by
  obtain ⟨_, hUnused, hCases⟩ := addPort_cases h
  have hFresh (host port : CString) : ports.address host port ≠ some severity := by
    intro hAddress
    obtain ⟨_, _, _, _, hHeap⟩ := hSound.live host port severity hAddress
    exact absurd (hUnused.symm.trans hHeap) (by simp)
  rcases hCases with ⟨hNone, hAddress, hHeap⟩ | ⟨old, hOld, hAddress, hHeap⟩
  · constructor
    · intro host port a ha
      rw [hAddress] at ha
      split at ha
      · rename_i hSame
        refine ⟨result, by simp, hSame.1.symm, hSame.2.symm, ?_⟩
        rw [hHeap, ← Option.some.inj ha, Function.update_self]
      · obtain ⟨other, hMem, hHost, hPort, hStored⟩ := hSound.live host port a ha
        refine ⟨other, List.mem_append_left _ hMem, hHost, hPort, ?_⟩
        rw [hHeap, Function.update_of_ne, hStored]
        intro hEq
        exact hFresh host port (hEq ▸ ha)
    · intro host port host' port' a ha ha'
      rw [hAddress] at ha ha'
      split at ha
      · rename_i hFirst
        split at ha'
        · rename_i hSecond
          exact ⟨hFirst.1.trans hSecond.1.symm, hFirst.2.trans hSecond.2.symm⟩
        · exact absurd (ha'.trans ha.symm) (hFresh host' port')
      · split at ha'
        · exact absurd (ha.trans ha'.symm) (hFresh host port)
        · exact hSound.apart host port host' port' a ha ha'
    · intro other hOther
      rw [hAddress]
      split
      · simp
      · rename_i hDifferent
        rcases List.mem_append.mp hOther with hOther | hOther
        · exact hSound.present other hOther
        · rw [List.mem_singleton.mp hOther] at hDifferent
          exact absurd ⟨rfl, rfl⟩ hDifferent
  · have hCopied {a : Nat} (ha : a ≠ severity) :
        next.heap a = if severity > old ∧ a = old then some result.severity else ports.heap a := by
      rw [hHeap]
      by_cases hHigher : severity > old
      · by_cases hEq : a = old
        · subst hEq
          simp [hHigher, ha]
        · simp [hHigher, ha, hEq]
      · simp [hHigher, ha]
    constructor
    · intro host port a ha
      rw [hAddress] at ha
      have hOther : a ≠ severity := fun hEq => hFresh host port (hEq ▸ ha)
      rw [hCopied hOther]
      split
      · rename_i hNew
        rw [hNew.2] at ha
        obtain ⟨hHost, hPort⟩ := hSound.apart host port result.host result.port old ha hOld
        exact ⟨result, by simp, hHost.symm, hPort.symm, rfl⟩
      · obtain ⟨other, hMem, hRest⟩ := hSound.live host port a ha
        exact ⟨other, List.mem_append_left _ hMem, hRest⟩
    · intro host port host' port' a ha ha'
      rw [hAddress] at ha ha'
      exact hSound.apart host port host' port' a ha ha'
    · intro other hOther
      rw [hAddress]
      rcases List.mem_append.mp hOther with hOther | hOther
      · exact hSound.present other hOther
      · rw [List.mem_singleton.mp hOther, hOld]
        simp

theorem Sound.addPorts {steps : List (Result × Nat)} {ports next : Ports} {results : List Result}
    (hSound : Sound ports results) (h : ports.addPorts steps = some next) :
    Sound next (results ++ steps.map Prod.fst) := by
  induction steps generalizing ports results with
  | nil =>
      rw [Ports.addPorts, Option.some_inj] at h
      subst h
      simpa using hSound
  | cons step steps ih =>
      obtain ⟨result, severity⟩ := step
      rw [Ports.addPorts, Option.bind_eq_some_iff] at h
      obtain ⟨between, hFirst, hRest⟩ := h
      simpa using ih (hSound.addPort hFirst) hRest

/-! A run for each result: its severity gets an address above all others, and
every other one an address below those before it. -/

/-- The addresses in use. -/
structure Within (low high : Nat) (ports : Ports) : Prop where
  used : ∀ a, ports.heap a ≠ none → low ≤ a ∧ a < high
  live : ∀ host port a, ports.address host port = some a → ports.heap a ≠ none

theorem within_empty (n : Nat) : Within n n empty where
  used _ h := absurd rfl h
  live _ _ _ h := (nomatch h)

theorem stored_eq_some {ports : Ports} {host port : CString} {s : ℚ} :
    ports.stored host port = some s ↔
      ∃ a, ports.address host port = some a ∧ ports.heap a = some s :=
  Option.bind_eq_some_iff

/-- A severity at an address below all others changes none that is stored. -/
theorem addPort_below {low high : Nat} {ports next : Ports} (hWithin : Within (low + 1) high ports)
    {result : Result} (h : ports.addPort result low = some next) :
    Within low (max high (low + 1)) next ∧
      ∀ host port s, ports.stored host port = some s → next.stored host port = some s := by
  obtain ⟨_, hUnused, hCases⟩ := addPort_cases h
  have hHeap : next.heap = Function.update ports.heap low (some result.severity) := by
    rcases hCases with ⟨_, _, hHeap⟩ | ⟨old, hOld, _, hHeap⟩
    · exact hHeap
    · have hAbove := (hWithin.used old (hWithin.live _ _ old hOld)).1
      rw [hHeap, if_neg (by omega)]
  have hKept {a : Nat} (ha : ports.heap a ≠ none) : next.heap a = ports.heap a := by
    have hAbove := (hWithin.used a ha).1
    rw [hHeap, Function.update_of_ne (by omega)]
  have hAddress (host port : CString) (a : Nat) (ha : ports.address host port = some a) :
      next.address host port = some a := by
    rcases hCases with ⟨hNone, hAddress, _⟩ | ⟨old, _, hAddress, _⟩
    · rw [hAddress, if_neg, ha]
      intro hSame
      rw [hSame.1, hSame.2, hNone] at ha
      exact absurd ha (by simp)
    · rw [hAddress, ha]
  refine ⟨⟨?_, ?_⟩, ?_⟩
  · intro a ha
    rw [hHeap, Function.update_apply] at ha
    split at ha
    · omega
    · have hRange := hWithin.used a ha
      omega
  · intro host port a ha
    by_cases hNew : a = low
    · rw [hNew, hHeap, Function.update_self]
      simp
    · have hBefore : ports.address host port = some a := by
        rcases hCases with ⟨_, hAddress, _⟩ | ⟨old, _, hAddress, _⟩
        · rw [hAddress] at ha
          split at ha
          · exact absurd (Option.some.inj ha).symm hNew
          · exact ha
        · rw [← hAddress, ha]
      have hLive := hWithin.live host port a hBefore
      rw [hKept hLive]
      exact hLive
  · intro host port s hStored
    obtain ⟨a, ha, hs⟩ := stored_eq_some.mp hStored
    refine stored_eq_some.mpr ⟨a, hAddress host port a ha, ?_⟩
    rw [hKept (by simp [hs]), hs]

/-- A severity at an address above all others is stored. -/
theorem addPort_above {low high : Nat} (hLow : low ≤ high) {ports next : Ports}
    (hWithin : Within low high ports) {result : Result}
    (h : ports.addPort result high = some next) :
    Within low (high + 1) next ∧ next.stored result.host result.port = some result.severity := by
  obtain ⟨_, hUnused, hCases⟩ := addPort_cases h
  rcases hCases with ⟨hNone, hAddress, hHeap⟩ | ⟨old, hOld, hAddress, hHeap⟩
  · refine ⟨⟨?_, ?_⟩, ?_⟩
    · intro a ha
      rw [hHeap, Function.update_apply] at ha
      split at ha
      · omega
      · have hRange := hWithin.used a ha
        omega
    · intro host port a ha
      rw [hAddress] at ha
      rw [hHeap, Function.update_apply]
      split at ha
      · rw [if_pos (Option.some.inj ha).symm]
        simp
      · split
        · simp
        · exact hWithin.live host port a ha
    · refine stored_eq_some.mpr ⟨high, ?_, ?_⟩
      · rw [hAddress, if_pos ⟨rfl, rfl⟩]
      · rw [hHeap, Function.update_self]
  · have hBelow := (hWithin.used old (hWithin.live _ _ old hOld)).2
    rw [if_pos hBelow] at hHeap
    have hCopied {a : Nat} (ha : a ≠ high) :
        next.heap a = if a = old then some result.severity else ports.heap a := by
      rw [hHeap, Function.update_of_ne ha, Function.update_apply, Function.update_of_ne ha]
    refine ⟨⟨?_, ?_⟩, ?_⟩
    · intro a ha
      by_cases hNew : a = high
      · omega
      · rw [hCopied hNew] at ha
        split at ha
        · have hRange := hWithin.used old (hWithin.live _ _ old hOld)
          omega
        · have hRange := hWithin.used a ha
          omega
    · intro host port a ha
      rw [hAddress] at ha
      have hLive := hWithin.live host port a ha
      have hRange := hWithin.used a hLive
      rw [hCopied (by omega)]
      split
      · simp
      · exact hLive
    · refine stored_eq_some.mpr ⟨old, (hAddress _ _).trans hOld, ?_⟩
      rw [hCopied (by omega), if_pos rfl]

theorem addPorts_below (results : List Result) {low high : Nat} (hLow : 0 < low) {ports : Ports}
    (hRoom : low + results.length ≤ high) (hWithin : Within (low + results.length) high ports) :
    ∃ addresses next high', addresses.length = results.length ∧
      ports.addPorts (results.zip addresses) = some next ∧ low ≤ high' ∧ Within low high' next ∧
      ∀ host port s, ports.stored host port = some s → next.stored host port = some s := by
  induction results generalizing high ports with
  | nil => exact ⟨[], ports, high, rfl, rfl, hRoom, hWithin, fun _ _ _ h => h⟩
  | cons result results ih =>
      rw [List.length_cons, ← Nat.add_assoc] at hRoom hWithin
      have hUnused : ports.heap (low + results.length) = none := by
        by_contra hUsed
        have hRange := (hWithin.used _ hUsed).1
        omega
      obtain ⟨between, hFirst⟩ := exists_addPort ports result (by omega) hUnused
      obtain ⟨hBetween, hKept⟩ := addPort_below hWithin hFirst
      obtain ⟨addresses, next, high', hLength, hRest, hHigh, hNext, hKeptRest⟩ :=
        @ih (max high (low + results.length + 1)) between (by omega) hBetween
      refine ⟨(low + results.length) :: addresses, next, high', by simp [hLength], ?_, hHigh, hNext, ?_⟩
      · rw [List.zip_cons_cons, addPorts, hFirst, Option.bind_some, hRest]
      · exact fun host port s h => hKeptRest host port s (hKept host port s h)

theorem addPorts_append (ports : Ports) (first second : List (Result × Nat)) :
    ports.addPorts (first ++ second) = (ports.addPorts first).bind fun next => next.addPorts second := by
  induction first generalizing ports with
  | nil => rfl
  | cons step first ih =>
      obtain ⟨result, severity⟩ := step
      rw [List.cons_append, addPorts, addPorts, Option.bind_assoc]
      congr 1
      funext next
      exact ih next

/-- For each result there are addresses under which its severity is the one in
the tree. -/
theorem exists_run_storing {results : List Result} {result : Result} (hMem : result ∈ results) :
    ∃ addresses next, addresses.length = results.length ∧
      empty.addPorts (results.zip addresses) = some next ∧
      next.stored result.host result.port = some result.severity := by
  obtain ⟨before, after, rfl⟩ := List.append_of_mem hMem
  obtain ⟨lower, ports, high, hLower, hBefore, hHigh, hPorts, _⟩ :=
    @addPorts_below before (after.length + 1) _ (Nat.succ_pos _) empty (le_refl _) (within_empty _)
  have hUnused : ports.heap high = none := by
    by_contra hUsed
    have hRange := (hPorts.used _ hUsed).2
    omega
  obtain ⟨raised, hRaise⟩ := exists_addPort ports result (by omega) hUnused
  obtain ⟨hRaised, hStored⟩ := addPort_above hHigh hPorts hRaise
  rw [Nat.add_comm] at hRaised
  obtain ⟨lowest, next, high', hLowest, hAfter, _, _, hKept⟩ :=
    @addPorts_below after 1 (high + 1) Nat.one_pos raised (by omega) hRaised
  refine ⟨lower ++ high :: lowest, next, by simp [hLower, hLowest], ?_, hKept _ _ _ hStored⟩
  rw [List.zip_append hLower.symm, addPorts_append, hBefore, Option.bind_some, List.zip_cons_cons,
    addPorts, hRaise, Option.bind_some, hAfter]

/-- The tree carries the highest severities under all addresses exactly when
the results of each host and port have one severity. -/
theorem carriesHighest_iff (results : List Result) :
    (∀ addresses next, addresses.length = results.length →
      empty.addPorts (results.zip addresses) = some next → next.CarriesHighest results) ↔
      ∀ result ∈ results, ∀ other ∈ results, result.host = other.host → result.port = other.port →
        result.severity = other.severity := by
  constructor
  · intro h result hResult other hOther hHost hPort
    obtain ⟨addresses, next, hLength, hRun, hStored⟩ := exists_run_storing hResult
    obtain ⟨addresses', next', hLength', hRun', hStored'⟩ := exists_run_storing hOther
    obtain ⟨highest, hHighest, hGreatest⟩ := h addresses next hLength hRun result hResult
    obtain ⟨highest', hHighest', hGreatest'⟩ := h addresses' next' hLength' hRun' other hOther
    rw [hStored, Option.some_inj] at hHighest
    rw [hStored', Option.some_inj] at hHighest'
    subst hHighest hHighest'
    exact le_antisymm (hGreatest'.2 ⟨result, hResult, hHost, hPort, rfl⟩)
      (hGreatest.2 ⟨other, hOther, hHost.symm, hPort.symm, rfl⟩)
  · intro hOne addresses next hLength hRun result hResult
    have hSound := sound_empty.addPorts hRun
    rw [List.nil_append, List.map_fst_zip (le_of_eq hLength.symm)] at hSound
    obtain ⟨a, hAddress⟩ := Option.ne_none_iff_exists'.mp (hSound.present result hResult)
    obtain ⟨source, hSource, hHost, hPort, hHeap⟩ := hSound.live _ _ a hAddress
    refine ⟨source.severity, stored_eq_some.mpr ⟨a, hAddress, hHeap⟩, ⟨source, hSource, hHost, hPort, rfl⟩, ?_⟩
    intro s hs
    obtain ⟨other, hOther, hOtherHost, hOtherPort, rfl⟩ := hs
    exact le_of_eq (hOne other hOther source hSource (hOtherHost.trans hHost.symm)
      (hOtherPort.trans hPort.symm))

/-- A result with a port and a severity. -/
def sampleResult (severity : ℚ) : Result where
  result := 0
  host := lit "10.0.0.1"
  port := lit "22/tcp"
  nvt := []
  type := []
  severity := severity
  level := []
  descr := []

/-- Severity 7 and then severity 5 at a higher address: the tree holds 5. -/
theorem carriesHighest_seven_five :
    ∃ addresses next, addresses.length = [sampleResult 7, sampleResult 5].length ∧
      empty.addPorts ([sampleResult 7, sampleResult 5].zip addresses) = some next ∧
      ¬ next.CarriesHighest [sampleResult 7, sampleResult 5] := by
  have hRun : (empty.addPorts [(sampleResult 7, 1), (sampleResult 5, 2)]).map
      (fun next => next.stored (lit "10.0.0.1") (lit "22/tcp")) = some (some 5) := by
    decide +kernel
  obtain ⟨next, hNext, hStored⟩ := Option.map_eq_some_iff.mp hRun
  refine ⟨[1, 2], next, rfl, hNext, fun h => ?_⟩
  obtain ⟨severity, hSeverity, hGreatest⟩ := h (sampleResult 7) (by simp)
  have hFive : severity = 5 := Option.some.inj (hSeverity.symm.trans hStored)
  have hSeven : (7 : ℚ) ≤ severity := hGreatest.2 ⟨sampleResult 7, by simp, rfl, rfl, rfl⟩
  rw [hFive] at hSeven
  exact absurd hSeven (by decide +kernel)

end Ports

end DeltaReports
