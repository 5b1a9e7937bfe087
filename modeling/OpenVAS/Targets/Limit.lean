import OpenVAS.Hosts.Collection
import OpenVAS.Targets.Basic

/-! The limit on the hosts of a target. The collection is built under the limit, and what
is left of it after exclusion and cleaning is compared with the limit once more. -/
namespace Targets

open CString Hosts

/-! Collections under a maximum. -/

/-- A collection that counts its hosts exactly, and has at most the maximum of them. -/
def Fits (maxHosts : UInt32) (hosts : OpenvasHosts) : Prop :=
  hosts.count.toNat = hosts.hosts.length ∧ hosts.hosts.length ≤ maxHosts.toNat

section Building

variable {maxHosts : UInt32} {hosts after : OpenvasHosts}

theorem fits_prepend (hPos : 0 < maxHosts) (hSmall : maxHosts.toNat < 2 ^ 31) (h : Fits maxHosts hosts)
    {host : OpenvasHost} (hLimit : (hosts.prepend host).exceeds maxHosts = false) :
    Fits maxHosts (hosts.prepend host) := by
  obtain ⟨hCount, hLength⟩ := h
  have hNext : (hosts.prepend host).count.toNat = hosts.hosts.length + 1 := by
    simp only [OpenvasHosts.prepend, UInt32.toNat_add, hCount]
    exact Nat.mod_eq_of_lt (by simp; omega)
  refine ⟨hNext, ?_⟩
  have hNot : ¬ maxHosts < (hosts.prepend host).count := by
    intro hLt
    rw [OpenvasHosts.exceeds, decide_eq_true hPos, Bool.true_and, decide_eq_false_iff_not] at hLimit
    exact hLimit hLt
  rw [UInt32.lt_iff_toNat_lt, hNext] at hNot
  simpa [OpenvasHosts.prepend] using hNot

section AddressLoop

variable {α : Type} {next : α → α} {notAfter : α → α → Bool} {host : α → OpenvasHost}

theorem addAddresses_fits (hPos : 0 < maxHosts) (hSmall : maxHosts.toNat < 2 ^ 31) {fuel : Nat}
    {current last : α} (h : Fits maxHosts hosts)
    (hRun : addAddresses next notAfter host maxHosts fuel current last hosts = .ok (some after)) :
    Fits maxHosts after := by
  induction fuel generalizing current hosts with
  | zero => simp [addAddresses] at hRun
  | succ fuel ih =>
      rw [addAddresses] at hRun
      split at hRun
      · dsimp only at hRun
        split at hRun
        · simp at hRun
        · rename_i hLimit
          exact ih (fits_prepend hPos hSmall h (Bool.eq_false_iff.mpr hLimit)) hRun
      · obtain rfl := Option.some.inj (Except.ok.inj hRun)
        exact h

theorem addIps_fits (hPos : 0 < maxHosts) (hSmall : maxHosts.toNat < 2 ^ 31) {fuel : Nat}
    {ips : Ips α} (h : Fits maxHosts hosts)
    (hRun : addIps next notAfter host maxHosts fuel ips hosts = .ok (some after)) :
    Fits maxHosts after := by
  cases ips with
  | failed =>
      obtain rfl := Option.some.inj (Except.ok.inj hRun)
      exact h
  | undefined => simp [addIps] at hRun
  | range first last =>
      rw [addIps] at hRun
      split at hRun
      · exact addAddresses_fits hPos hSmall h hRun
      · obtain rfl := Option.some.inj (Except.ok.inj hRun)
        exact h

end AddressLoop

/-- A single host is added before the maximum is checked. -/
theorem addElement_fits (hPos : 0 < maxHosts) (hSmall : maxHosts.toNat < 2 ^ 31) {fuel : Nat}
    {element : CString} (h : Fits maxHosts hosts)
    (hRun : addElement maxHosts fuel element hosts = .ok (some after))
    (hLimit : after.exceeds maxHosts = false) : Fits maxHosts after := by
  have hSingle : ∀ host, hosts.prepend host = after → Fits maxHosts after := by
    rintro host rfl
    exact fits_prepend hPos hSmall h hLimit
  unfold addElement at hRun
  split at hRun
  · exact hSingle _ (Option.some.inj (Except.ok.inj hRun))
  · exact hSingle _ (Option.some.inj (Except.ok.inj hRun))
  · exact hSingle _ (Option.some.inj (Except.ok.inj hRun))
  · exact addIps_fits hPos hSmall h hRun
  · exact addIps_fits hPos hSmall h hRun
  · exact addIps_fits hPos hSmall h hRun
  · exact addIps_fits hPos hSmall h hRun
  · exact addIps_fits hPos hSmall h hRun
  · exact addIps_fits hPos hSmall h hRun
  · simp at hRun

theorem addElements_fits (hPos : 0 < maxHosts) (hSmall : maxHosts.toNat < 2 ^ 31) {fuel : Nat}
    {elements : List CString} (h : Fits maxHosts hosts)
    (hRun : addElements maxHosts fuel elements hosts = .ok (some after)) : Fits maxHosts after := by
  induction elements generalizing hosts with
  | nil =>
      obtain rfl := Option.some.inj (Except.ok.inj hRun)
      exact h
  | cons element rest ih =>
      rw [addElements] at hRun
      obtain ⟨result, hElement, hRest⟩ := Except.bind_eq_ok.mp hRun
      cases result with
      | none => simp at hRest
      | some middle =>
          dsimp only at hRest
          split at hRest
          · simp at hRest
          · rename_i hLimit
            exact ih (addElement_fits hPos hSmall h hElement (Bool.eq_false_iff.mpr hLimit)) hRest

theorem Fits.keep (hSmall : maxHosts.toNat < 2 ^ 31) (h : Fits maxHosts hosts)
    {kept : List OpenvasHost} (hKept : kept.length ≤ hosts.hosts.length) :
    Fits maxHosts (hosts.keep kept) := by
  obtain ⟨hCount, hLength⟩ := h
  have hCounts : Counts hosts := by
    rw [Counts, ← hCount, UInt32.ofNat_toNat]
  have hKeep : (hosts.keep kept).count = UInt32.ofNat kept.length := counts_keep hCounts hKept
  refine ⟨?_, Nat.le_trans hKept hLength⟩
  rw [hKeep]
  exact UInt32.toNat_ofNat_of_lt' (Nat.lt_of_le_of_lt (Nat.le_trans hKept hLength) (by
    simp only [UInt32.size]
    omega))

theorem openvasHostsNewWithMax_fits (hPos : 0 < maxHosts) (hSmall : maxHosts.toNat < 2 ^ 31)
    {fuel : Nat} {hostsStr : Option CString}
    (h : openvasHostsNewWithMax fuel hostsStr maxHosts = .ok (some hosts)) : Fits maxHosts hosts := by
  cases hostsStr with
  | none => simp [openvasHostsNewWithMax] at h
  | some hostsStr =>
      obtain ⟨result, hBuilt, hRest⟩ := Except.bind_eq_ok.mp h
      cases result with
      | none => simp at hRest
      | some built =>
          obtain rfl := Option.some.inj (Except.ok.inj hRest)
          have hFits : Fits maxHosts built :=
            addElements_fits hPos hSmall ⟨rfl, Nat.zero_le _⟩ hBuilt
          have hReversed : Fits maxHosts { built with hosts := built.hosts.reverse } := by
            simpa [Fits] using hFits
          exact hReversed.keep hSmall (unify_sublist _ _ _).length_le

end Building

/-! The count and the cleaned string. -/

/-- A small number of hosts is the same as an `int`. -/
theorem toInt_toInt32 {n : UInt32} (h : n.toNat < 2 ^ 31) : n.toInt32.toInt = n.toNat := by
  have hBits : n.toInt32.toInt = n.toBitVec.toInt := rfl
  rw [hBits, BitVec.toInt_eq_toNat_of_lt]
  · rfl
  · have hNat : n.toBitVec.toNat = n.toNat := rfl
    omega

/-- A positive limit as the number that the collection is built with. -/
theorem toNat_toUInt32 {n : Int32} (h : 0 < n.toInt) : (n.toUInt32.toNat : Int) = n.toInt := by
  have hLe : 0 ≤ n := Int32.le_iff_toInt_le.mpr (by simpa using Int.le_of_lt h)
  rw [Int32.toNat_toUInt32_of_le hLe]
  exact Int.toNat_of_nonneg (Int.le_of_lt h)

/-- A positive limit bounds the number of hosts that is counted. -/
theorem manageCountHosts_le {context : Context} {fuel : Nat}
    {givenHosts excludeHosts : Option CString} {count : Int32} (hPos : 0 < context.maxHosts.toInt)
    (h : manageCountHosts context fuel givenHosts excludeHosts = .ok count) :
    count.toInt ≤ context.maxHosts.toInt := by
  have hUnsigned := toNat_toUInt32 hPos
  have hTop := context.maxHosts.toInt_lt
  have hSmall : context.maxHosts.toUInt32.toNat < 2 ^ 31 := by omega
  have hPos' : 0 < context.maxHosts.toUInt32 := UInt32.lt_iff_toNat_lt.mpr (by
    simp only [UInt32.toNat_zero]
    omega)
  have hCount : ∀ hosts, Fits context.maxHosts.toUInt32 hosts →
      hosts.count.toInt32.toInt ≤ context.maxHosts.toInt := by
    rintro hosts ⟨hExact, hLength⟩
    rw [toInt_toInt32 (by omega)]
    omega
  obtain ⟨result, hNew, hRest⟩ := Except.bind_eq_ok.mp h
  cases result with
  | none =>
      obtain rfl := Except.ok.inj hRest
      exact Int.le_trans (by decide) (Int.le_of_lt hPos)
  | some hosts =>
      have hFits := openvasHostsNewWithMax_fits hPos' hSmall hNew
      cases excludeHosts with
      | none =>
          obtain rfl := Except.ok.inj hRest
          exact hCount hosts hFits
      | some excludeHosts =>
          obtain ⟨⟨code, after⟩, hExclude, hAfter⟩ := Except.bind_eq_ok.mp hRest
          obtain rfl := Except.ok.inj hAfter
          rcases openvasHostsExclude_cases hExclude with ⟨_, _, _, rfl⟩ | ⟨kept, hKept, rfl⟩
          · exact hCount _ hFits
          · exact hCount _ (hFits.keep hSmall hKept.length_le)

/-- Cleaning only takes from the number of hosts. -/
theorem cleanLoop_max (points cleanArray : List CString) (max : Int) :
    ∃ left ≤ max, (cleanLoop points cleanArray (some max)).2 = some left := by
  induction points generalizing cleanArray max with
  | nil => exact ⟨max, Int.le_refl _, rfl⟩
  | cons point rest ih =>
      rw [cleanLoop]
      split
      · exact ih cleanArray max
      · split
        · obtain ⟨left, hLe, hLeft⟩ := ih cleanArray (max - 1)
          exact ⟨left, by omega, hLeft⟩
        · exact ih _ max

theorem cleanHosts_max {givenHosts clean : CString} {max : Int} {left : Option Int}
    (h : cleanHosts givenHosts (some max) = some (clean, left)) : ∃ n ≤ max, left = some n := by
  rw [cleanHosts] at h
  split at h
  · obtain ⟨_, rfl⟩ := Prod.mk.inj (Option.some.inj h)
    exact ⟨max, Int.le_refl _, rfl⟩
  · obtain ⟨n, hLe, hLoop⟩ := cleanLoop_max (hostParts givenHosts) [] max
    obtain ⟨_, _, hPair⟩ := Option.map_eq_some_iff.mp h
    obtain ⟨_, rfl⟩ := Prod.mk.inj hPair
    exact ⟨n, hLe, hLoop⟩

/-- The texts of the cleaned string do not depend on the number of hosts. -/
theorem cleanLoop_texts (points cleanArray : List CString) (max max' : Option Int) :
    (cleanLoop points cleanArray max).1 = (cleanLoop points cleanArray max').1 := by
  induction points generalizing cleanArray max max' with
  | nil => rfl
  | cons point rest ih =>
      rw [cleanLoop, cleanLoop]
      split
      · exact ih cleanArray max max'
      · split
        · exact ih cleanArray _ _
        · exact ih _ max max'

theorem cleanHosts_text (givenHosts : CString) (max max' : Option Int) :
    (cleanHosts givenHosts max).map Prod.fst = (cleanHosts givenHosts max').map Prod.fst := by
  rw [cleanHosts, cleanHosts]
  split
  · rfl
  · rw [Option.map_map, Option.map_map, cleanLoop_texts _ _ max max']
    rfl

end Targets
