import OpenVAS.Hosts.Collection

/-! When excluding hosts removes what the exclude string names. A name that
resolves is replaced by its address before the comparison, so that the host of
that very name stays in the collection. -/
namespace Hosts

open CString Inet

/-- Whether an exclude list names a host: by its printed value or, when names are
resolved, by the address that a name of the list resolves to. -/
def isNamed (names : Names) (resolve : Bool) (excluded : OpenvasHosts) (host : OpenvasHost) : Bool :=
  excluded.hosts.any fun other =>
    openvasHostValueStr host = openvasHostValueStr other ||
      match other with
      | .name name =>
          resolve && (names.resolve name).any fun addr => openvasHostValueStr host = inetNtop4 addr
      | _ => false

/-- What is expected of an exclusion: the hosts that are not named stay in their order, the
answer is the number of the others, and -1 stands for an unchanged collection. -/
def ExcludesExactly (names : Names) (resolve : Bool) (hosts : OpenvasHosts) :
    Option OpenvasHosts → Int32 → OpenvasHosts → Prop
  | none, answer, after => answer = -1 ∧ after = hosts
  | some excluded, answer, after =>
      after.hosts = hosts.hosts.filter (fun host => !isNamed names resolve excluded host) ∧
        answer.toInt = hosts.hosts.countP (isNamed names resolve excluded) ∧
        (answer = -1 → after = hosts)

/-- A host has the same name as an entry of the exclude list that resolves. -/
def LosesName (names : Names) (excluded : OpenvasHosts) (host : OpenvasHost) : Prop :=
  ∃ name, OpenvasHost.name name ∈ excluded.hosts ∧ (names.resolve name).isSome = true ∧
    openvasHostValueStr host = name

/-- No host has a name that the exclude list has and that is resolved, the number of named hosts is
an `int`, and an exclude list whose count wraps around to 0 names none of the hosts. -/
def Excludable (names : Names) (resolve : Bool) (hosts excluded : OpenvasHosts) : Prop :=
  (resolve = true → ∀ host ∈ hosts.hosts, ¬ LosesName names excluded host) ∧
    hosts.hosts.countP (isNamed names resolve excluded) < 2 ^ 31 ∧
    (excluded.hosts.length % 2 ^ 32 = 0 →
      hosts.hosts.countP (isNamed names resolve excluded) = 0)

section Table

variable {names : Names} {excluded : OpenvasHosts} {host : OpenvasHost}

theorem isNamed_iff {resolve : Bool} :
    isNamed names resolve excluded host = true ↔
      openvasHostValueStr host ∈ excluded.hosts.map openvasHostValueStr ∨
        resolve = true ∧ ∃ name addr, OpenvasHost.name name ∈ excluded.hosts ∧
          names.resolve name = some addr ∧ openvasHostValueStr host = inetNtop4 addr := by
  rw [isNamed, List.any_eq_true]
  constructor
  · rintro ⟨other, hMem, hMatch⟩
    rw [Bool.or_eq_true, decide_eq_true_eq] at hMatch
    rcases hMatch with hText | hAddr
    · exact .inl (List.mem_map.mpr ⟨other, hMem, hText.symm⟩)
    · cases other with
      | name name =>
          simp only [Bool.and_eq_true, Option.any_eq_true, decide_eq_true_eq] at hAddr
          obtain ⟨hResolve, addr, hResolved, hText⟩ := hAddr
          exact .inr ⟨hResolve, name, addr, hMem, hResolved, hText⟩
      | ipv4 addr => simp at hAddr
      | ipv6 addr => simp at hAddr
  · rintro (hMem | ⟨hResolve, name, addr, hMem, hResolved, hText⟩)
    · obtain ⟨other, hMem, hText⟩ := List.mem_map.mp hMem
      exact ⟨other, hMem, by simp [hText]⟩
    · exact ⟨_, hMem, by simp [hResolve, hResolved, hText]⟩

/-- The texts after resolving: addresses in place of the names that resolve. -/
theorem mem_excludedTable_resolved {text : CString} :
    text ∈ excludedTable names true excluded ↔
      (∃ name addr, OpenvasHost.name name ∈ excluded.hosts ∧ names.resolve name = some addr ∧
        text = inetNtop4 addr) ∨
      ∃ other ∈ excluded.hosts, openvasHostValueStr other = text ∧
        ∀ name, other = .name name → names.resolve name = none := by
  simp only [excludedTable, if_true, openvasHostsResolve, List.map_map, List.mem_map,
    Function.comp_apply]
  constructor
  · rintro ⟨other, hMem, rfl⟩
    cases other with
    | name name =>
        cases hResolved : names.resolve name with
        | none => exact .inr ⟨_, hMem, by simp [hResolved], by simp [hResolved]⟩
        | some addr =>
            exact .inl ⟨name, addr, hMem, hResolved, by simp [hResolved, openvasHostValueStr]⟩
    | ipv4 addr => exact .inr ⟨_, hMem, rfl, by simp⟩
    | ipv6 addr => exact .inr ⟨_, hMem, rfl, by simp⟩
  · rintro (⟨name, addr, hMem, hResolved, rfl⟩ | ⟨other, hMem, rfl, hNone⟩)
    · exact ⟨_, hMem, by simp [hResolved, openvasHostValueStr]⟩
    · refine ⟨other, hMem, ?_⟩
      cases other with
      | name name => simp [hNone name rfl]
      | ipv4 addr => rfl
      | ipv6 addr => rfl

/-- The table misses exactly the names that were replaced. -/
theorem isNamed_iff_table {resolve : Bool} :
    isNamed names resolve excluded host = true ↔
      openvasHostValueStr host ∈ excludedTable names resolve excluded ∨
        resolve = true ∧ LosesName names excluded host := by
  rw [isNamed_iff]
  cases resolve with
  | false => simp [excludedTable]
  | true =>
      rw [mem_excludedTable_resolved]
      simp only [true_and, List.mem_map]
      constructor
      · rintro (⟨other, hMem, hText⟩ | hResolved)
        · by_cases hName : ∃ name, other = .name name ∧ (names.resolve name).isSome = true
          · obtain ⟨name, rfl, hSome⟩ := hName
            exact .inr ⟨name, hMem, hSome, hText.symm⟩
          · refine .inl (.inr ⟨other, hMem, hText, fun name hOther => ?_⟩)
            by_contra hSome
            exact hName ⟨name, hOther, Option.isSome_iff_ne_none.mpr hSome⟩
        · exact .inl (.inl hResolved)
      · rintro ((hResolved | ⟨other, hMem, hText, _⟩) | ⟨name, hMem, _, hText⟩)
        · exact .inr hResolved
        · exact .inl ⟨other, hMem, hText⟩
        · exact .inl ⟨_, hMem, hText.symm⟩

/-- A name that was replaced is not in the table in another way. -/
theorem not_mem_table_of_losesName (hValid : ∀ other ∈ excluded.hosts, ValidHost other)
    (hLoses : LosesName names excluded host) :
    openvasHostValueStr host ∉ excludedTable names true excluded := by
  obtain ⟨name, hMem, hSome, hText⟩ := hLoses
  rw [hText, mem_excludedTable_resolved]
  rintro (⟨name', addr, _, _, hAddr⟩ | ⟨other, hOther, hSame, hNone⟩)
  · have hRead := inetPton4_inetNtop4 addr
    rw [← hAddr, not_ipv4_of_name (hValid _ hMem)] at hRead
    simp at hRead
  · have hEq : other = .name name :=
      valueStr_injective (hValid other hOther) (hValid _ hMem) hSame
    rw [hNone name hEq] at hSome
    simp at hSome

end Table

/-- The hosts that the table leaves are those that are not named, unless one loses its name. -/
theorem filter_table_eq_iff {names : Names} {resolve : Bool} {hosts : List OpenvasHost}
    {excluded : OpenvasHosts} (hValid : ∀ other ∈ excluded.hosts, ValidHost other) :
    (hosts.filter fun host => openvasHostValueStr host ∉ excludedTable names resolve excluded) =
        hosts.filter (fun host => !isNamed names resolve excluded host) ↔
      (resolve = true → ∀ host ∈ hosts, ¬ LosesName names excluded host) := by
  constructor
  · rintro hSame rfl host hMem hLoses
    have hKept : host ∈ hosts.filter fun host =>
        openvasHostValueStr host ∉ excludedTable names true excluded :=
      List.mem_filter.mpr ⟨hMem, by simpa using not_mem_table_of_losesName hValid hLoses⟩
    rw [hSame, List.mem_filter, isNamed_iff_table.mpr (.inr ⟨rfl, hLoses⟩)] at hKept
    simp at hKept
  · intro hNames
    apply List.filter_congr
    intro host hMem
    rw [Bool.eq_iff_iff, decide_eq_true_eq, Bool.not_eq_true', ← Bool.not_eq_true,
      isNamed_iff_table, not_or]
    exact ⟨fun hTable => ⟨hTable, fun h => hNames h.1 host hMem h.2⟩, And.left⟩

/-- Excluding hosts removes exactly what the exclude string names, unless a host has the name of
an entry that is resolved away, or one of the counters wraps around. -/
theorem excludesExactly_iff {fuel : Nat} {excludedStr : CString} {excluded : Option OpenvasHosts}
    (hNew : openvasHostsNew fuel (some excludedStr) = .ok excluded) (names : Names)
    (hosts : OpenvasHosts) (resolve : Bool) :
    (∃ answer after, openvasHostsExclude fuel names hosts excludedStr resolve = .ok (answer, after) ∧
        ExcludesExactly names resolve hosts excluded answer after) ↔
      ∀ collection, excluded = some collection → Excludable names resolve hosts collection := by
  cases excluded with
  | none =>
      rw [openvasHostsExclude_refused hNew]
      exact ⟨fun _ _ h => by simp at h, fun _ => ⟨-1, hosts, rfl, rfl, rfl⟩⟩
  | some excluded =>
      have hValid := valid_openvasHostsNew hNew
      have hSum : hosts.hosts.length = hosts.hosts.countP (isNamed names resolve excluded) +
          (hosts.hosts.filter fun host => !isNamed names resolve excluded host).length := by
        rw [← List.countP_eq_length_filter,
          List.length_eq_countP_add_countP (isNamed names resolve excluded)]
        simp only [Bool.not_eq_true, Bool.decide_eq_false]
      rw [openvasHostsExclude_eq hNew]
      simp only [Option.some.injEq, forall_eq', Except.ok.injEq]
      generalize hNumber : hosts.hosts.countP (isNamed names resolve excluded) = number at hSum
      split
      · rename_i hWrapped
        constructor
        · rintro ⟨answer, after, hPair, hKept, hAnswer, _⟩
          obtain ⟨rfl, rfl⟩ := Prod.mk.inj hPair
          rw [hNumber] at hAnswer
          have hNone : number = 0 := by simpa using hAnswer.symm
          subst hNone
          refine ⟨fun hResolve host hMem hLoses => ?_, by omega, fun _ => hNumber⟩
          have hNot := List.countP_eq_zero.mp hNumber host hMem
          exact hNot (isNamed_iff_table.mpr (.inr ⟨hResolve, hLoses⟩))
        · rintro ⟨_, _, hNone⟩
          refine ⟨0, hosts, rfl, ?_, by rw [hNone hWrapped]; rfl, fun _ => rfl⟩
          refine (List.filter_eq_self.mpr fun host hMem => ?_).symm
          simpa using List.countP_eq_zero.mp (hNone hWrapped) host hMem
      · rename_i hPlain
        constructor
        · rintro ⟨answer, after, hPair, hKept, hAnswer, _⟩
          obtain ⟨rfl, rfl⟩ := Prod.mk.inj hPair
          have hBound := Int32.toInt_lt (Int32.ofNat (hosts.hosts.length -
            (hosts.hosts.filter fun host =>
              openvasHostValueStr host ∉ excludedTable names resolve excluded).length))
          rw [hAnswer, hNumber] at hBound
          refine ⟨(filter_table_eq_iff hValid).mp hKept, by omega, fun h => absurd h hPlain⟩
        · rintro ⟨hNames, hInt, _⟩
          have hKept := (filter_table_eq_iff hValid).mpr hNames
          have hAnswer : (Int32.ofNat (hosts.hosts.length - (hosts.hosts.filter fun host =>
              openvasHostValueStr host ∉ excludedTable names resolve excluded).length)).toInt =
                number := by
            rw [hKept, Int32.toInt_ofNat_of_lt (by omega)]
            omega
          refine ⟨_, _, rfl, hKept, by rw [hNumber]; exact hAnswer, fun hMinus => ?_⟩
          rw [hMinus] at hAnswer
          have hMinusOne : (-1 : Int32).toInt = -1 := rfl
          omega

/-- The collection of one name. -/
def oneName : OpenvasHosts where
  hosts := [.name (lit "a")]
  current := [.name (lit "a")]
  count := 1
  removed := 0

theorem excludesExactly_unresolved_name :
    ∃ answer after, openvasHostsExclude 1 noNames twoNames (lit "a") true = .ok (answer, after) ∧
      ExcludesExactly noNames true twoNames (some oneName) answer after := by
  have hNew : openvasHostsNew 1 (some (lit "a")) = .ok (some oneName) := by decide +kernel
  refine (excludesExactly_iff hNew noNames twoNames true).mpr fun collection hCollection => ?_
  obtain rfl := Option.some.inj hCollection
  refine ⟨fun _ host _ hLoses => ?_, by decide, fun hWrapped => absurd hWrapped (by decide)⟩
  obtain ⟨_, _, hSome, _⟩ := hLoses
  simp [noNames] at hSome

/-- A name service that knows the address of every name. -/
def allNames : Names where
  resolve _ := some 0x0a000001
  lookup4 _ := none
  lookup6 _ := none

/-- The host `a` is excluded by its name, and stays because the name resolves. -/
theorem resolved_name_stays :
    openvasHostsNew 1 (some (lit "a,b")) = .ok (some twoNames) ∧
      openvasHostsNew 1 (some (lit "a")) = .ok (some oneName) ∧
      openvasHostsExclude 1 allNames twoNames (lit "a") true = .ok (0, twoNames) ∧
      ¬ ExcludesExactly allNames true twoNames (some oneName) 0 twoNames := by
  refine ⟨by decide +kernel, by decide +kernel, by decide +kernel, fun hExact => ?_⟩
  exact absurd hExact.1 (by decide +kernel)

end Hosts
