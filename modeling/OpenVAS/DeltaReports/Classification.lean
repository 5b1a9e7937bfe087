import Mathlib.Data.Set.Basic
import OpenVAS.DeltaReports.Loops
import OpenVAS.DeltaReports.Order
import OpenVAS.DeltaReports.Pages

/-! An unpaged delta report lists every result once, and what it lists as the same or changed is
the same result, unless it is sorted by ROWID or two hosts are not told apart. -/
namespace DeltaReports

open CString Merge

/-- The result of the first report that an entry lists. -/
def Entry.first : Entry → Option Result
  | .changed x _ => some x
  | .gone x => some x
  | .new _ => none
  | .same x _ => some x

/-- The result of the second report that an entry lists. -/
def Entry.second : Entry → Option Result
  | .changed _ y => some y
  | .gone _ => none
  | .new y => some y
  | .same _ y => some y

theorem first_entryOf (item : Item Result Result) : (entryOf item).first = item.first := by
  cases item with
  | left x => rfl
  | right y => rfl
  | both x y =>
      rw [entryOf]
      rcases stateOf_both x y with hState | hState <;> rw [hState] <;> rfl

theorem second_entryOf (item : Item Result Result) : (entryOf item).second = item.second := by
  cases item with
  | left x => rfl
  | right y => rfl
  | both x y =>
      rw [entryOf]
      rcases stateOf_both x y with hState | hState <;> rw [hState] <;> rfl

theorem eq_left_of_entryOf {item : Item Result Result} {x : Result}
    (h : entryOf item = .gone x) : item = .left x := by
  cases item with
  | left x' => exact congrArg Item.left (Entry.gone.inj h)
  | right y => cases h
  | both x' y =>
      rw [entryOf] at h
      rcases stateOf_both x' y with hState | hState <;> rw [hState] at h <;> cases h

theorem eq_right_of_entryOf {item : Item Result Result} {y : Result}
    (h : entryOf item = .new y) : item = .right y := by
  cases item with
  | left x => cases h
  | right y' => exact congrArg Item.right (Entry.new.inj h)
  | both x y' =>
      rw [entryOf] at h
      rcases stateOf_both x y' with hState | hState <;> rw [hState] at h <;> cases h

/-- An entry that lists two results. -/
theorem eq_both_of_entryOf {item : Item Result Result} {x y : Result}
    (hFirst : (entryOf item).first = some x) (hSecond : (entryOf item).second = some y) :
    item = .both x y := by
  rw [first_entryOf] at hFirst
  rw [second_entryOf] at hSecond
  cases item with
  | left x' => cases hSecond
  | right y' => cases hFirst
  | both x' y' => rw [Option.some.inj hFirst, Option.some.inj hSecond]

/-- No two results of a report are the same to a delta report. -/
def NoRepeats (results : List Result) : Prop := results.Pairwise fun x y => ¬ SameKey x y

/-- What is to be expected of the entries of a delta report. -/
structure Classified (results deltaResults : List Result) (listed : List Entry) : Prop where
  /-- Every result of the first report is listed once as gone, same or changed. -/
  first : listed.filterMap Entry.first = results
  /-- Every result of the second report is listed once as new, same or changed. -/
  second : listed.filterMap Entry.second = deltaResults
  /-- Results that are listed together have the same host, port and NVT. -/
  together : ∀ item ∈ listed, ∀ x y, item.first = some x → item.second = some y →
    x.host = y.host ∧ x.port = y.port ∧ x.nvt = y.nvt
  /-- Nothing is gone and new. -/
  alone : NoRepeats results → NoRepeats deltaResults → ∀ x y, .gone x ∈ listed → .new y ∈ listed →
    ¬ SameKey x y

/-- An unpaged report of all states classifies the results of two reports. -/
def Classifies (sortOrder : Int) (sortField : Option CString) (levels : CString)
    (results deltaResults : List Result) : Prop :=
  ∃ report, deltaReport sortOrder sortField (lit "cgns") levels ⟨0, -1⟩ results deltaResults =
    some report ∧ Classified results deltaResults report.listed

theorem wanted_all (state : CompareResults) : wanted (lit "cgns") state = true := by
  cases state with
  | changed => decide
  | gone => decide
  | new => decide
  | same => decide

theorem asked_all (items : List (Item Result Result)) : asked (wanted (lit "cgns")) items = items :=
  List.filter_eq_self.mpr fun item _ => wanted_all (stateOf item)

/-- An unpaged report of all states lists everything that is read. -/
theorem deltaReport_unpaged {sortOrder : Int} {sortField : Option CString} (levels : CString)
    {xs ys : List Result} {merged : Merged Result Result}
    (h : merge (resultCmp sortOrder sortField) xs ys = some merged) :
    ∃ report, deltaReport sortOrder sortField (lit "cgns") levels ⟨0, -1⟩ xs ys = some report ∧
      report.listed = merged.all.map entryOf := by
  obtain ⟨progress, hLoop, hListed⟩ :=
    lists_all h (wanted (lit "cgns")) ⟨0, -1⟩ (reportCounts xs)
  obtain ⟨progress', page', counts', hLoop', hRest, -⟩ :=
    reach_all h (wanted (lit "cgns")) ⟨0, -1⟩ (reportCounts xs) nofun
  obtain rfl := Option.some.inj (hLoop.symm.trans hLoop')
  refine ⟨{ listed := progress.listed, counts := resultCount levels counts', page := page' }, ?_, ?_⟩
  · simp only [deltaReport, hLoop, hRest, Option.map_some]
  · rw [hListed, asked_all]
    exact pageEntries_unpaged rfl (by decide) _

theorem filterMap_first (items : List (Item Result Result)) :
    (items.map entryOf).filterMap Entry.first = items.filterMap Item.first := by
  rw [List.filterMap_map]
  exact congrArg (List.filterMap · items) (funext first_entryOf)

theorem filterMap_second (items : List (Item Result Result)) :
    (items.map entryOf).filterMap Entry.second = items.filterMap Item.second := by
  rw [List.filterMap_map]
  exact congrArg (List.filterMap · items) (funext second_entryOf)

/-- Two hosts that the order of hosts can compare, and takes for equal only if they are. -/
def ToldApart (one two : CString) : Prop :=
  ∃ ret, collateIp one two = some ret ∧ (ret = 0 → one = two)

/-- Without ROWIDs, results on hosts that are told apart are classified. -/
theorem classifies_of_toldApart {sortOrder : Int} {sortField : Option CString}
    (hField : sortField ≠ some (lit "ROWID")) {xs ys : List Result}
    (hHosts : ∀ x ∈ xs, ∀ y ∈ ys, ToldApart x.host y.host)
    (hXs : Sorted (resultCmp sortOrder sortField) xs)
    (hYs : Sorted (resultCmp sortOrder sortField) ys) (levels : CString) :
    Classifies sortOrder sortField levels xs ys := by
  have hCmp : ∀ x ∈ xs, ∀ y ∈ ys, ∃ ret, resultCmp sortOrder sortField x y = some ret := by
    intro x hx y hy
    obtain ⟨host, hHost, -⟩ := hHosts x hx y hy
    exact ⟨_, (resultCmp_eq_some_iff hField).mpr ⟨host, hHost, rfl⟩⟩
  obtain ⟨merged, hMerge⟩ := exists_merge hCmp
  obtain ⟨report, hReport, hListed⟩ := deltaReport_unpaged levels hMerge
  refine ⟨report, hReport, ?_, ?_, ?_, ?_⟩
  · rw [hListed, filterMap_first, filterMap_first_all hMerge]
  · rw [hListed, filterMap_second, filterMap_second_all hMerge]
  · intro item hItem x y hFirst hSecond
    rw [hListed] at hItem
    obtain ⟨read, hRead, rfl⟩ := List.mem_map.mp hItem
    obtain rfl := eq_both_of_entryOf hFirst hSecond
    obtain ⟨hHost, hPort, hNvt⟩ := resultCmp_eq_zero hField (cmp_of_both hMerge hRead)
    obtain ⟨ret, hRet, hSame⟩ := hHosts x (mem_left_of_mem_all hMerge hRead rfl) y
      (mem_right_of_mem_all hMerge hRead rfl)
    rw [hHost] at hRet
    exact ⟨hSame (Option.some.inj hRet).symm, hPort, hNvt⟩
  · intro hLefts hRights x y hGone hNew
    rw [hListed] at hGone hNew
    obtain ⟨left, hLeft, hLeftEq⟩ := List.mem_map.mp hGone
    obtain ⟨right, hRight, hRightEq⟩ := List.mem_map.mp hNew
    obtain rfl := eq_left_of_entryOf hLeftEq
    obtain rfl := eq_right_of_entryOf hRightEq
    exact not_same_of_alone (compatible_resultCmp hField) hXs hYs hMerge hLeft hRight

/-- With one list empty nothing is compared. -/
theorem classifies_of_nil {sortOrder : Int} {sortField : Option CString} {xs ys : List Result}
    (hNil : xs = [] ∨ ys = []) (levels : CString) : Classifies sortOrder sortField levels xs ys := by
  have hCmp : ∀ x ∈ xs, ∀ y ∈ ys, ∃ ret, resultCmp sortOrder sortField x y = some ret := by
    rintro x hx y hy
    rcases hNil with rfl | rfl
    · cases hx
    · cases hy
  obtain ⟨merged, hMerge⟩ := exists_merge hCmp
  obtain ⟨report, hReport, hListed⟩ := deltaReport_unpaged levels hMerge
  have hFirst : report.listed.filterMap Entry.first = xs := by
    rw [hListed, filterMap_first, filterMap_first_all hMerge]
  have hSecond : report.listed.filterMap Entry.second = ys := by
    rw [hListed, filterMap_second, filterMap_second_all hMerge]
  -- An entry of the list that is empty is not there.
  have hOne : ∀ {x y : Result} {item item' : Entry}, item ∈ report.listed → item' ∈ report.listed →
      item.first = some x → item'.second = some y → False := by
    intro x y item item' hItem hItem' hx hy
    rcases hNil with rfl | rfl
    · exact List.not_mem_nil (hFirst ▸ List.mem_filterMap.mpr ⟨item, hItem, hx⟩)
    · exact List.not_mem_nil (hSecond ▸ List.mem_filterMap.mpr ⟨item', hItem', hy⟩)
  exact ⟨report, hReport, hFirst, hSecond, fun item hItem x y hx hy => (hOne hItem hItem hx hy).elim,
    fun _ _ x y hGone hNew => (hOne hGone hNew rfl rfl).elim⟩

/-- Two given lists are classified when one of them is empty, or when they are not sorted by ROWID
and the hosts of the one are told apart from those of the other. -/
theorem classifies_of_lists {sortOrder : Int} {sortField : Option CString} {xs ys : List Result}
    (hXs : Sorted (resultCmp sortOrder sortField) xs)
    (hYs : Sorted (resultCmp sortOrder sortField) ys)
    (h : xs = [] ∨ ys = [] ∨ sortField ≠ some (lit "ROWID") ∧
      ∀ x ∈ xs, ∀ y ∈ ys, ToldApart x.host y.host) (levels : CString) :
    Classifies sortOrder sortField levels xs ys := by
  rcases h with hNil | hNil | ⟨hField, hHosts⟩
  · exact classifies_of_nil (.inl hNil) levels
  · exact classifies_of_nil (.inr hNil) levels
  · exact classifies_of_toldApart hField hHosts hXs hYs levels

/-! Single results. -/

/-- Results that compare as equal are listed together. -/
theorem same_of_classifies {sortOrder : Int} {sortField : Option CString} {levels : CString}
    {x y : Result} (hCmp : resultCmp sortOrder sortField x y = some 0)
    (h : Classifies sortOrder sortField levels [x] [y]) :
    x.host = y.host ∧ x.port = y.port ∧ x.nvt = y.nvt := by
  obtain ⟨report, hReport, hClassified⟩ := h
  have hMerge : merge (resultCmp sortOrder sortField) [x] [y] = some ⟨[.both x y], [], []⟩ := by
    simp [merge, hCmp, Merged.cons]
  obtain ⟨report', hReport', hListed⟩ := deltaReport_unpaged levels hMerge
  obtain rfl := Option.some.inj (hReport.symm.trans hReport')
  have hItem : entryOf (.both x y) ∈ report.listed := by
    rw [hListed]
    exact List.mem_singleton_self _
  exact hClassified.together _ hItem x y (first_entryOf _) (second_entryOf _)

/-- Results that cannot be compared have no report. -/
theorem not_classifies_of_none {sortOrder : Int} {sortField : Option CString} {levels : CString}
    {x y : Result} (hCmp : resultCmp sortOrder sortField x y = none) :
    ¬ Classifies sortOrder sortField levels [x] [y] := by
  rintro ⟨report, hReport, -⟩
  have hCompare : compareResults sortOrder sortField x y = none := by rw [compareResults, hCmp]
  have hPage : ((⟨0, -1⟩ : Page).maxResults) ≠ 0 := by decide
  rw [deltaReport, compareLoop, if_neg hPage, compareAndBufferResults, hCompare] at hReport
  cases hReport

/-- A result of a host, at a place in the table and on a port. -/
def resultAt (result : Nat) (host port : CString) : Result :=
  ⟨result, host, port, lit "1.3.6.1.4.1.25623.1.0.1", lit "Alarm", 5, lit "Medium", []⟩

theorem resultCmpRest_same_port (sortOrder : Int) (sortField : CString) (result result' : Nat)
    (host host' port : CString) :
    resultCmpRest sortOrder sortField (resultAt result host port) (resultAt result' host' port) =
      0 := by
  have hPort : strcmp port port = 0 := strcmp_eq_zero_iff.mpr rfl
  have hNvt : strcmp (lit "1.3.6.1.4.1.25623.1.0.1") (lit "1.3.6.1.4.1.25623.1.0.1") = 0 :=
    strcmp_eq_zero_iff.mpr rfl
  have hSeverity : severityCmp 5 5 = 0 := by simp [severityCmp]
  have hType : collateMessageType (lit "Alarm") (lit "Alarm") = 0 := by decide
  rw [resultCmpRest]
  simp only [resultAt, hPort, hNvt, hSeverity, hType, neg_zero]
  split <;> split <;> rfl

/-- Sorted by ROWID, different results compare as equal. -/
theorem exists_rowid_zero (sortOrder : Int) (host : CString) :
    ∃ result result', resultCmp sortOrder (some (lit "ROWID")) (resultAt result host (lit "1/tcp"))
      (resultAt result' host (lit "2/tcp")) = some 0 := by
  by_cases hOrder : sortOrder = 0
  · refine ⟨2, 1, ?_⟩
    rw [hOrder]
    rfl
  · refine ⟨1, 2, ?_⟩
    simp [resultCmp, hOrder, resultAt]

theorem sorted_singleton (cmp : Result → Result → Option Int) (x : Result) : Sorted cmp [x] :=
  List.pairwise_singleton _ _

/-- Delta reports classify all sorted results of some hosts exactly when there are none, or when
the results are not sorted by ROWID and the order of hosts tells the hosts apart. -/
theorem classifies_iff (sortOrder : Int) (sortField : Option CString) (levels : CString)
    (hosts : Set CString) :
    (∀ results deltaResults, (∀ x ∈ results, x.host ∈ hosts) → (∀ y ∈ deltaResults, y.host ∈ hosts) →
        Sorted (resultCmp sortOrder sortField) results →
        Sorted (resultCmp sortOrder sortField) deltaResults →
        Classifies sortOrder sortField levels results deltaResults) ↔
      hosts = ∅ ∨ sortField ≠ some (lit "ROWID") ∧
        ∀ one ∈ hosts, ∀ two ∈ hosts, ToldApart one two := by
  constructor
  · intro hAll
    rcases hosts.eq_empty_or_nonempty with hEmpty | ⟨host, hHost⟩
    · exact .inl hEmpty
    have hSingle : ∀ x y : Result, x.host ∈ hosts → y.host ∈ hosts →
        Classifies sortOrder sortField levels [x] [y] := fun x y hx hy =>
      hAll [x] [y] (List.forall_mem_singleton.mpr hx) (List.forall_mem_singleton.mpr hy)
        (sorted_singleton _ x) (sorted_singleton _ y)
    have hField : sortField ≠ some (lit "ROWID") := by
      rintro rfl
      obtain ⟨result, result', hCmp⟩ := exists_rowid_zero sortOrder host
      have hPorts : lit "1/tcp" = lit "2/tcp" :=
        (same_of_classifies hCmp (hSingle _ _ hHost hHost)).2.1
      exact absurd hPorts (by decide)
    refine .inr ⟨hField, fun one hOne two hTwo => ?_⟩
    have hPair := hSingle (resultAt 1 one []) (resultAt 2 two []) hOne hTwo
    cases hCollate : collateIp one two with
    | none =>
        have hNone : resultCmp sortOrder sortField (resultAt 1 one []) (resultAt 2 two []) = none := by
          rw [Option.eq_none_iff_forall_not_mem]
          intro ret hRet
          obtain ⟨ret', hSome, -⟩ := (resultCmp_eq_some_iff hField).mp hRet
          cases hCollate.symm.trans hSome
        exact absurd hPair (not_classifies_of_none hNone)
    | some ret =>
        refine ⟨ret, hCollate, fun hZero => ?_⟩
        have hCmp : resultCmp sortOrder sortField (resultAt 1 one []) (resultAt 2 two []) = some 0 :=
          (resultCmp_eq_some_iff hField).mpr ⟨ret, hCollate, by
            rw [if_neg (not_not.mpr hZero), resultCmpRest_same_port]⟩
        exact (same_of_classifies hCmp hPair).1
  · intro hHosts results deltaResults hResults hDelta hXs hYs
    apply classifies_of_lists hXs hYs
    rcases hHosts with rfl | ⟨hField, hApart⟩
    · exact .inl (List.eq_nil_iff_forall_not_mem.mpr fun x hx => hResults x hx)
    · exact .inr (.inr ⟨hField, fun x hx y hy => hApart _ (hResults x hx) _ (hDelta y hy)⟩)

/-- Two results on different ports are listed together by a report that is sorted by ROWID. -/
theorem rowid_lists_together :
    Sorted (resultCmp 1 (some (lit "ROWID"))) [resultAt 1 (lit "10.0.0.1") (lit "1/tcp")] ∧
      Sorted (resultCmp 1 (some (lit "ROWID"))) [resultAt 2 (lit "10.0.0.1") (lit "2/tcp")] ∧
      ¬ Classifies 1 (some (lit "ROWID")) (lit "hmlgf") [resultAt 1 (lit "10.0.0.1") (lit "1/tcp")]
        [resultAt 2 (lit "10.0.0.1") (lit "2/tcp")] := by
  refine ⟨sorted_singleton _ _, sorted_singleton _ _, fun hClassifies => ?_⟩
  have hCmp : resultCmp 1 (some (lit "ROWID")) (resultAt 1 (lit "10.0.0.1") (lit "1/tcp"))
      (resultAt 2 (lit "10.0.0.1") (lit "2/tcp")) = some 0 := rfl
  exact absurd (same_of_classifies hCmp hClassifies).2.1 (by decide)

end DeltaReports
