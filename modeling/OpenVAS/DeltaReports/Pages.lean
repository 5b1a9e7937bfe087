import Mathlib.Algebra.BigOperators.Group.List.Basic
import OpenVAS.DeltaReports.Loops

/-! The counts that a delta report prints. They do not depend on the page as long as the page
does not begin or end among the extra results of the second report. -/
namespace DeltaReports

open CString Merge

/-- One of the counts, and how a result of a level weighs in it. -/
structure Tally where
  count : Counts → Int
  weight : CString → Int
  count_add : ∀ counts n level, count (counts.add n level) = count counts + n * weight level

namespace Tally

variable (tally : Tally)

/-- The weight of results. -/
def sum (results : List Result) : Int := (results.map fun x => tally.weight x.level).sum

@[simp] theorem sum_nil : tally.sum [] = 0 := rfl

@[simp] theorem sum_cons (x : Result) (xs : List Result) :
    tally.sum (x :: xs) = tally.weight x.level + tally.sum xs := List.sum_cons

theorem count_foldl (n : Int) (results : List Result) (counts : Counts) :
    tally.count (results.foldl (fun counts x => counts.add n x.level) counts) =
      tally.count counts + n * tally.sum results := by
  induction results generalizing counts with
  | nil => simp
  | cons x xs ih =>
      rw [List.foldl_cons, ih, tally.count_add, sum_cons]
      ring

theorem count_dropExtra (counts : Counts) (xs : List Result) :
    tally.count (dropExtra counts xs) = tally.count counts - tally.sum xs := by
  rw [dropExtra, tally.count_foldl]
  ring

end Tally

/-- The result whose level counts. -/
def counted : Item Result Result → Result
  | .left x => x
  | .right y => y
  | .both x _ => x

/-- The counts of what is read. -/
def itemCounts (items : List (Item Result Result)) : Counts := reportCounts (items.map counted)

/-! Extra results of the second report. -/

/-- The extra results that the loop on the page does not count. -/
def uncountedTail : Page → List Result → List Result
  | _, [] => []
  | page, y :: ys =>
      if page.firstResult ≠ 0 then y :: uncountedTail page.next ys
      else if page.maxResults - 1 = 0 then ys
      else uncountedTail page.next ys

theorem count_extraNew (tally : Tally) (page : Page) (counts : Counts) (ys : List Result) :
    tally.count (extraNew page counts ys).2.1 + tally.sum (uncountedTail page ys) =
      tally.count counts + tally.sum ys := by
  induction ys generalizing page counts with
  | nil => rfl
  | cons y ys ih =>
      rw [extraNew, uncountedTail, tally.sum_cons]
      by_cases hFirst : page.firstResult = 0
      · rw [if_neg (not_not.mpr hFirst), if_neg (not_not.mpr hFirst), Page.next,
          if_neg (not_not.mpr hFirst)]
        by_cases hFull : page.maxResults - 1 = 0
        · simp only [hFull, if_true, tally.count_add]
          ring
        · simp only [hFull, if_false]
          rw [ih, tally.count_add]
          ring
      · have hRest := ih page.next counts
        rw [if_pos hFirst, if_pos hFirst, tally.sum_cons]
        rw [Page.next, if_pos hFirst] at hRest ⊢
        rw [add_left_comm, hRest, add_left_comm]

/-- The extra results that are not counted when `before` results were asked for in front of
them. -/
def uncounted : Nat → Page → List Result → List Result
  | 0, page, ys => if page.maxResults = 0 then [] else uncountedTail page ys
  | before + 1, page, ys => if page.maxResults = 0 then [] else uncounted before page.next ys

theorem uncounted_of_full {page : Page} (h : page.maxResults = 0) (before : Nat)
    (ys : List Result) : uncounted before page ys = [] := by
  cases before with
  | zero => rw [uncounted, if_pos h]
  | succ before => rw [uncounted, if_pos h]

theorem uncountedTail_nil (page : Page) : uncountedTail page [] = [] := rfl

theorem uncounted_nil (before : Nat) (page : Page) : uncounted before page [] = [] := by
  induction before generalizing page with
  | zero =>
      rw [uncounted, uncountedTail_nil]
      split <;> rfl
  | succ before ih =>
      rw [uncounted, ih]
      split <;> rfl

theorem next_of_pos {page : Page} (h : page.firstResult = 0) :
    page.next = { page with maxResults := page.maxResults - 1 } := by
  rw [Page.next, if_neg (not_not.mpr h)]

theorem next_of_skip {page : Page} (h : page.firstResult ≠ 0) :
    page.next = { page with firstResult := page.firstResult - 1 } := by
  rw [Page.next, if_pos h]

theorem uncountedTail_eq_nil_iff {page : Page} (hPage : page.maxResults ≠ 0) (ys : List Result) :
    uncountedTail page ys = [] ↔
      ys = [] ∨ page.firstResult = 0 ∧ (page.maxResults < 0 ∨ (ys.length : Int) ≤ page.maxResults) := by
  induction ys generalizing page with
  | nil => simp [uncountedTail]
  | cons y ys ih =>
      rw [uncountedTail]
      by_cases hFirst : page.firstResult = 0
      · rw [if_neg (not_not.mpr hFirst), next_of_pos hFirst]
        by_cases hFull : page.maxResults - 1 = 0
        · rw [if_pos hFull, ← List.length_eq_zero_iff, List.length_cons]
          simp only [reduceCtorEq, false_or, hFirst, true_and]
          omega
        · rw [if_neg hFull, ih (by exact hFull), ← List.length_eq_zero_iff, List.length_cons]
          simp only [reduceCtorEq, false_or, hFirst, true_and]
          omega
      · rw [if_pos hFirst]
        simp [hFirst]

/-- The page ends in front of the extra results, or it begins no later than they do and holds
all of them. -/
def Page.Covers (page : Page) (before extras : Nat) : Prop :=
  extras = 0 ∨ 0 ≤ page.firstResult ∧
    (0 < page.maxResults ∧ page.firstResult + page.maxResults ≤ before ∨
      page.firstResult ≤ before ∧
        (page.maxResults < 0 ∨ (before + extras : Int) ≤ page.firstResult + page.maxResults))

theorem uncounted_eq_nil_iff {page : Page} (hPage : page.maxResults ≠ 0) (before : Nat)
    (ys : List Result) : uncounted before page ys = [] ↔ page.Covers before ys.length := by
  induction before generalizing page with
  | zero =>
      rw [uncounted, if_neg hPage, uncountedTail_eq_nil_iff hPage, ← List.length_eq_zero_iff,
        Page.Covers]
      omega
  | succ before ih =>
      rw [uncounted, if_neg hPage]
      by_cases hFirst : page.firstResult = 0
      · rw [next_of_pos hFirst]
        by_cases hFull : page.maxResults - 1 = 0
        · rw [uncounted_of_full (by exact hFull)]
          refine iff_of_true rfl (.inr ⟨by omega, .inl ⟨by omega, ?_⟩⟩)
          push_cast
          omega
        · rw [ih (by exact hFull), Page.Covers, Page.Covers]
          dsimp only
          push_cast
          omega
      · rw [next_of_skip hFirst, ih (by exact hPage), Page.Covers, Page.Covers]
        dsimp only
        push_cast
        omega

/-! Both loops. -/

/-- Nothing is skipped behind a full page. -/
def Page.Valid (page : Page) : Prop := page.maxResults = 0 → page.firstResult = 0

theorem Page.Valid.step {page : Page} (hPage : page.maxResults ≠ 0) (asked : Bool) :
    (page.step asked).Valid := by
  intro hFull
  cases asked with
  | false => exact absurd hFull hPage
  | true =>
      by_cases hFirst : page.firstResult = 0
      · simp [Page.step, Page.next, hFirst]
      · rw [Page.step, if_pos rfl, next_of_skip hFirst] at hFull
        exact absurd hFull hPage

namespace Tally

variable (tally : Tally) (wanted : CompareResults → Bool)

/-- The weight of what is asked for. -/
def items (items : List (Item Result Result)) : Int :=
  tally.sum ((asked wanted items).map counted)

theorem items_cons (item : Item Result Result) (rest : List (Item Result Result)) :
    tally.items wanted (item :: rest) =
      (if wanted (stateOf item) then tally.weight (counted item).level else 0) +
        tally.items wanted rest := by
  cases hWanted : wanted (stateOf item) with
  | false => simp [items, asked, hWanted]
  | true => simp [items, asked, hWanted]

theorem items_map_right (ys : List Result) :
    tally.items wanted (ys.map .right) = if wanted .new then tally.sum ys else 0 := by
  rw [items, asked_map_right]
  split
  · rw [List.map_map]
    exact congrArg tally.sum (List.map_id ys)
  · rfl

theorem items_map_left (xs : List Result) :
    tally.items wanted (xs.map .left) = if wanted .gone then tally.sum xs else 0 := by
  rw [items, asked_map_left]
  split
  · rw [List.map_map]
    exact congrArg tally.sum (List.map_id xs)
  · rfl

end Tally

section

variable {compare : Result → Result → Option CompareResults} {wanted : CompareResults → Bool}

/-- Behind a full page the loop counts everything. -/
def Counts.Settle (compare : Result → Result → Option CompareResults)
    (wanted : CompareResults → Bool) (xs ys : List Result) (items : List (Item Result Result)) :
    Prop :=
  ∀ page counts, page.firstResult = 0 → ∃ page' counts',
    countLoop compare wanted page counts xs ys = some (page', counts') ∧ ∀ tally : Tally,
      tally.count counts' = tally.count counts - tally.sum xs + tally.items wanted items

theorem settle_right (ys : List Result) : Counts.Settle compare wanted [] ys (ys.map .right) := by
  intro page counts hPage
  rw [countLoop]
  cases hWanted : wanted .new with
  | false =>
      refine ⟨_, _, rfl, fun tally => ?_⟩
      rw [tally.items_map_right, hWanted]
      simp
  | true =>
      refine ⟨_, _, rfl, fun tally => ?_⟩
      rw [tally.items_map_right, hWanted, tally.count_foldl]
      simp

theorem settle_left (x : Result) (xs : List Result) :
    Counts.Settle compare wanted (x :: xs) [] ((x :: xs).map .left) := by
  intro page counts hPage
  rw [countLoop]
  cases hWanted : wanted .gone with
  | false =>
      refine ⟨_, _, rfl, fun tally => ?_⟩
      rw [tally.items_map_left, hWanted, tally.count_dropExtra]
      simp
  | true =>
      refine ⟨_, _, rfl, fun tally => ?_⟩
      rw [tally.items_map_left, hWanted, if_pos rfl]
      ring

/-- What one comparison does to the counts. -/
theorem count_countState (tally : Tally) {x y : Result} {xs : List Result}
    {item : Item Result Result} (hEntry : entry x y (stateOf item) = entryOf item)
    (rest : List (Item Result Result)) (counts : Counts) :
    tally.count (countState (wanted (stateOf item)) (stateOf item) x y counts) -
        tally.sum (if stateOf item = .new then x :: xs else xs) + tally.items wanted rest =
      tally.count counts - tally.sum (x :: xs) + tally.items wanted (item :: rest) := by
  rw [tally.items_cons, tally.sum_cons]
  cases item with
  | left x' =>
      obtain rfl := Entry.gone.inj hEntry
      cases hWanted : wanted .gone with
      | false => simp [countState, stateOf, hWanted, tally.count_add]; ring
      | true => simp [countState, stateOf, hWanted, counted]; ring
  | right y' =>
      obtain rfl := Entry.new.inj hEntry
      cases hWanted : wanted .new with
      | false => simp [countState, stateOf, hWanted]
      | true => simp [countState, stateOf, hWanted, counted, tally.count_add]; ring
  | both x' y' =>
      have hNew := stateOf_both_ne_new x' y'
      have hSame : x = x' := by
        rw [entryOf] at hEntry
        rcases stateOf_both x' y' with hState | hState
        · rw [hState] at hEntry
          exact (Entry.changed.inj hEntry).1
        · rw [hState] at hEntry
          exact (Entry.same.inj hEntry).1
      subst hSame
      cases hWanted : wanted (stateOf (.both x y')) with
      | false => simp [countState, hNew, tally.count_add]; ring
      | true => simp [countState, hNew, counted]; ring

theorem settle_cons {x y : Result} {xs ys : List Result} {item : Item Result Result}
    {items : List (Item Result Result)} (hCompare : compare x y = some (stateOf item))
    (hEntry : entry x y (stateOf item) = entryOf item)
    (hRest : Counts.Settle compare wanted (if stateOf item = .new then x :: xs else xs)
      (if stateOf item = .gone then y :: ys else ys) items) :
    Counts.Settle compare wanted (x :: xs) (y :: ys) (item :: items) := by
  intro page counts hPage
  obtain ⟨page', counts', hLoop, hCount⟩ := hRest (page.step (wanted (stateOf item)))
    (countState (wanted (stateOf item)) (stateOf item) x y counts) (firstResult_step hPage _)
  rw [countLoop_cons hPage hCompare]
  refine ⟨page', counts', hLoop, fun tally => ?_⟩
  rw [hCount, count_countState tally hEntry]

end

/-- The loop behind the page counts everything. -/
theorem settle_all {sortOrder : Int} {sortField : Option CString} {xs ys : List Result}
    {merged : Merged Result Result} (h : merge (resultCmp sortOrder sortField) xs ys = some merged)
    (wanted : CompareResults → Bool) :
    Counts.Settle (compareResults sortOrder sortField) wanted xs ys merged.all := by
  refine merge_induction (motive := fun xs ys merged =>
    Counts.Settle (compareResults sortOrder sortField) wanted xs ys merged.all) ?_ ?_ ?_ ?_ ?_ h
  · intro ys
    rw [all_of_right]
    exact settle_right ys
  · intro x xs
    rw [all_of_left]
    exact settle_left x xs
  · intro x xs y ys ret merged hCmp hNeg hMerge ih
    exact settle_cons (compareResults_of_neg hCmp hNeg) rfl ih
  · intro x xs y ys ret merged hCmp hPos hMerge ih
    exact settle_cons (compareResults_of_pos hCmp hPos) rfl ih
  · intro x xs y ys merged hCmp hMerge ih
    apply settle_cons (compareResults_of_zero hCmp) rfl
    rwa [if_neg (stateOf_both_ne_new x y), if_neg (stateOf_both_ne_gone x y)]

/-- The extra results that are not counted though they are asked for. -/
def missing (wanted : CompareResults → Bool) (page : Page) (merged : Merged Result Result) :
    List Result :=
  if wanted .new then uncounted (asked wanted merged.items).length page merged.rights else []

theorem missing_of_full {page : Page} (h : page.maxResults = 0) (wanted : CompareResults → Bool)
    (merged : Merged Result Result) : missing wanted page merged = [] := by
  rw [missing, uncounted_of_full h]
  split <;> rfl

theorem missing_cons {page : Page} (h : page.maxResults ≠ 0) (wanted : CompareResults → Bool)
    (item : Item Result Result) (merged : Merged Result Result) :
    missing wanted page (merged.cons item) =
      missing wanted (page.step (wanted (stateOf item))) merged := by
  rw [missing, missing, Merged.cons]
  cases hWanted : wanted (stateOf item) with
  | false => simp [asked, hWanted, Page.step]
  | true => simp [asked, hWanted, Page.step, uncounted, h]

/-- Both loops count everything but the missing results. -/
def Counts.Reach (compare : Result → Result → Option CompareResults)
    (wanted : CompareResults → Bool) (xs ys : List Result) (merged : Merged Result Result) : Prop :=
  ∀ page counts, page.Valid → ∃ progress page' counts',
    compareLoop compare wanted page counts xs ys = some progress ∧
    countLoop compare wanted progress.page progress.counts progress.results
      progress.deltaResults = some (page', counts') ∧
    ∀ tally : Tally, tally.count counts' + tally.sum (missing wanted page merged) =
      tally.count counts - tally.sum xs + tally.items wanted merged.all

section

variable {compare : Result → Result → Option CompareResults} {wanted : CompareResults → Bool}

/-- A full page leaves everything to the second loop. -/
theorem reach_of_full {xs ys : List Result} {merged : Merged Result Result}
    (hSettle : Counts.Settle compare wanted xs ys merged.all) {page : Page}
    (hPage : page.maxResults = 0) (hValid : page.Valid) (counts : Counts) :
    ∃ progress page' counts',
      compareLoop compare wanted page counts xs ys = some progress ∧
      countLoop compare wanted progress.page progress.counts progress.results
        progress.deltaResults = some (page', counts') ∧
      ∀ tally : Tally, tally.count counts' + tally.sum (missing wanted page merged) =
        tally.count counts - tally.sum xs + tally.items wanted merged.all := by
  obtain ⟨page', counts', hLoop, hCount⟩ := hSettle page counts (hValid hPage)
  refine ⟨_, page', counts', compareLoop_full hPage counts xs ys, hLoop, fun tally => ?_⟩
  rw [missing_of_full hPage, tally.sum_nil, add_zero, hCount]

/-- Behind the end of both lists nothing is counted. -/
theorem countLoop_nil (page : Page) (counts : Counts) :
    countLoop compare wanted page counts [] [] = some (page, counts) := by
  rw [countLoop]
  split <;> rfl

theorem reach_right (ys : List Result) : Counts.Reach compare wanted [] ys ⟨[], [], ys⟩ := by
  intro page counts hValid
  by_cases hPage : page.maxResults = 0
  · apply reach_of_full _ hPage hValid
    rw [all_of_right]
    exact settle_right ys
  rw [all_of_right]
  cases ys with
  | nil =>
      rw [compareLoop, if_neg hPage]
      refine ⟨_, _, _, rfl, countLoop_nil _ _, fun tally => ?_⟩
      rw [missing, uncounted_nil]
      split <;> simp [Tally.items, asked]
  | cons y ys =>
      rw [compareLoop, if_neg hPage]
      cases hWanted : wanted .new with
      | false =>
          refine ⟨_, _, _, rfl, countLoop_nil _ _, fun tally => ?_⟩
          rw [missing, hWanted, tally.items_map_right, hWanted]
          simp
      | true =>
          have hTail : uncounted (asked wanted []).length page (y :: ys) =
              uncountedTail page (y :: ys) := if_neg hPage
          refine ⟨_, _, _, rfl, countLoop_nil _ _, fun tally => ?_⟩
          rw [missing, hWanted, tally.items_map_right, hWanted, if_pos rfl, if_pos rfl, hTail,
            tally.sum_nil, sub_zero]
          exact count_extraNew tally page counts (y :: ys)

theorem reach_left (x : Result) (xs : List Result) :
    Counts.Reach compare wanted (x :: xs) [] ⟨[], x :: xs, []⟩ := by
  intro page counts hValid
  by_cases hPage : page.maxResults = 0
  · apply reach_of_full _ hPage hValid
    rw [all_of_left]
    exact settle_left x xs
  have hMissing : missing wanted page ⟨[], x :: xs, []⟩ = [] := by
    rw [missing, uncounted_nil]
    split <;> rfl
  rw [all_of_left, hMissing, compareLoop, if_neg hPage]
  cases hWanted : wanted .gone with
  | false =>
      refine ⟨_, _, _, rfl, countLoop_nil _ _, fun tally => ?_⟩
      rw [tally.items_map_left, hWanted, tally.count_dropExtra]
      simp
  | true =>
      refine ⟨_, _, _, rfl, countLoop_nil _ _, fun tally => ?_⟩
      rw [tally.items_map_left, hWanted, if_pos rfl, tally.sum_nil]
      ring

theorem reach_cons {x y : Result} {xs ys : List Result} {item : Item Result Result}
    {merged : Merged Result Result} (hCompare : compare x y = some (stateOf item))
    (hEntry : entry x y (stateOf item) = entryOf item)
    (hSettle : Counts.Settle compare wanted (if stateOf item = .new then x :: xs else xs)
      (if stateOf item = .gone then y :: ys else ys) merged.all)
    (hRest : Counts.Reach compare wanted (if stateOf item = .new then x :: xs else xs)
      (if stateOf item = .gone then y :: ys else ys) merged) :
    Counts.Reach compare wanted (x :: xs) (y :: ys) (merged.cons item) := by
  intro page counts hValid
  by_cases hPage : page.maxResults = 0
  · exact reach_of_full (settle_cons hCompare hEntry hSettle) hPage hValid counts
  obtain ⟨progress, page', counts', hLoop, hRestLoop, hCount⟩ :=
    hRest (page.step (wanted (stateOf item)))
      (countState (wanted (stateOf item)) (stateOf item) x y counts) (Page.Valid.step hPage _)
  rw [compareLoop_cons hPage hCompare, hLoop]
  refine ⟨_, page', counts', rfl, ?_, fun tally => ?_⟩
  · rw [Progress.list]
    split <;> exact hRestLoop
  · rw [missing_cons hPage, hCount, count_countState tally hEntry, all_cons]

end

theorem reach_all {sortOrder : Int} {sortField : Option CString} {xs ys : List Result}
    {merged : Merged Result Result} (h : merge (resultCmp sortOrder sortField) xs ys = some merged)
    (wanted : CompareResults → Bool) :
    Counts.Reach (compareResults sortOrder sortField) wanted xs ys merged := by
  refine merge_induction (motive := fun xs ys merged =>
    Counts.Reach (compareResults sortOrder sortField) wanted xs ys merged) ?_ ?_ ?_ ?_ ?_ h
  · exact fun ys => reach_right ys
  · exact fun x xs => reach_left x xs
  · intro x xs y ys ret merged hCmp hNeg hMerge ih
    exact reach_cons (compareResults_of_neg hCmp hNeg) rfl (settle_all hMerge wanted) ih
  · intro x xs y ys ret merged hCmp hPos hMerge ih
    exact reach_cons (compareResults_of_pos hCmp hPos) rfl (settle_all hMerge wanted) ih
  · intro x xs y ys merged hCmp hMerge ih
    have hSettle := settle_all hMerge wanted
    apply reach_cons (compareResults_of_zero hCmp) rfl
    · rwa [if_neg (stateOf_both_ne_new x y), if_neg (stateOf_both_ne_gone x y)]
    · rwa [if_neg (stateOf_both_ne_new x y), if_neg (stateOf_both_ne_gone x y)]

/-! The tallies of the counts. -/

def filteredTally : Tally where
  count := Counts.filtered
  weight := fun _ => 1
  count_add := by
    intro counts n level
    rw [mul_one]
    simp only [Counts.add]
    split_ifs <;> rfl

/-- The debug count is left as it is. -/
def debugTally : Tally where
  count := Counts.debugs
  weight := fun _ => 0
  count_add := by
    intro counts n level
    rw [mul_zero, add_zero]
    simp only [Counts.add]
    split_ifs <;> rfl

/-- A count of one level, which its own name raises and the other names leave. -/
def levelTally (count : Counts → Int) (name : CString)
    (hName : ∀ counts n, count (counts.add n name) = count counts + n)
    (hOther : ∀ counts n level, level ≠ name → count (counts.add n level) = count counts) :
    Tally where
  count := count
  weight := fun level => if level = name then 1 else 0
  count_add := by
    intro counts n level
    by_cases hLevel : level = name
    · rw [if_pos hLevel, mul_one, hLevel, hName]
    · rw [if_neg hLevel, mul_zero, add_zero, hOther counts n level hLevel]

def holeTally : Tally := levelTally Counts.holes (lit "High") (fun counts n => rfl) (by
  intro counts n level hLevel
  simp only [Counts.add, hLevel, if_false]
  split_ifs <;> rfl)

def warningTally : Tally := levelTally Counts.warnings (lit "Medium") (fun counts n => rfl) (by
  intro counts n level hLevel
  simp only [Counts.add, hLevel, if_false]
  split_ifs <;> rfl)

def infoTally : Tally := levelTally Counts.infos (lit "Low") (fun counts n => rfl) (by
  intro counts n level hLevel
  simp only [Counts.add, hLevel, if_false]
  split_ifs <;> rfl)

def logTally : Tally := levelTally Counts.logs (lit "Log") (fun counts n => rfl) (by
  intro counts n level hLevel
  simp only [Counts.add, hLevel, if_false]
  split_ifs <;> rfl)

def falsePositiveTally : Tally :=
  levelTally Counts.falsePositives (lit "False Positive") (fun counts n => rfl) (by
    intro counts n level hLevel
    simp only [Counts.add, hLevel, if_false]
    split_ifs <;> rfl)

/-- Counts that agree in every tally are the same. -/
theorem Counts.eq_of_tallies {counts counts' : Counts}
    (h : ∀ tally : Tally, tally.count counts = tally.count counts') : counts = counts' :=
  Counts.ext (h filteredTally) (h debugTally) (h holeTally) (h infoTally) (h logTally)
    (h warningTally) (h falsePositiveTally)

theorem sum_filteredTally (results : List Result) :
    filteredTally.sum results = (results.length : Int) := by
  induction results with
  | nil => rfl
  | cons x xs ih =>
      rw [Tally.sum_cons, ih, List.length_cons]
      push_cast
      exact add_comm 1 _

theorem count_itemCounts (tally : Tally) (wanted : CompareResults → Bool)
    (items : List (Item Result Result)) :
    tally.count (itemCounts (asked wanted items)) = tally.count .zero + tally.items wanted items := by
  rw [itemCounts, reportCounts, tally.count_foldl, one_mul, Tally.items]

/-- The report prints the counts of the results whose state it is asked for. -/
def PrintsAsked (sortOrder : Int) (sortField : Option CString) (deltaStates levels : CString)
    (page : Page) (results deltaResults : List Result) : Prop :=
  ∃ merged report, merge (resultCmp sortOrder sortField) results deltaResults = some merged ∧
    deltaReport sortOrder sortField deltaStates levels page results deltaResults = some report ∧
    report.counts = resultCount levels (itemCounts (asked (wanted deltaStates) merged.all))

/-- What a report prints is off by the missing results. -/
theorem deltaReport_counts {sortOrder : Int} {sortField : Option CString} {page : Page}
    (hPage : page.maxResults ≠ 0) (deltaStates levels : CString) {xs ys : List Result}
    {merged : Merged Result Result}
    (h : merge (resultCmp sortOrder sortField) xs ys = some merged) :
    ∃ report counts, deltaReport sortOrder sortField deltaStates levels page xs ys = some report ∧
      report.counts = resultCount levels counts ∧
      ∀ tally : Tally, tally.count counts +
          tally.sum (missing (wanted deltaStates) page merged) =
        tally.count (itemCounts (asked (wanted deltaStates) merged.all)) := by
  obtain ⟨progress, page', counts, hLoop, hRest, hCount⟩ :=
    reach_all h (wanted deltaStates) page (reportCounts xs) fun hFull => absurd hFull hPage
  refine ⟨{ listed := progress.listed, counts := resultCount levels counts, page := page' },
    counts, ?_, rfl, fun tally => ?_⟩
  · simp only [deltaReport, hLoop, hRest, Option.map_some]
  · rw [hCount, count_itemCounts, reportCounts, tally.count_foldl]
    ring

/-- The printed counts are those of the results whose state is asked for exactly when the page
does not begin or end among the extra results of the second report. -/
theorem prints_asked_iff {page : Page} (hPage : page.maxResults ≠ 0) (sortOrder : Int)
    (sortField : Option CString) (deltaStates levels : CString) (results deltaResults : List Result) :
    PrintsAsked sortOrder sortField deltaStates levels page results deltaResults ↔
      ∃ merged, merge (resultCmp sortOrder sortField) results deltaResults = some merged ∧
        (wanted deltaStates .new = false ∨
          page.Covers (asked (wanted deltaStates) merged.items).length merged.rights.length) := by
  constructor
  · rintro ⟨merged, report, hMerge, hReport, hAsked⟩
    refine ⟨merged, hMerge, ?_⟩
    obtain ⟨report', counts, hReport', hCounts, hTally⟩ :=
      deltaReport_counts hPage deltaStates levels hMerge
    obtain rfl := Option.some.inj (hReport.symm.trans hReport')
    have hFiltered : filteredTally.count counts =
        filteredTally.count (itemCounts (asked (wanted deltaStates) merged.all)) := by
      have hSame := congrArg Counts.filtered (hCounts.symm.trans hAsked)
      exact hSame
    have hTotal := hTally filteredTally
    rw [sum_filteredTally] at hTotal
    have hMissing : missing (wanted deltaStates) page merged = [] :=
      List.eq_nil_of_length_eq_zero (by omega)
    rw [missing] at hMissing
    cases hNew : wanted deltaStates .new with
    | false => exact .inl rfl
    | true =>
        rw [hNew, if_pos rfl, uncounted_eq_nil_iff hPage] at hMissing
        exact .inr hMissing
  · rintro ⟨merged, hMerge, hCovers⟩
    obtain ⟨report, counts, hReport, hCounts, hTally⟩ :=
      deltaReport_counts hPage deltaStates levels hMerge
    have hMissing : missing (wanted deltaStates) page merged = [] := by
      rw [missing]
      split
      · rename_i hNew
        rw [uncounted_eq_nil_iff hPage]
        exact hCovers.resolve_left (by simp [hNew])
      · rfl
    have hSame : counts = itemCounts (asked (wanted deltaStates) merged.all) := by
      apply Counts.eq_of_tallies
      intro tally
      rw [← hTally tally, hMissing, tally.sum_nil, add_zero]
    exact ⟨merged, report, hMerge, hReport, hSame ▸ hCounts⟩

/-! Examples. -/

/-- A result of a host with a severity of five. -/
def someResult (result : Nat) (port descr : CString) : Result :=
  ⟨result, lit "10.0.0.1", port, lit "1.3.6.1.4.1.25623.1.0.1", lit "Alarm", 5, lit "Medium", descr⟩

/-- A page of one result that ends in front of an extra result. -/
theorem prints_asked_iff_some : PrintsAsked 1 none (lit "cgns") (lit "hmlgf") ⟨1, 1⟩
    [someResult 1 (lit "1/tcp") (lit "a"), someResult 2 (lit "2/tcp") (lit "a")]
    [someResult 3 (lit "1/tcp") (lit "b"), someResult 4 (lit "2/tcp") (lit "a"),
      someResult 5 (lit "3/tcp") (lit "a")] :=
  (prints_asked_iff (by decide) 1 none (lit "cgns") (lit "hmlgf") _ _).mpr
    ⟨⟨[.both (someResult 1 (lit "1/tcp") (lit "a")) (someResult 3 (lit "1/tcp") (lit "b")),
        .both (someResult 2 (lit "2/tcp") (lit "a")) (someResult 4 (lit "2/tcp") (lit "a"))], [],
        [someResult 5 (lit "3/tcp") (lit "a")]⟩, by decide +kernel,
      .inr (.inr ⟨by decide, .inl ⟨by decide, by decide +kernel⟩⟩)⟩

/-- A page that begins behind an extra result does not count it. -/
theorem skipped_result_uncounted :
    ((deltaReport 1 none (lit "cgns") (lit "hmlgf") ⟨0, -1⟩ []
        [someResult 1 (lit "1/tcp") (lit "a")]).map (·.counts.filtered) = some 1 ∧
      (deltaReport 1 none (lit "cgns") (lit "hmlgf") ⟨1, -1⟩ []
        [someResult 1 (lit "1/tcp") (lit "a")]).map (·.counts.filtered) = some 0) ∧
      ¬ PrintsAsked 1 none (lit "cgns") (lit "hmlgf") ⟨1, -1⟩ []
        [someResult 1 (lit "1/tcp") (lit "a")] := by
  refine ⟨by decide +kernel, ?_⟩
  rintro ⟨merged, report, hMerge, hReport, hCounts⟩
  rw [merge] at hMerge
  obtain rfl := Option.some.inj hMerge
  have hFiltered : (deltaReport 1 none (lit "cgns") (lit "hmlgf") ⟨1, -1⟩ []
      [someResult 1 (lit "1/tcp") (lit "a")]).map (·.counts.filtered) = some 0 := by decide +kernel
  rw [hReport, Option.map_some, hCounts] at hFiltered
  exact absurd hFiltered (by decide +kernel)

end DeltaReports
