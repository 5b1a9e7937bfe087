import OpenVAS.DeltaReports.Basic

/-! What the two loops of a delta report do with the results in the order in which they are
compared: the page of what was asked for is listed. -/
namespace DeltaReports

open CString Merge

/-- How a delta report calls what is read together. -/
def stateOf : Item Result Result → CompareResults
  | .left _ => .gone
  | .right _ => .new
  | .both x y => if strcmp x.descr y.descr ≠ 0 then .changed else .same

def entryOf : Item Result Result → Entry
  | .left x => .gone x
  | .right y => .new y
  | .both x y => entry x y (stateOf (.both x y))

/-- The page behind a result that the report is asked for. -/
def Page.next (page : Page) : Page :=
  if page.firstResult ≠ 0 then { page with firstResult := page.firstResult - 1 }
  else { page with maxResults := page.maxResults - 1 }

/-- The page behind a result. -/
def Page.step (page : Page) (asked : Bool) : Page := if asked then page.next else page

def Page.uses (page : Page) (asked : Bool) : Bool := asked && decide (page.firstResult = 0)

section

variable {compare : Result → Result → Option CompareResults} {wanted : CompareResults → Bool}
  {page : Page} {counts : Counts} {x y : Result} {xs ys : List Result} {state : CompareResults}

theorem compareAndBufferResults_eq (hCompare : compare x y = some state) :
    compareAndBufferResults compare wanted page x y = some
      { state, used := page.uses (wanted state), wouldUse := wanted state,
        page := page.step (wanted state) } := by
  rw [compareAndBufferResults, hCompare]
  cases hWanted : wanted state with
  | false => simp [Page.uses, Page.step, hWanted]
  | true =>
      by_cases hFirst : page.firstResult = 0
      · simp [Page.uses, Page.step, Page.next, hWanted, hFirst]
      · simp [Page.uses, Page.step, Page.next, hWanted, hFirst]

/-- The counts after a comparison: only what is new is not counted yet, and only the rest can be
counted in vain. -/
def countState (asked : Bool) (state : CompareResults) (x y : Result) (counts : Counts) : Counts :=
  if state = .new then if asked then counts.add 1 y.level else counts
  else if asked then counts else counts.add (-1) x.level

/-- One round of the loop on the page. -/
theorem compareLoop_cons (hPage : page.maxResults ≠ 0) (hCompare : compare x y = some state) :
    compareLoop compare wanted page counts (x :: xs) (y :: ys) =
      (compareLoop compare wanted (page.step (wanted state))
        (countState (wanted state) state x y counts)
        (if state = .new then x :: xs else xs) (if state = .gone then y :: ys else ys)).map
        (Progress.list (page.uses (wanted state)) (entry x y state)) := by
  rw [compareLoop, if_neg hPage, compareAndBufferResults_eq hCompare]
  cases state with
  | changed => rfl
  | gone => rfl
  | new => rfl
  | same => rfl

/-- One round of the loop behind the page, where nothing is skipped any more. -/
theorem countLoop_cons (hPage : page.firstResult = 0) (hCompare : compare x y = some state) :
    countLoop compare wanted page counts (x :: xs) (y :: ys) =
      countLoop compare wanted (page.step (wanted state))
        (countState (wanted state) state x y counts)
        (if state = .new then x :: xs else xs) (if state = .gone then y :: ys else ys) := by
  have hUses : page.uses (wanted state) = wanted state := by simp [Page.uses, hPage]
  rw [countLoop, compareAndBufferResults_eq hCompare, hUses]
  cases state with
  | changed => rfl
  | gone => rfl
  | new => rfl
  | same => rfl

/-- Nothing is skipped behind a page that is full. -/
theorem firstResult_step (hPage : page.firstResult = 0) (asked : Bool) :
    (page.step asked).firstResult = 0 := by
  cases asked with
  | false => exact hPage
  | true => simp [Page.step, Page.next, hPage]

end

section

variable {sortOrder : Int} {sortField : Option CString} {x y : Result} {ret : Int}

theorem compareResults_of_neg (h : resultCmp sortOrder sortField x y = some ret) (hRet : ret < 0) :
    compareResults sortOrder sortField x y = some .gone := by
  rw [compareResults, h]
  dsimp only
  rw [if_neg (by omega), if_pos hRet]

theorem compareResults_of_pos (h : resultCmp sortOrder sortField x y = some ret) (hRet : 0 < ret) :
    compareResults sortOrder sortField x y = some .new := by
  rw [compareResults, h]
  dsimp only
  rw [if_pos hRet]

theorem compareResults_of_zero (h : resultCmp sortOrder sortField x y = some 0) :
    compareResults sortOrder sortField x y = some (stateOf (.both x y)) := by
  rw [compareResults, h, stateOf]
  dsimp only
  rw [if_neg (by omega), if_neg (by omega)]
  split <;> rfl

theorem stateOf_both (x y : Result) :
    stateOf (.both x y) = .changed ∨ stateOf (.both x y) = .same := by
  rw [stateOf]
  split
  · exact .inl rfl
  · exact .inr rfl

theorem stateOf_both_ne_new (x y : Result) : stateOf (.both x y) ≠ .new := by
  rcases stateOf_both x y with h | h <;> rw [h] <;> nofun

theorem stateOf_both_ne_gone (x y : Result) : stateOf (.both x y) ≠ .gone := by
  rcases stateOf_both x y with h | h <;> rw [h] <;> nofun

end

/-! Listing. -/

/-- The entries on a page. -/
def pageEntries : Page → List Entry → List Entry
  | _, [] => []
  | page, item :: items =>
      if page.maxResults = 0 then []
      else if page.firstResult ≠ 0 then pageEntries page.next items
      else item :: pageEntries page.next items

theorem pageEntries_of_full {page : Page} (h : page.maxResults = 0) (items : List Entry) :
    pageEntries page items = [] := by
  cases items with
  | nil => rfl
  | cons item items => rw [pageEntries, if_pos h]

/-- Without paging every entry is on the page. -/
theorem pageEntries_unpaged {page : Page} (hFirst : page.firstResult = 0)
    (hMax : page.maxResults < 0) (items : List Entry) : pageEntries page items = items := by
  induction items generalizing page with
  | nil => rfl
  | cons item items ih =>
      have hNext : page.next = { page with maxResults := page.maxResults - 1 } := by
        rw [Page.next, if_neg (not_not.mpr hFirst)]
      have hLess : page.maxResults - 1 < 0 := by omega
      have hRest : pageEntries page.next items = items := by
        rw [hNext]
        exact ih hFirst hLess
      rw [pageEntries, if_neg (by omega), if_neg (not_not.mpr hFirst), hRest]

/-- What the report is asked for, of what is read. -/
def asked (wanted : CompareResults → Bool) (items : List (Item Result Result)) :
    List (Item Result Result) := items.filter (wanted <| stateOf ·)

theorem pageEntries_list {wanted : CompareResults → Bool} {page : Page}
    (hPage : page.maxResults ≠ 0) (item : Item Result Result) (items : List (Item Result Result)) :
    pageEntries page ((asked wanted (item :: items)).map entryOf) =
      if page.uses (wanted (stateOf item)) then entryOf item ::
        pageEntries (page.step (wanted (stateOf item))) ((asked wanted items).map entryOf)
      else pageEntries (page.step (wanted (stateOf item))) ((asked wanted items).map entryOf) := by
  cases hWanted : wanted (stateOf item) with
  | false => simp [asked, hWanted, Page.uses, Page.step]
  | true =>
      by_cases hFirst : page.firstResult = 0
      · simp [asked, hWanted, Page.uses, Page.step, pageEntries, hPage, hFirst]
      · simp [asked, hWanted, Page.uses, Page.step, pageEntries, hPage, hFirst]

theorem extraNew_listed {page : Page} (hPage : page.maxResults ≠ 0) (counts : Counts)
    (ys : List Result) :
    (extraNew page counts ys).2.2 = pageEntries page (ys.map .new) := by
  induction ys generalizing page counts with
  | nil => rfl
  | cons y ys ih =>
      rw [extraNew, List.map_cons, pageEntries, if_neg hPage]
      by_cases hFirst : page.firstResult = 0
      · rw [if_neg (not_not.mpr hFirst), if_neg (not_not.mpr hFirst), Page.next,
          if_neg (not_not.mpr hFirst)]
        by_cases hFull : page.maxResults - 1 = 0
        · simp only [hFull, if_true]
          rw [pageEntries_of_full rfl]
        · simp only [hFull, if_false]
          rw [ih (by exact hFull)]
      · rw [if_pos hFirst, if_pos hFirst, Page.next, if_pos hFirst, ih (by exact hPage)]

theorem extraGone_listed {page : Page} (hPage : page.maxResults ≠ 0) (xs : List Result) :
    (extraGone page xs).2 = pageEntries page (xs.map .gone) := by
  induction xs generalizing page with
  | nil => rfl
  | cons x xs ih =>
      rw [extraGone, List.map_cons, pageEntries, if_neg hPage]
      by_cases hFirst : page.firstResult = 0
      · rw [if_neg (not_not.mpr hFirst), if_neg (not_not.mpr hFirst), Page.next,
          if_neg (not_not.mpr hFirst)]
        by_cases hFull : page.maxResults - 1 = 0
        · simp only [hFull, if_true]
          rw [pageEntries_of_full rfl]
        · simp only [hFull, if_false]
          rw [ih (by exact hFull)]
      · rw [if_pos hFirst, if_pos hFirst, Page.next, if_pos hFirst, ih (by exact hPage)]

theorem asked_map_left (wanted : CompareResults → Bool) (xs : List Result) :
    asked wanted (xs.map .left) = if wanted .gone then xs.map .left else [] := by
  cases hWanted : wanted .gone with
  | false => simp [asked, List.filter_map, Function.comp_def, stateOf, hWanted]
  | true => simp [asked, List.filter_map, Function.comp_def, stateOf, hWanted]

theorem asked_map_right (wanted : CompareResults → Bool) (ys : List Result) :
    asked wanted (ys.map .right) = if wanted .new then ys.map .right else [] := by
  cases hWanted : wanted .new with
  | false => simp [asked, List.filter_map, Function.comp_def, stateOf, hWanted]
  | true => simp [asked, List.filter_map, Function.comp_def, stateOf, hWanted]

theorem all_of_left (xs : List Result) :
    (⟨[], xs, []⟩ : Merged Result Result).all = xs.map .left := by
  rw [Merged.all, List.map_nil, List.append_nil, List.nil_append]

theorem all_of_right (ys : List Result) :
    (⟨[], [], ys⟩ : Merged Result Result).all = ys.map .right := by
  rw [Merged.all, List.map_nil, List.nil_append, List.nil_append]

/-- A full page ends the loop. -/
theorem compareLoop_full {compare : Result → Result → Option CompareResults}
    {wanted : CompareResults → Bool} {page : Page} (hPage : page.maxResults = 0) (counts : Counts)
    (xs ys : List Result) :
    compareLoop compare wanted page counts xs ys = some ⟨xs, ys, page, counts, []⟩ := by
  rw [compareLoop.eq_def, if_pos hPage]

section

variable {compare : Result → Result → Option CompareResults} {wanted : CompareResults → Bool}

/-- The loop lists the page of `items`, whatever the page is. -/
def Lists (compare : Result → Result → Option CompareResults) (wanted : CompareResults → Bool)
    (xs ys : List Result) (items : List (Item Result Result)) : Prop :=
  ∀ page counts, ∃ progress, compareLoop compare wanted page counts xs ys = some progress ∧
    progress.listed = pageEntries page ((asked wanted items).map entryOf)

theorem lists_right (ys : List Result) : Lists compare wanted [] ys (ys.map .right) := by
  intro page counts
  by_cases hPage : page.maxResults = 0
  · rw [compareLoop_full hPage, pageEntries_of_full hPage]
    exact ⟨_, rfl, rfl⟩
  rw [asked_map_right]
  cases ys with
  | nil =>
      rw [compareLoop, if_neg hPage]
      refine ⟨_, rfl, ?_⟩
      split <;> rfl
  | cons y ys =>
      rw [compareLoop, if_neg hPage]
      cases hWanted : wanted .new with
      | false => exact ⟨_, rfl, rfl⟩
      | true =>
          refine ⟨_, rfl, ?_⟩
          rw [if_pos rfl, List.map_map]
          exact extraNew_listed hPage counts (y :: ys)

theorem lists_left (x : Result) (xs : List Result) :
    Lists compare wanted (x :: xs) [] ((x :: xs).map .left) := by
  intro page counts
  by_cases hPage : page.maxResults = 0
  · rw [compareLoop_full hPage, pageEntries_of_full hPage]
    exact ⟨_, rfl, rfl⟩
  rw [asked_map_left, compareLoop, if_neg hPage]
  cases hWanted : wanted .gone with
  | false => exact ⟨_, rfl, rfl⟩
  | true =>
      refine ⟨_, rfl, ?_⟩
      rw [if_pos rfl, List.map_map]
      exact extraGone_listed hPage (x :: xs)

theorem lists_cons {x y : Result} {xs ys : List Result} {item : Item Result Result}
    {items : List (Item Result Result)} (hCompare : compare x y = some (stateOf item))
    (hEntry : entry x y (stateOf item) = entryOf item)
    (hRest : Lists compare wanted (if stateOf item = .new then x :: xs else xs)
      (if stateOf item = .gone then y :: ys else ys) items) :
    Lists compare wanted (x :: xs) (y :: ys) (item :: items) := by
  intro page counts
  by_cases hPage : page.maxResults = 0
  · rw [compareLoop_full hPage, pageEntries_of_full hPage]
    exact ⟨_, rfl, rfl⟩
  obtain ⟨progress, hProgress, hListed⟩ := hRest (page.step (wanted (stateOf item)))
    (countState (wanted (stateOf item)) (stateOf item) x y counts)
  rw [compareLoop_cons hPage hCompare, hProgress, pageEntries_list hPage, hEntry]
  refine ⟨_, rfl, ?_⟩
  rw [Progress.list]
  split
  · rw [hListed]
  · exact hListed

end

/-- The loop lists the page of what it is asked for. -/
theorem lists_all {sortOrder : Int} {sortField : Option CString} {xs ys : List Result}
    {merged : Merged Result Result}
    (h : merge (resultCmp sortOrder sortField) xs ys = some merged)
    (wanted : CompareResults → Bool) :
    Lists (compareResults sortOrder sortField) wanted xs ys merged.all := by
  refine merge_induction (motive := fun xs ys merged =>
    Lists (compareResults sortOrder sortField) wanted xs ys merged.all) ?_ ?_ ?_ ?_ ?_ h
  · intro ys
    rw [all_of_right]
    exact lists_right ys
  · intro x xs
    rw [all_of_left]
    exact lists_left x xs
  · intro x xs y ys ret merged hCmp hNeg hMerge ih
    exact lists_cons (compareResults_of_neg hCmp hNeg) rfl ih
  · intro x xs y ys ret merged hCmp hPos hMerge ih
    exact lists_cons (compareResults_of_pos hCmp hPos) rfl ih
  · intro x xs y ys merged hCmp hMerge ih
    apply lists_cons (compareResults_of_zero hCmp) rfl
    rwa [if_neg (stateOf_both_ne_new x y), if_neg (stateOf_both_ne_gone x y)]

end DeltaReports
