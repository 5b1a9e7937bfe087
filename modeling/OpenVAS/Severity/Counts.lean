import Mathlib.Tactic.Positivity
import Mathlib.Tactic.Ring
import Mathlib.Algebra.BigOperators.Group.List.Basic
import Mathlib.Algebra.Order.BigOperators.Group.List
import OpenVAS.Severity.Levels

/-! `severity_data_t`: how often each severity was added, and the counts of the
levels that are read from it. -/
namespace Severity

open CString

/-- `round`, halves away from zero. -/
def cRound (x : ℚ) : ℤ := if 0 ≤ x then ⌊x + 1 / 2⌋ else ⌈x - 1 / 2⌉

/-- `ZERO_SEVERITY_INDEX`. -/
def zeroSeverityIndex : ℤ := 4

def severityDataIndex (severity : ℚ) : ℤ :=
  if 0 ≤ severity then cRound (severity * severitySubdivisions) + zeroSeverityIndex
  else if severity = severityFp ∨ severity = severityDebug ∨ severity = severityError then
    cRound severity + zeroSeverityIndex
  else 0

/-- `severity_data_t`. -/
structure SeverityData where
  counts : List ℤ
  total : ℤ
  max : ℚ

/-- The number of places `init_severity_data` allocates. -/
def countsLength : ℕ := zeroSeverityIndex.toNat + severitySubdivisions * severityMax + 1

def initSeverityData : SeverityData where
  counts := List.replicate countsLength 0
  total := 0
  max := severityMissing

def severityDataAdd (data : SeverityData) (severity : ℚ) : SeverityData where
  counts := data.counts.modify (severityDataIndex severity).toNat (· + 1)
  max := if data.total = 0 ∨ data.max ≤ severity then severity else data.max
  total := data.total + 1

def severityDataAddCount (data : SeverityData) (severity : ℚ) (count : ℤ) : SeverityData where
  counts := data.counts.modify (severityDataIndex severity).toNat (· + count)
  max := if data.total = 0 ∨ data.max ≤ severity then severity else data.max
  total := data.total + count

/-- The loop over the indexes from `min` to `max`. -/
def severityDataRangeCount (data : SeverityData) (min max : ℚ) : ℤ :=
  let first := (severityDataIndex min).toNat
  (List.range' first ((severityDataIndex max).toNat + 1 - first)).foldl
    (fun count i => count + data.counts.getD i 0) 0

/-- The out parameters of `severity_data_level_counts`. -/
structure LevelCounts where
  errors : ℤ
  debugs : ℤ
  falsePositives : ℤ
  logs : ℤ
  lows : ℤ
  mediums : ℤ
  highs : ℤ
deriving DecidableEq, Repr

/-- The count of one level. -/
def levelCount (data : SeverityData) (cls : SeverityClass) (level : CString) : ℤ :=
  severityDataRangeCount data (levelMinSeverity level cls) (levelMaxSeverity level cls)

def severityDataLevelCounts (data : SeverityData) (cls : SeverityClass) : LevelCounts where
  errors := levelCount data cls (lit "Error")
  debugs := levelCount data cls (lit "Debug")
  falsePositives := levelCount data cls (lit "False Positive")
  logs := levelCount data cls (lit "Log")
  lows := levelCount data cls (lit "low")
  mediums := levelCount data cls (lit "medium")
  highs := levelCount data cls (lit "high")

def LevelCounts.sum (counts : LevelCounts) : ℤ :=
  counts.errors + counts.debugs + counts.falsePositives + counts.logs + counts.lows +
    counts.mediums + counts.highs

/-- A call of one of the two functions that add to the counts. -/
inductive Addition
  | add (severity : ℚ)
  | addCount (severity : ℚ) (count : ℤ)

namespace Addition

def severity : Addition → ℚ
  | add severity => severity
  | addCount severity _ => severity

def count : Addition → ℤ
  | add _ => 1
  | addCount _ count => count

def apply (data : SeverityData) : Addition → SeverityData
  | add severity => severityDataAdd data severity
  | addCount severity count => severityDataAddCount data severity count

end Addition

/-- The data after a sequence of calls. -/
def addAll (additions : List Addition) : SeverityData :=
  additions.foldl Addition.apply initSeverityData

/-- The scores from 0 to 10 in steps of 0.1, and the special severities. -/
def Recordable (severity : ℚ) : Prop :=
  (∃ k : ℕ, k ≤ 100 ∧ severity = k / 10) ∨ severity = severityLog ∨ severity = severityFp ∨
    severity = severityDebug ∨ severity = severityError

/-- The calls the counts are meant for. -/
def Addition.Valid (addition : Addition) : Prop :=
  Recordable addition.severity ∧ 1 ≤ addition.count

/-- How many of the added values are of a level. -/
def tally (cls : SeverityClass) (additions : List Addition) (level : CString) : ℤ :=
  (additions.map fun addition =>
    if severityToLevel cls addition.severity 0 = some level then addition.count else 0).sum

/-- What the counts have to be. -/
def tallies (cls : SeverityClass) (additions : List Addition) : LevelCounts where
  errors := tally cls additions (lit "Error")
  debugs := tally cls additions (lit "Debug")
  falsePositives := tally cls additions (lit "False Positive")
  logs := tally cls additions (lit "Log")
  lows := tally cls additions (lit "Low")
  mediums := tally cls additions (lit "Medium")
  highs := tally cls additions (lit "High")

/-- The counts agree with the levels: level by level, in their sum, and in the
largest value. -/
structure CountsAgree (cls : SeverityClass) (additions : List Addition) : Prop where
  levels : severityDataLevelCounts (addAll additions) cls = tallies cls additions
  total : (severityDataLevelCounts (addAll additions) cls).sum = (addAll additions).total
  max : additions ≠ [] →
    (∃ addition ∈ additions, addition.severity = (addAll additions).max) ∧
      ∀ addition ∈ additions, addition.severity ≤ (addAll additions).max

/-! Where a severity is counted. -/

theorem cRound_natCast (k : ℕ) : cRound k = k := by
  have hFloor : ⌊(k : ℚ) + 1 / 2⌋ = (k : ℤ) := by
    rw [Int.floor_eq_iff]
    constructor <;> push_cast <;> linarith
  rw [cRound, if_pos (Nat.cast_nonneg k), hFloor]

/-- A score of k tenths is counted at index k + 4. -/
theorem severityDataIndex_tenths (k : ℕ) : severityDataIndex (k / 10) = k + 4 := by
  have hTenths : (k : ℚ) / 10 * (severitySubdivisions : ℕ) = k := by
    simp only [severitySubdivisions]
    push_cast
    linarith
  rw [severityDataIndex, if_pos (by positivity), hTenths, cRound_natCast, zeroSeverityIndex]

theorem severityDataIndex_special :
    severityDataIndex severityLog = 4 ∧ severityDataIndex severityFp = 3 ∧
      severityDataIndex severityDebug = 2 ∧ severityDataIndex severityError = 1 := by
  decide +kernel

/-- Every severity that is counted has a place of its own in the array, behind
the place of the undefined ones. -/
theorem severityDataIndex_bounds {severity : ℚ} (h : Recordable severity) :
    1 ≤ severityDataIndex severity ∧ (severityDataIndex severity).toNat < countsLength := by
  have hLength : countsLength = 105 := by decide
  obtain ⟨hLog, hFp, hDebug, hError⟩ := severityDataIndex_special
  rcases h with ⟨k, hk, rfl⟩ | rfl | rfl | rfl | rfl
  · rw [severityDataIndex_tenths]
    omega
  all_goals omega

/-! What one call does to the count of a range. -/

theorem severityDataAdd_eq (data : SeverityData) (severity : ℚ) :
    severityDataAdd data severity = severityDataAddCount data severity 1 := rfl

theorem Addition.apply_eq (data : SeverityData) (addition : Addition) :
    addition.apply data = severityDataAddCount data addition.severity addition.count := by
  cases addition with
  | add severity => exact severityDataAdd_eq data severity
  | addCount severity count => rfl

theorem rangeCount_eq_sum (data : SeverityData) (min max : ℚ) :
    severityDataRangeCount data min max =
      ((List.range' (severityDataIndex min).toNat
        ((severityDataIndex max).toNat + 1 - (severityDataIndex min).toNat)).map
          fun i => data.counts.getD i 0).sum := by
  rw [severityDataRangeCount, List.sum_eq_foldl, List.foldl_map]

theorem getD_modify {counts : List ℤ} {n : ℕ} (h : n < counts.length) (c : ℤ) (i : ℕ) :
    (counts.modify n (· + c)).getD i 0 = counts.getD i 0 + if n = i then c else 0 := by
  rw [List.getD_eq_getElem?_getD, List.getElem?_modify, List.getD_eq_getElem?_getD]
  split
  · rename_i hSame
    subst hSame
    simp [h]
  · simp

theorem sum_range'_ite (n : ℕ) (c : ℤ) (len first : ℕ) :
    ((List.range' first len).map fun i => if n = i then c else 0).sum =
      if first ≤ n ∧ n < first + len then c else 0 := by
  induction len generalizing first with
  | zero => simp
  | succ len ih =>
      rw [List.range'_succ, List.map_cons, List.sum_cons, ih]
      split_ifs <;> omega

theorem rangeCount_addCount {data : SeverityData} {severity : ℚ}
    (h : (severityDataIndex severity).toNat < data.counts.length) (count : ℤ) (min max : ℚ) :
    severityDataRangeCount (severityDataAddCount data severity count) min max =
      severityDataRangeCount data min max +
        if (severityDataIndex min).toNat ≤ (severityDataIndex severity).toNat ∧
          (severityDataIndex severity).toNat ≤ (severityDataIndex max).toNat then count else 0 := by
  have hRange : (if (severityDataIndex min).toNat ≤ (severityDataIndex severity).toNat ∧
      (severityDataIndex severity).toNat < (severityDataIndex min).toNat +
        ((severityDataIndex max).toNat + 1 - (severityDataIndex min).toNat) then count else 0) =
      if (severityDataIndex min).toNat ≤ (severityDataIndex severity).toNat ∧
        (severityDataIndex severity).toNat ≤ (severityDataIndex max).toNat then count else 0 :=
    if_congr (by omega) rfl rfl
  rw [rangeCount_eq_sum, rangeCount_eq_sum, ← hRange, ← sum_range'_ite, ← List.sum_map_add]
  congr 1
  apply List.map_congr_left
  intro i _
  exact getD_modify h count i

/-- Whether a severity is counted for a level. -/
def CountedIn (cls : SeverityClass) (level : CString) (severity : ℚ) : Prop :=
  (severityDataIndex (levelMinSeverity level cls)).toNat ≤ (severityDataIndex severity).toNat ∧
    (severityDataIndex severity).toNat ≤ (severityDataIndex (levelMaxSeverity level cls)).toNat

instance (cls : SeverityClass) (level : CString) (severity : ℚ) :
    Decidable (CountedIn cls level severity) :=
  inferInstanceAs (Decidable (_ ∧ _))

/-- The count of a level grows with each call whose severity is counted for it. -/
theorem levelCount_foldl {additions : List Addition} (hValid : ∀ a ∈ additions, a.Valid)
    {data : SeverityData} (hLength : data.counts.length = countsLength) (cls : SeverityClass)
    (level : CString) :
    levelCount (additions.foldl Addition.apply data) cls level =
      levelCount data cls level +
        (additions.map fun a => if CountedIn cls level a.severity then a.count else 0).sum := by
  induction additions generalizing data with
  | nil => simp
  | cons a additions ih =>
      obtain ⟨hRecordable, _⟩ := hValid a List.mem_cons_self
      have hIndex : (severityDataIndex a.severity).toNat < data.counts.length := by
        rw [hLength]
        exact (severityDataIndex_bounds hRecordable).2
      have hStep : levelCount (a.apply data) cls level =
          levelCount data cls level + if CountedIn cls level a.severity then a.count else 0 := by
        rw [Addition.apply_eq]
        exact rangeCount_addCount hIndex a.count _ _
      have hNext : (a.apply data).counts.length = countsLength := by
        rw [Addition.apply_eq, severityDataAddCount, List.length_modify, hLength]
      rw [List.foldl_cons, ih (fun b hb => hValid b (List.mem_cons_of_mem a hb)) hNext, hStep,
        List.map_cons, List.sum_cons, add_assoc]

theorem levelCount_init (cls : SeverityClass) (level : CString) :
    levelCount initSeverityData cls level = 0 := by
  rw [levelCount, rangeCount_eq_sum]
  apply List.sum_eq_zero
  intro x hx
  obtain ⟨i, _, rfl⟩ := List.mem_map.mp hx
  simp [initSeverityData, List.getD_eq_getElem?_getD, List.getElem?_replicate]
  split <;> rfl

theorem levelCount_addAll {additions : List Addition} (hValid : ∀ a ∈ additions, a.Valid)
    (cls : SeverityClass) (level : CString) :
    levelCount (addAll additions) cls level =
      (additions.map fun a => if CountedIn cls level a.severity then a.count else 0).sum := by
  rw [addAll, levelCount_foldl hValid (List.length_replicate ..), levelCount_init, zero_add]

theorem total_foldl (additions : List Addition) (data : SeverityData) :
    (additions.foldl Addition.apply data).total =
      data.total + (additions.map Addition.count).sum := by
  induction additions generalizing data with
  | nil => simp
  | cons a additions ih =>
      rw [List.foldl_cons, ih, Addition.apply_eq, severityDataAddCount, List.map_cons, List.sum_cons,
        add_assoc]

/-- After the first call the largest value is one that was added or the one
before, and none is larger. -/
theorem max_foldl {additions : List Addition} (hValid : ∀ a ∈ additions, a.Valid)
    {data : SeverityData} (hTotal : 0 < data.total) :
    (((additions.foldl Addition.apply data).max = data.max ∨
      ∃ a ∈ additions, a.severity = (additions.foldl Addition.apply data).max) ∧
      data.max ≤ (additions.foldl Addition.apply data).max) ∧
      ∀ a ∈ additions, a.severity ≤ (additions.foldl Addition.apply data).max := by
  induction additions generalizing data with
  | nil => exact ⟨⟨Or.inl rfl, le_refl _⟩, by simp⟩
  | cons a additions ih =>
      obtain ⟨_, hCount⟩ := hValid a List.mem_cons_self
      have hNext : 0 < (a.apply data).total := by
        rw [Addition.apply_eq]
        change 0 < data.total + a.count
        omega
      have hMax : (a.apply data).max = if data.max ≤ a.severity then a.severity else data.max := by
        rw [Addition.apply_eq]
        change (if data.total = 0 ∨ data.max ≤ a.severity then a.severity else data.max) = _
        exact if_congr (or_iff_right (by omega)) rfl rfl
      obtain ⟨⟨hFrom, hBefore⟩, hAfter⟩ := ih (fun b hb => hValid b (List.mem_cons_of_mem a hb)) hNext
      rw [List.foldl_cons]
      generalize hResult : (additions.foldl Addition.apply (a.apply data)).max = result at *
      rw [hMax] at hFrom hBefore
      split at hFrom
      · rename_i hLarger
        rw [if_pos hLarger] at hBefore
        refine ⟨⟨Or.inr ?_, le_trans hLarger hBefore⟩, ?_⟩
        · rcases hFrom with hFrom | ⟨b, hb, hFrom⟩
          · exact ⟨a, List.mem_cons_self, hFrom.symm⟩
          · exact ⟨b, List.mem_cons_of_mem a hb, hFrom⟩
        · intro b hb
          rcases List.mem_cons.mp hb with rfl | hb
          · exact hBefore
          · exact hAfter b hb
      · rename_i hSmaller
        rw [if_neg hSmaller] at hBefore
        refine ⟨⟨?_, hBefore⟩, ?_⟩
        · rcases hFrom with hFrom | ⟨b, hb, hFrom⟩
          · exact Or.inl hFrom
          · exact Or.inr ⟨b, List.mem_cons_of_mem a hb, hFrom⟩
        · intro b hb
          rcases List.mem_cons.mp hb with rfl | hb
          · exact le_trans (le_of_lt (not_le.mp hSmaller)) hBefore
          · exact hAfter b hb

theorem max_addAll {additions : List Addition} (hValid : ∀ a ∈ additions, a.Valid)
    (hSome : additions ≠ []) :
    (∃ a ∈ additions, a.severity = (addAll additions).max) ∧
      ∀ a ∈ additions, a.severity ≤ (addAll additions).max := by
  cases additions with
  | nil => exact absurd rfl hSome
  | cons a additions =>
      obtain ⟨_, hCount⟩ := hValid a List.mem_cons_self
      have hFirst : (a.apply initSeverityData).max = a.severity := by
        rw [Addition.apply_eq]
        change (if (0 : ℤ) = 0 ∨ severityMissing ≤ a.severity then a.severity else severityMissing) = _
        exact if_pos (Or.inl rfl)
      have hTotal : 0 < (a.apply initSeverityData).total := by
        rw [Addition.apply_eq]
        change 0 < 0 + a.count
        omega
      obtain ⟨⟨hFrom, hBefore⟩, hAfter⟩ :=
        max_foldl (fun b hb => hValid b (List.mem_cons_of_mem a hb)) hTotal
      rw [hFirst] at hFrom hBefore
      rw [addAll, List.foldl_cons]
      constructor
      · rcases hFrom with hFrom | ⟨b, hb, hFrom⟩
        · exact ⟨a, List.mem_cons_self, hFrom.symm⟩
        · exact ⟨b, List.mem_cons_of_mem a hb, hFrom⟩
      · intro b hb
        rcases List.mem_cons.mp hb with rfl | hb
        · exact hBefore
        · exact hAfter b hb

/-! The limits of the levels as indexes. -/

/-- The level a recorded score of k tenths is counted for, by its index. -/
theorem countedIn_tenths (cls : SeverityClass) (level : CString) (k : ℕ) :
    CountedIn cls level ((k : ℚ) / 10) ↔
      (severityDataIndex (levelMinSeverity level cls)).toNat ≤ k + 4 ∧
        k + 4 ≤ (severityDataIndex (levelMaxSeverity level cls)).toNat := by
  rw [CountedIn, severityDataIndex_tenths]
  exact Iff.rfl

/-- The limits of a level in the counts array. -/
def limits (cls : SeverityClass) (level : CString) : ℕ × ℕ :=
  ((severityDataIndex (levelMinSeverity level cls)).toNat,
    (severityDataIndex (levelMaxSeverity level cls)).toNat)

/-- The names under which a level is counted and reported. -/
def levelNames : List (CString × CString) :=
  [(lit "Error", lit "Error"), (lit "Debug", lit "Debug"),
    (lit "False Positive", lit "False Positive"), (lit "Log", lit "Log"), (lit "low", lit "Low"),
    (lit "medium", lit "Medium"), (lit "high", lit "High")]

/-- The limits of the levels, in the order of their names. -/
def limitValues : SeverityClass → List (ℕ × ℕ)
  | .classic => [(1, 1), (2, 2), (3, 3), (4, 4), (5, 24), (25, 54), (55, 104)]
  -- The levels that the class does not have are counted at index 0.
  | .pciDss => [(1, 1), (2, 2), (3, 3), (4, 4), (0, 0), (0, 0), (47, 104)]
  | .nist | .bsi => [(1, 1), (2, 2), (3, 3), (4, 4), (5, 43), (44, 73), (74, 104)]

theorem map_limits (cls : SeverityClass) :
    levelNames.map (fun p => limits cls p.1) = limitValues cls := by
  cases cls <;> decide +kernel

theorem limits_special (cls : SeverityClass) :
    limits cls (lit "Error") = (1, 1) ∧ limits cls (lit "Debug") = (2, 2) ∧
      limits cls (lit "False Positive") = (3, 3) ∧ limits cls (lit "Log") = (4, 4) := by
  have hValues := map_limits cls
  cases cls <;>
    · simp only [levelNames, limitValues, List.map_cons, List.map_nil, List.cons.injEq] at hValues
      exact ⟨hValues.1, hValues.2.1, hValues.2.2.1, hValues.2.2.2.1⟩

theorem limits_classic :
    limits .classic (lit "low") = (5, 24) ∧ limits .classic (lit "medium") = (25, 54) ∧
      limits .classic (lit "high") = (55, 104) := by
  have hValues := map_limits .classic
  simp only [levelNames, limitValues, List.map_cons, List.map_nil, List.cons.injEq] at hValues
  exact ⟨hValues.2.2.2.2.1, hValues.2.2.2.2.2.1, hValues.2.2.2.2.2.2.1⟩

theorem limits_pciDss :
    limits .pciDss (lit "low") = (0, 0) ∧ limits .pciDss (lit "medium") = (0, 0) ∧
      limits .pciDss (lit "high") = (47, 104) := by
  have hValues := map_limits .pciDss
  simp only [levelNames, limitValues, List.map_cons, List.map_nil, List.cons.injEq] at hValues
  exact ⟨hValues.2.2.2.2.1, hValues.2.2.2.2.2.1, hValues.2.2.2.2.2.2.1⟩

theorem limits_nist {cls : SeverityClass} (h : cls = .nist ∨ cls = .bsi) :
    limits cls (lit "low") = (5, 43) ∧ limits cls (lit "medium") = (44, 73) ∧
      limits cls (lit "high") = (74, 104) := by
  have hValues := map_limits cls
  rcases h with rfl | rfl <;>
    · simp only [levelNames, limitValues, List.map_cons, List.map_nil, List.cons.injEq] at hValues
      exact ⟨hValues.2.2.2.2.1, hValues.2.2.2.2.2.1, hValues.2.2.2.2.2.2.1⟩

theorem levelNames_injective {p q : CString × CString} (hp : p ∈ levelNames) (hq : q ∈ levelNames)
    (h : p.2 = q.2) : p = q := by
  have hNames : ∀ p ∈ levelNames, ∀ q ∈ levelNames, p.2 = q.2 → p = q := by decide
  exact hNames p hp q hq h

/-- The ranges of two levels of a class are apart, but for index 0. -/
theorem limits_apart (cls : SeverityClass) {p q : CString × CString} (hp : p ∈ levelNames)
    (hq : q ∈ levelNames) (h : p ≠ q) :
    (limits cls p.1).2 < (limits cls q.1).1 ∨ (limits cls q.1).2 < (limits cls p.1).1 ∨
      (limits cls p.1).2 = 0 ∨ (limits cls q.1).2 = 0 := by
  have hListed : levelNames.map (fun p => (p, limits cls p.1)) = levelNames.zip (limitValues cls) := by
    rw [List.map_prod_left_eq_zip, map_limits]
  have hLimits : ∀ a ∈ levelNames.zip (limitValues cls), ∀ b ∈ levelNames.zip (limitValues cls),
      a.1 ≠ b.1 → a.2.2 < b.2.1 ∨ b.2.2 < a.2.1 ∨ a.2.2 = 0 ∨ b.2.2 = 0 := by
    cases cls <;> decide
  rw [← hListed] at hLimits
  exact hLimits _ (List.mem_map_of_mem hp) _ (List.mem_map_of_mem hq) h

/-- No severity is counted for two levels. -/
theorem eq_of_countedIn {cls : SeverityClass} {severity : ℚ} (hRecordable : Recordable severity)
    {p q : CString × CString} (hp : p ∈ levelNames) (hq : q ∈ levelNames)
    (hFirst : CountedIn cls p.1 severity) (hSecond : CountedIn cls q.1 severity) : p = q := by
  by_contra hDifferent
  have hIndex := (severityDataIndex_bounds hRecordable).1
  have hApart := limits_apart cls hp hq hDifferent
  simp only [limits] at hApart
  obtain ⟨hFirstLow, hFirstHigh⟩ := hFirst
  obtain ⟨hSecondLow, hSecondHigh⟩ := hSecond
  omega

/-- The scores of the class pci-dss that its levels leave out. -/
def LeftOut (cls : SeverityClass) (severity : ℚ) : Prop :=
  cls = .pciDss ∧ 0 < severity ∧ severity < 4.3

/-! The limits of the classes, in tenths. -/

section tenths

variable {x : ℚ} {n : ℕ}

theorem lt_tenths (hx : x = n / 10) (k : ℕ) : x < (k : ℚ) / 10 ↔ n < k := by
  rw [hx, div_lt_div_iff_of_pos_right (by norm_num), Nat.cast_lt]

theorem le_tenths (hx : x = n / 10) (k : ℕ) : x ≤ (k : ℚ) / 10 ↔ n ≤ k := by
  rw [hx, div_le_div_iff_of_pos_right (by norm_num), Nat.cast_le]

theorem tenths_lt (hx : x = n / 10) (k : ℕ) : (k : ℚ) / 10 < x ↔ k < n := by
  rw [hx, div_lt_div_iff_of_pos_right (by norm_num), Nat.cast_lt]

theorem tenths_le (hx : x = n / 10) (k : ℕ) : (k : ℚ) / 10 ≤ x ↔ k ≤ n := by
  rw [hx, div_le_div_iff_of_pos_right (by norm_num), Nat.cast_le]

end tenths

theorem high_tenths {k : ℕ} (hMax : k ≤ 100) (cls : SeverityClass) :
    severityInLevel cls ((k : ℚ) / 10) (lit "high") = true ↔ CountedIn cls (lit "high") (k / 10) := by
  have hLimits : CountedIn cls (lit "high") (k / 10) ↔
      (limits cls (lit "high")).1 ≤ k + 4 ∧ k + 4 ≤ (limits cls (lit "high")).2 :=
    countedIn_tenths cls _ k
  rw [hLimits, severityInLevel_high]
  cases cls with
  | classic =>
      rw [Bool.and_eq_true, decide_eq_true_eq, decide_eq_true_eq, @lt_tenths _ 50 (by norm_num),
        @tenths_le _ 100 (by norm_num), limits_classic.2.2]
      omega
  | pciDss =>
      rw [decide_eq_true_eq, @le_tenths _ 43 (by norm_num), limits_pciDss.2.2]
      omega
  | nist =>
      rw [Bool.and_eq_true, decide_eq_true_eq, decide_eq_true_eq, @le_tenths _ 70 (by norm_num),
        @tenths_le _ 100 (by norm_num), (limits_nist (Or.inl rfl)).2.2]
      omega
  | bsi =>
      rw [Bool.and_eq_true, decide_eq_true_eq, decide_eq_true_eq, @le_tenths _ 70 (by norm_num),
        @tenths_le _ 100 (by norm_num), (limits_nist (Or.inr rfl)).2.2]
      omega

theorem medium_tenths (k : ℕ) (cls : SeverityClass) :
    severityInLevel cls ((k : ℚ) / 10) (lit "medium") = true ↔
      CountedIn cls (lit "medium") (k / 10) := by
  have hLimits : CountedIn cls (lit "medium") (k / 10) ↔
      (limits cls (lit "medium")).1 ≤ k + 4 ∧ k + 4 ≤ (limits cls (lit "medium")).2 :=
    countedIn_tenths cls _ k
  rw [hLimits, severityInLevel_medium]
  cases cls with
  | classic =>
      rw [Bool.and_eq_true, decide_eq_true_eq, decide_eq_true_eq, @lt_tenths _ 20 (by norm_num),
        @tenths_le _ 50 (by norm_num), limits_classic.2.1]
      omega
  | pciDss =>
      rw [limits_pciDss.2.1]
      exact iff_of_false Bool.false_ne_true (by omega)
  | nist =>
      rw [Bool.and_eq_true, decide_eq_true_eq, decide_eq_true_eq, @le_tenths _ 40 (by norm_num),
        @tenths_lt _ 70 (by norm_num), (limits_nist (Or.inl rfl)).2.1]
      omega
  | bsi =>
      rw [Bool.and_eq_true, decide_eq_true_eq, decide_eq_true_eq, @le_tenths _ 40 (by norm_num),
        @tenths_lt _ 70 (by norm_num), (limits_nist (Or.inr rfl)).2.1]
      omega

theorem low_tenths (k : ℕ) (cls : SeverityClass) :
    severityInLevel cls ((k : ℚ) / 10) (lit "low") = true ↔ CountedIn cls (lit "low") (k / 10) := by
  have hLimits : CountedIn cls (lit "low") (k / 10) ↔
      (limits cls (lit "low")).1 ≤ k + 4 ∧ k + 4 ≤ (limits cls (lit "low")).2 :=
    countedIn_tenths cls _ k
  rw [hLimits, severityInLevel_low]
  cases cls with
  | classic =>
      rw [Bool.and_eq_true, decide_eq_true_eq, decide_eq_true_eq, @lt_tenths _ 0 (by norm_num),
        @tenths_le _ 20 (by norm_num), limits_classic.1]
      omega
  | pciDss =>
      rw [limits_pciDss.1]
      exact iff_of_false Bool.false_ne_true (by omega)
  | nist =>
      rw [Bool.and_eq_true, decide_eq_true_eq, decide_eq_true_eq, @lt_tenths _ 0 (by norm_num),
        @tenths_lt _ 40 (by norm_num), (limits_nist (Or.inl rfl)).1]
      omega
  | bsi =>
      rw [Bool.and_eq_true, decide_eq_true_eq, decide_eq_true_eq, @lt_tenths _ 0 (by norm_num),
        @tenths_lt _ 40 (by norm_num), (limits_nist (Or.inr rfl)).1]
      omega

/-- A score in none of the three levels is left out. -/
theorem leftOut_of_no_level {cls : SeverityClass} {severity : ℚ} (hPos : 0 < severity)
    (hMax : severity ≤ 10) (hHigh : severityInLevel cls severity (lit "high") = false)
    (hMedium : severityInLevel cls severity (lit "medium") = false)
    (hLow : severityInLevel cls severity (lit "low") = false) : LeftOut cls severity := by
  have hNotLow : ¬ InLowRange cls severity := fun h =>
    Bool.false_ne_true (hLow.symm.trans ((severityInLevel_low_iff hPos cls).mpr h))
  by_cases hClass : cls = .pciDss
  · subst hClass
    rw [severityInLevel_high, decide_eq_false_iff_not, not_le] at hHigh
    exact ⟨rfl, hPos, hHigh⟩
  · rcases high_or_medium hMax hClass hNotLow with h | h
    · exact absurd (hHigh.symm.trans h) Bool.false_ne_true
    · exact absurd (hMedium.symm.trans h) Bool.false_ne_true

theorem exists_level_tenths {k : ℕ} (hPos : 1 ≤ k) (hMax : k ≤ 100) {cls : SeverityClass}
    (hKept : ¬ LeftOut cls (k / 10)) :
    ∃ p ∈ levelNames, CountedIn cls p.1 (k / 10) ∧ severityToLevel cls (k / 10) 0 = some p.2 := by
  have hScorePos : (0 : ℚ) < k / 10 := (@lt_tenths _ 0 (by norm_num) k).mpr hPos
  have hScoreMax : (k : ℚ) / 10 ≤ 10 := (@tenths_le _ 100 (by norm_num) k).mpr hMax
  rw [severityToLevel_score hScorePos hScoreMax]
  cases hHigh : severityInLevel cls (k / 10) (lit "high") with
  | true => exact ⟨(lit "high", lit "High"), by decide, (high_tenths hMax cls).mp hHigh, rfl⟩
  | false =>
      cases hMedium : severityInLevel cls (k / 10) (lit "medium") with
      | true => exact ⟨(lit "medium", lit "Medium"), by decide, (medium_tenths k cls).mp hMedium, rfl⟩
      | false =>
          cases hLow : severityInLevel cls (k / 10) (lit "low") with
          | true => exact ⟨(lit "low", lit "Low"), by decide, (low_tenths k cls).mp hLow, rfl⟩
          | false =>
              exact absurd (leftOut_of_no_level hScorePos hScoreMax hHigh hMedium hLow) hKept

theorem exists_level_special (cls : SeverityClass) :
    (CountedIn cls (lit "Log") severityLog ∧ severityToLevel cls severityLog 0 = some (lit "Log")) ∧
      (CountedIn cls (lit "False Positive") severityFp ∧
        severityToLevel cls severityFp 0 = some (lit "False Positive")) ∧
      (CountedIn cls (lit "Debug") severityDebug ∧
        severityToLevel cls severityDebug 0 = some (lit "Debug")) ∧
      (CountedIn cls (lit "Error") severityError ∧
        severityToLevel cls severityError 0 = some (lit "Error")) := by
  cases cls <;> decide +kernel

/-- Every severity that is not left out is counted for its level. -/
theorem exists_level {severity : ℚ} (hRecordable : Recordable severity) {cls : SeverityClass}
    (hKept : ¬ LeftOut cls severity) :
    ∃ p ∈ levelNames, CountedIn cls p.1 severity ∧ severityToLevel cls severity 0 = some p.2 := by
  obtain ⟨hLog, hFp, hDebug, hError⟩ := exists_level_special cls
  rcases hRecordable with ⟨k, hMax, rfl⟩ | rfl | rfl | rfl | rfl
  · rcases Nat.eq_zero_or_pos k with rfl | hPos
    · rw [Nat.cast_zero, zero_div]
      exact ⟨(lit "Log", lit "Log"), by decide, hLog⟩
    · exact exists_level_tenths hPos hMax hKept
  · exact ⟨(lit "Log", lit "Log"), by decide, hLog⟩
  · exact ⟨(lit "False Positive", lit "False Positive"), by decide, hFp⟩
  · exact ⟨(lit "Debug", lit "Debug"), by decide, hDebug⟩
  · exact ⟨(lit "Error", lit "Error"), by decide, hError⟩

theorem countedIn_iff {severity : ℚ} (hRecordable : Recordable severity) {cls : SeverityClass}
    (hKept : ¬ LeftOut cls severity) {p : CString × CString} (hp : p ∈ levelNames) :
    CountedIn cls p.1 severity ↔ severityToLevel cls severity 0 = some p.2 := by
  obtain ⟨q, hq, hCounted, hLevel⟩ := exists_level hRecordable hKept
  constructor
  · intro h
    rw [eq_of_countedIn hRecordable hp hq h hCounted, hLevel]
  · intro h
    rw [hLevel, Option.some_inj] at h
    rw [← levelNames_injective hq hp h]
    exact hCounted

/-- A score that is left out has the level Log, and is not counted for it. -/
theorem leftOut_log {cls : SeverityClass} {severity : ℚ} (h : LeftOut cls severity)
    (hRecordable : Recordable severity) :
    severityToLevel cls severity 0 = some (lit "Log") ∧ ¬ CountedIn cls (lit "Log") severity := by
  obtain ⟨rfl, hPos, hBelow⟩ := h
  constructor
  · rw [severityToLevel_score hPos (by linarith), severityInLevel_high, severityInLevel_medium,
      severityInLevel_low]
    simp [hBelow]
  · obtain ⟨hLog, hFp, hDebug, hError⟩ := special_ne hPos
    rcases hRecordable with ⟨k, hMax, rfl⟩ | h | h | h | h
    · have hTenths : 0 < k := (@lt_tenths _ 0 (by norm_num) k).mp hPos
      intro hCounted
      have hLimits := (countedIn_tenths .pciDss (lit "Log") k).mp hCounted
      have hLog : limits .pciDss (lit "Log") = (4, 4) := (limits_special .pciDss).2.2.2
      simp only [limits, Prod.mk.injEq] at hLog
      omega
    · exact absurd h hLog
    · exact absurd h hFp
    · exact absurd h hDebug
    · exact absurd h hError

theorem levelCount_eq_tally {additions : List Addition} (hValid : ∀ a ∈ additions, a.Valid)
    {cls : SeverityClass} (hKept : ∀ a ∈ additions, ¬ LeftOut cls a.severity)
    {p : CString × CString} (hp : p ∈ levelNames) :
    levelCount (addAll additions) cls p.1 = tally cls additions p.2 := by
  rw [levelCount_addAll hValid, tally]
  congr 1
  apply List.map_congr_left
  intro a ha
  exact if_congr (countedIn_iff (hValid a ha).1 (hKept a ha) hp) rfl rfl

theorem tallies_sum {additions : List Addition} (hValid : ∀ a ∈ additions, a.Valid)
    {cls : SeverityClass} (hKept : ∀ a ∈ additions, ¬ LeftOut cls a.severity) :
    (tallies cls additions).sum = (additions.map Addition.count).sum := by
  induction additions with
  | nil => rfl
  | cons a additions ih =>
      have hRest := ih (fun b hb => hValid b (List.mem_cons_of_mem a hb))
        (fun b hb => hKept b (List.mem_cons_of_mem a hb))
      obtain ⟨p, hp, _, hLevel⟩ :=
        exists_level (hValid a List.mem_cons_self).1 (hKept a List.mem_cons_self)
      have hOnce (n : ℤ) : (levelNames.map fun q => if some p.2 = some q.2 then n else 0).sum = n := by
        simp only [levelNames, List.mem_cons, List.not_mem_nil, or_false] at hp
        rcases hp with rfl | rfl | rfl | rfl | rfl | rfl | rfl <;> simp +decide [levelNames]
      have hFirst := hOnce a.count
      simp only [levelNames, List.map_cons, List.map_nil, List.sum_cons, List.sum_nil] at hFirst
      simp only [LevelCounts.sum, tallies, tally, List.map_cons, List.sum_cons, hLevel] at hRest ⊢
      omega

/-- The calls that are counted agree with the levels when no score is left out. -/
theorem countsAgree_of_kept {additions : List Addition} (hValid : ∀ a ∈ additions, a.Valid)
    {cls : SeverityClass} (hKept : ∀ a ∈ additions, ¬ LeftOut cls a.severity) :
    CountsAgree cls additions := by
  have hCount {p : CString × CString} (hp : p ∈ levelNames) := levelCount_eq_tally hValid hKept hp
  have hLevels : severityDataLevelCounts (addAll additions) cls = tallies cls additions := by
    rw [severityDataLevelCounts, tallies, @hCount (lit "Error", lit "Error") (by decide),
      @hCount (lit "Debug", lit "Debug") (by decide),
      @hCount (lit "False Positive", lit "False Positive") (by decide),
      @hCount (lit "Log", lit "Log") (by decide), @hCount (lit "low", lit "Low") (by decide),
      @hCount (lit "medium", lit "Medium") (by decide), @hCount (lit "high", lit "High") (by decide)]
  refine ⟨hLevels, ?_, max_addAll hValid⟩
  rw [hLevels, tallies_sum hValid hKept, addAll, total_foldl]
  exact (zero_add _).symm

/-- A score that is left out is missing in the count of the level Log. -/
theorem logs_lt {additions : List Addition} (hValid : ∀ a ∈ additions, a.Valid) {cls : SeverityClass}
    {a : Addition} (ha : a ∈ additions) (hLeftOut : LeftOut cls a.severity) :
    levelCount (addAll additions) cls (lit "Log") < tally cls additions (lit "Log") := by
  rw [levelCount_addAll hValid, tally]
  apply List.sum_lt_sum
  · intro b hb
    obtain ⟨hRecordable, hPositive⟩ := hValid b hb
    by_cases h : LeftOut cls b.severity
    · obtain ⟨hLevel, hNotCounted⟩ := leftOut_log h hRecordable
      rw [if_neg hNotCounted, if_pos hLevel]
      omega
    · have hIff := @countedIn_iff _ hRecordable _ h (lit "Log", lit "Log") (by decide)
      exact le_of_eq (if_congr hIff rfl rfl)
  · obtain ⟨hRecordable, hPositive⟩ := hValid a ha
    obtain ⟨hLevel, hNotCounted⟩ := leftOut_log hLeftOut hRecordable
    refine ⟨a, ha, ?_⟩
    rw [if_neg hNotCounted, if_pos hLevel]
    omega

/-- The counts agree with the levels exactly when no score between 0 and 4.3
was added under the class pci-dss. -/
theorem countsAgree_iff (cls : SeverityClass) {additions : List Addition}
    (hValid : ∀ a ∈ additions, a.Valid) :
    CountsAgree cls additions ↔
      (cls = .pciDss → ∀ a ∈ additions, ¬ (0 < a.severity ∧ a.severity < 4.3)) := by
  constructor
  · intro hAgree hClass a ha hScore
    have hLogs := congrArg LevelCounts.logs hAgree.levels
    have hLess := logs_lt hValid ha ⟨hClass, hScore⟩
    exact absurd hLogs (ne_of_lt hLess)
  · intro h
    apply countsAgree_of_kept hValid
    intro a ha hLeftOut
    exact h hLeftOut.1 a ha hLeftOut.2

theorem countsAgree_iff_sample :
    CountsAgree .classic [.add 0.5, .addCount (-1) 2] ↔
      (SeverityClass.classic = .pciDss → ∀ a ∈ [Addition.add 0.5, .addCount (-1) 2],
        ¬ (0 < a.severity ∧ a.severity < 4.3)) := by
  apply countsAgree_iff
  intro a ha
  simp only [List.mem_cons, List.not_mem_nil, or_false] at ha
  rcases ha with rfl | rfl
  · exact ⟨Or.inl ⟨5, by norm_num, by norm_num [Addition.severity]⟩, le_refl 1⟩
  · exact ⟨Or.inr (Or.inr (Or.inl rfl)), by decide⟩

/-- One score of 2.0 under pci-dss: its level is Log, and all counts are 0. -/
theorem countsAgree_pciDss_two :
    (∀ a ∈ [Addition.add 2], a.Valid) ∧ ¬ CountsAgree .pciDss [.add 2] := by
  constructor
  · intro a ha
    rw [List.mem_singleton.mp ha]
    exact ⟨Or.inl ⟨20, by norm_num, by norm_num [Addition.severity]⟩, le_refl 1⟩
  · intro h
    have hTotal := h.total
    revert hTotal
    decide +kernel

end Severity
