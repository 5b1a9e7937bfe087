import Mathlib.Data.Rat.Floor
import Mathlib.Tactic.NormNum
import Mathlib.Tactic.Linarith
import OpenVAS.Lib.CString

/-! Severity scores, the threat levels of a severity class and the result
types of the scanner. A score is a rational number, so that the limits of the
classes are the decimal numbers the source writes. -/
namespace Severity

open CString

/-- The values of the user's severity class setting. -/
inductive SeverityClass
  | classic
  | pciDss
  | nist
  | bsi
deriving DecidableEq, Repr

def severityLog : ℚ := 0
def severityFp : ℚ := -1
def severityDebug : ℚ := -2
def severityError : ℚ := -3
def severityUndefined : ℚ := -98
def severityMissing : ℚ := -99
def severityMax : ℕ := 10
def severitySubdivisions : ℕ := 10

/-- `severity_in_level`, the class being what `setting_severity` returns. -/
def severityInLevel (cls : SeverityClass) (severity : ℚ) (level : CString) : Bool :=
  match cls with
  | .classic =>
      if level = lit "high" then 5 < severity && severity ≤ 10
      else if level = lit "medium" then 2 < severity && severity ≤ 5
      else if level = lit "low" then 0 < severity && severity ≤ 2
      else if level = lit "none" then severity = 0
      else false
  | .pciDss =>
      if level = lit "high" then 4.3 ≤ severity
      else if level = lit "none" then severity = 0
      else false
  | .nist | .bsi =>
      if level = lit "high" then 7 ≤ severity && severity ≤ 10
      else if level = lit "medium" then 4 ≤ severity && severity < 7
      else if level = lit "low" then 0 < severity && severity < 4
      else if level = lit "none" then severity = 0
      else false

/-- What `level_min_severity` and `level_max_severity` answer for the levels
that do not depend on the class. -/
def specialSeverity (level : CString) : Option ℚ :=
  if level = lit "Log" then some severityLog
  else if level = lit "False Positive" then some severityFp
  else if level = lit "Debug" then some severityDebug
  else if level = lit "Error" then some severityError
  else none

/-- The limit of one level among a class's limits for high, medium and low. -/
def levelLimit (high medium low : ℚ) (level : CString) : ℚ :=
  if level = lit "high" then high
  else if level = lit "medium" then medium
  else if level = lit "low" then low
  else severityUndefined

def levelMinSeverity (level : CString) (cls : SeverityClass) : ℚ :=
  (specialSeverity level).getD
    (match cls with
    | .classic => levelLimit 5.1 2.1 0.1 level
    | .pciDss => levelLimit 4.3 severityUndefined severityUndefined level
    | .nist | .bsi => levelLimit 7.0 4.0 0.1 level)

def levelMaxSeverity (level : CString) (cls : SeverityClass) : ℚ :=
  (specialSeverity level).getD
    (match cls with
    | .classic => levelLimit 10.0 5.0 2.0 level
    | .pciDss => levelLimit 10.0 severityUndefined severityUndefined level
    | .nist | .bsi => levelLimit 10.0 6.9 3.9 level)

/-- `severity_matches_type`. The last comparison has two literals on its sides:
the source compares "Security Note" with the word "type". -/
def severityMatchesType (cls : SeverityClass) (severity : ℚ) (type : Option CString) : Bool :=
  match type with
  | none => false
  | some type =>
      if severity = severityLog then lit "Log Message" = type
      else if severity = severityFp then lit "False Positive" = type
      else if severity = severityDebug then lit "Debug Message" = type
      else if severity = severityError then lit "Error Message" = type
      else if 0 < severity ∧ severity ≤ 10 then
        if lit "Alarm" = type then true
        else if lit "high" = type ∨ lit "medium" = type ∨ lit "low" = type then
          severityInLevel cls severity type
        else if lit "Security Hole" = type then severityInLevel cls severity (lit "high")
        else if lit "Security Warning" = type then severityInLevel cls severity (lit "medium")
        else if lit "Security Note" = lit "type" then severityInLevel cls severity (lit "low")
        else false
      else false

/-- `severity_to_level`; `none` is the null pointer of an invalid score. -/
def severityToLevel (cls : SeverityClass) (severity : ℚ) (mode : ℤ) : Option CString :=
  if severity = severityLog then some (lit "Log")
  else if severity = severityFp then some (lit "False Positive")
  else if severity = severityDebug then some (lit "Debug")
  else if severity = severityError then some (lit "Error")
  else if 0 < severity ∧ severity ≤ 10 then
    if mode = 1 then some (lit "Alarm")
    else if severityInLevel cls severity (lit "high") then some (lit "High")
    else if severityInLevel cls severity (lit "medium") then some (lit "Medium")
    else if severityInLevel cls severity (lit "low") then some (lit "Low")
    else some (lit "Log")
  else none

/-- `manage_result_type_threat`. -/
def manageResultTypeThreat (type : CString) : CString :=
  if strcaseeq type (lit "Security Hole") then lit "High"
  else if strcaseeq type (lit "Security Warning") then lit "Medium"
  else if strcaseeq type (lit "Security Note") then lit "Low"
  else if strcaseeq type (lit "False Positive") then lit "False Positive"
  else lit "Log"

/-! The levels of a class, one at a time. -/

theorem severityInLevel_high (cls : SeverityClass) (severity : ℚ) :
    severityInLevel cls severity (lit "high") =
      match cls with
      | .classic => 5 < severity && severity ≤ 10
      | .pciDss => 4.3 ≤ severity
      | .nist | .bsi => 7 ≤ severity && severity ≤ 10 := by
  cases cls <;> rfl

theorem severityInLevel_medium (cls : SeverityClass) (severity : ℚ) :
    severityInLevel cls severity (lit "medium") =
      match cls with
      | .classic => 2 < severity && severity ≤ 5
      | .pciDss => false
      | .nist | .bsi => 4 ≤ severity && severity < 7 := by
  cases cls <;> rfl

theorem severityInLevel_low (cls : SeverityClass) (severity : ℚ) :
    severityInLevel cls severity (lit "low") =
      match cls with
      | .classic => 0 < severity && severity ≤ 2
      | .pciDss => false
      | .nist | .bsi => 0 < severity && severity < 4 := by
  cases cls <;> rfl

/-- A score above zero is none of the special severities. -/
theorem special_ne {severity : ℚ} (hPos : 0 < severity) :
    severity ≠ severityLog ∧ severity ≠ severityFp ∧ severity ≠ severityDebug ∧
      severity ≠ severityError := by
  refine ⟨?_, ?_, ?_, ?_⟩ <;> intro h <;> rw [h] at hPos <;> revert hPos <;> decide +kernel

/-- The level of a score above zero is the first of high, medium and low that
it is in. -/
theorem severityToLevel_score {severity : ℚ} (hPos : 0 < severity) (hMax : severity ≤ 10)
    (cls : SeverityClass) :
    severityToLevel cls severity 0 =
      some (if severityInLevel cls severity (lit "high") then lit "High"
        else if severityInLevel cls severity (lit "medium") then lit "Medium"
        else if severityInLevel cls severity (lit "low") then lit "Low"
        else lit "Log") := by
  obtain ⟨hLog, hFp, hDebug, hError⟩ := special_ne hPos
  rw [severityToLevel, if_neg hLog, if_neg hFp, if_neg hDebug, if_neg hError, if_pos ⟨hPos, hMax⟩,
    if_neg (by decide)]
  split
  · rfl
  · split
    · rfl
    · split <;> rfl

/-- The types of the results of a scanner. -/
def scannerTypes : List CString := [lit "Security Hole", lit "Security Warning", lit "Security Note"]

theorem severityMatchesType_hole {severity : ℚ} (hPos : 0 < severity) (hMax : severity ≤ 10)
    (cls : SeverityClass) :
    severityMatchesType cls severity (some (lit "Security Hole")) =
      severityInLevel cls severity (lit "high") := by
  obtain ⟨hLog, hFp, hDebug, hError⟩ := special_ne hPos
  simp only [severityMatchesType, if_neg hLog, if_neg hFp, if_neg hDebug, if_neg hError,
    if_pos (And.intro hPos hMax)]
  rfl

theorem severityMatchesType_warning {severity : ℚ} (hPos : 0 < severity) (hMax : severity ≤ 10)
    (cls : SeverityClass) :
    severityMatchesType cls severity (some (lit "Security Warning")) =
      severityInLevel cls severity (lit "medium") := by
  obtain ⟨hLog, hFp, hDebug, hError⟩ := special_ne hPos
  simp only [severityMatchesType, if_neg hLog, if_neg hFp, if_neg hDebug, if_neg hError,
    if_pos (And.intro hPos hMax)]
  rfl

/-- No score matches the type "Security Note". -/
theorem severityMatchesType_note {severity : ℚ} (hPos : 0 < severity) (hMax : severity ≤ 10)
    (cls : SeverityClass) :
    severityMatchesType cls severity (some (lit "Security Note")) = false := by
  obtain ⟨hLog, hFp, hDebug, hError⟩ := special_ne hPos
  simp only [severityMatchesType, if_neg hLog, if_neg hFp, if_neg hDebug, if_neg hError,
    if_pos (And.intro hPos hMax)]
  rfl

/-- No score is both high and medium. -/
theorem not_high_of_medium {cls : SeverityClass} {severity : ℚ}
    (h : severityInLevel cls severity (lit "medium") = true) :
    severityInLevel cls severity (lit "high") = false := by
  rw [severityInLevel_medium] at h
  rw [severityInLevel_high]
  cases cls <;> simp at h ⊢ <;> intro hHigh <;> linarith

/-- The scores of the level low. -/
def InLowRange : SeverityClass → ℚ → Prop
  | .classic, severity => severity ≤ 2
  | .pciDss, _ => False
  | .nist, severity | .bsi, severity => severity < 4

theorem severityInLevel_low_iff {severity : ℚ} (hPos : 0 < severity) (cls : SeverityClass) :
    severityInLevel cls severity (lit "low") = true ↔ InLowRange cls severity := by
  rw [severityInLevel_low]
  cases cls <;> simp [InLowRange, hPos]

/-- A low score is neither high nor medium. -/
theorem not_higher_of_low {cls : SeverityClass} {severity : ℚ} (h : InLowRange cls severity) :
    severityInLevel cls severity (lit "high") = false ∧
      severityInLevel cls severity (lit "medium") = false := by
  rw [severityInLevel_high, severityInLevel_medium]
  cases cls with
  | pciDss => exact h.elim
  | classic | nist | bsi =>
      simp only [InLowRange] at h
      constructor <;> simp <;> intro hHigh <;> linarith

/-- Every score that is not low is high or medium, in a class that has these
levels. -/
theorem high_or_medium {cls : SeverityClass} {severity : ℚ} (hMax : severity ≤ 10)
    (hClass : cls ≠ .pciDss) (h : ¬ InLowRange cls severity) :
    severityInLevel cls severity (lit "high") = true ∨
      severityInLevel cls severity (lit "medium") = true := by
  rw [severityInLevel_high, severityInLevel_medium]
  cases cls with
  | pciDss => exact absurd rfl hClass
  | classic =>
      simp only [InLowRange, not_le] at h
      rcases lt_or_ge 5 severity with hHigh | hMedium
      · left
        simp [hHigh, hMax]
      · right
        simp [h, hMedium]
  | nist | bsi =>
      simp only [InLowRange, not_lt] at h
      rcases le_or_gt 7 severity with hHigh | hMedium
      · left
        simp [hHigh, hMax]
      · right
        simp [h, hMedium]

/-- The results of a type are the ones whose level is the threat of the type,
and each score has its type. -/
structure TypesAgree (cls : SeverityClass) (severity : ℚ) : Prop where
  threat : ∀ type ∈ scannerTypes,
    severityMatchesType cls severity (some type) = true ↔
      severityToLevel cls severity 0 = some (manageResultTypeThreat type)
  unique : cls = .classic ∨ cls = .nist →
    ∃! type, type ∈ scannerTypes ∧ severityMatchesType cls severity (some type) = true

theorem threat_of_not_low {cls : SeverityClass} {severity : ℚ} (hPos : 0 < severity)
    (hMax : severity ≤ 10) (hLow : ¬ InLowRange cls severity) {type : CString}
    (hType : type ∈ scannerTypes) :
    severityMatchesType cls severity (some type) = true ↔
      severityToLevel cls severity 0 = some (manageResultTypeThreat type) := by
  have hNotLow : severityInLevel cls severity (lit "low") = false :=
    Bool.eq_false_iff.mpr fun h => hLow ((severityInLevel_low_iff hPos cls).mp h)
  have hOnce := @not_high_of_medium cls severity
  rw [severityToLevel_score hPos hMax, hNotLow]
  simp only [scannerTypes, List.mem_cons, List.not_mem_nil, or_false] at hType
  rcases hType with rfl | rfl | rfl
  · rw [severityMatchesType_hole hPos hMax]
    cases severityInLevel cls severity (lit "high") <;>
      cases severityInLevel cls severity (lit "medium") <;> decide
  · rw [severityMatchesType_warning hPos hMax]
    revert hOnce
    cases severityInLevel cls severity (lit "high") <;>
      cases severityInLevel cls severity (lit "medium") <;> decide
  · rw [severityMatchesType_note hPos hMax]
    cases severityInLevel cls severity (lit "high") <;>
      cases severityInLevel cls severity (lit "medium") <;> decide

theorem unique_of_not_low {cls : SeverityClass} {severity : ℚ} (hPos : 0 < severity)
    (hMax : severity ≤ 10) (hClass : cls ≠ .pciDss) (hLow : ¬ InLowRange cls severity) :
    ∃! type, type ∈ scannerTypes ∧ severityMatchesType cls severity (some type) = true := by
  have hHole := severityMatchesType_hole hPos hMax cls
  have hWarning := severityMatchesType_warning hPos hMax cls
  have hNote := severityMatchesType_note hPos hMax cls
  rcases Bool.eq_false_or_eq_true (severityInLevel cls severity (lit "high")) with hHigh | hHigh
  · have hMedium : severityInLevel cls severity (lit "medium") = false := by
      by_contra hMedium
      rw [not_high_of_medium (Bool.eq_true_of_not_eq_false hMedium)] at hHigh
      exact Bool.noConfusion hHigh
    refine ⟨lit "Security Hole", ⟨by decide, by rw [hHole, hHigh]⟩, ?_⟩
    intro type h
    obtain ⟨hType, hMatch⟩ := h
    simp only [scannerTypes, List.mem_cons, List.not_mem_nil, or_false] at hType
    rcases hType with rfl | rfl | rfl
    · rfl
    · rw [hWarning, hMedium] at hMatch
      exact Bool.noConfusion hMatch
    · rw [hNote] at hMatch
      exact Bool.noConfusion hMatch
  · have hMedium := (high_or_medium hMax hClass hLow).resolve_left (by simp [hHigh])
    refine ⟨lit "Security Warning", ⟨by decide, by rw [hWarning, hMedium]⟩, ?_⟩
    intro type h
    obtain ⟨hType, hMatch⟩ := h
    simp only [scannerTypes, List.mem_cons, List.not_mem_nil, or_false] at hType
    rcases hType with rfl | rfl | rfl
    · rw [hHole, hHigh] at hMatch
      exact Bool.noConfusion hMatch
    · rfl
    · rw [hNote] at hMatch
      exact Bool.noConfusion hMatch

/-- The types agree with the levels exactly on the scores that are not low. -/
theorem typesAgree_iff (cls : SeverityClass) {severity : ℚ} (hPos : 0 < severity)
    (hMax : severity ≤ 10) : TypesAgree cls severity ↔ ¬ InLowRange cls severity := by
  constructor
  · intro hAgree hLow
    have hNote := hAgree.threat (lit "Security Note") (by decide)
    obtain ⟨hHigh, hMedium⟩ := not_higher_of_low hLow
    rw [severityMatchesType_note hPos hMax, severityToLevel_score hPos hMax, hHigh, hMedium,
      (severityInLevel_low_iff hPos cls).mpr hLow] at hNote
    exact Bool.noConfusion (hNote.mpr rfl)
  · intro hLow
    refine ⟨fun type hType => threat_of_not_low hPos hMax hLow hType, fun hClass => ?_⟩
    exact unique_of_not_low hPos hMax (by rcases hClass with rfl | rfl <;> decide) hLow

theorem typesAgree_iff_five : TypesAgree .classic 5 ↔ ¬ InLowRange .classic 5 :=
  typesAgree_iff .classic (by norm_num) (by norm_num)

/-- A classic score of 2 matches none of the types, and its level is low. -/
theorem typesAgree_two : (0 : ℚ) < 2 ∧ (2 : ℚ) ≤ 10 ∧ ¬ TypesAgree .classic 2 := by
  refine ⟨by norm_num, by norm_num, fun hAgree => ?_⟩
  have hNote := hAgree.threat (lit "Security Note") (by decide)
  revert hNote
  decide +kernel

end Severity
