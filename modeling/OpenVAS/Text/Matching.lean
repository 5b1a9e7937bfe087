import Mathlib.Computability.Language
import OpenVAS.Lib.CString

/-! Matching a string with a pattern, after `strutils.c`. -/
namespace Text

open CString

/-- The byte that a pointer at a text points to, which is zero at the end. -/
def deref (s : CString) : UInt8 := s.headD 0

/-- The bytes differ for the comparison. -/
def differ (icase : Bool) (p s : UInt8) : Bool :=
  (icase && tolower p ≠ tolower s) || (!icase && p ≠ s)

/-- The rest of the string is tried at each place, at the end as the last one. -/
def starLoop (strMatch : CString → Bool) : CString → Bool
  | [] => strMatch []
  | c :: string => strMatch (c :: string) || starLoop strMatch string

def strMatch (string pattern : CString) (icase : Bool) : Bool :=
  match pattern with
  | [] => string.isEmpty
  | p :: pattern =>
      if p = ch '?' then
        if string.isEmpty then false else strMatch string.tail pattern icase
      else if p = ch '*' then starLoop (fun s => strMatch s pattern icase) string
      else if differ icase p (deref string) then false
      else strMatch string.tail pattern icase

/-! The language of a pattern. -/

/-- One byte of a kind. -/
def oneByte (kind : UInt8 → Prop) : Language UInt8 := { w | ∃ c, w = [c] ∧ kind c }

/-- What one byte of a pattern stands for. -/
def byteLanguage (icase : Bool) (p : UInt8) : Language UInt8 :=
  if p = ch '?' then oneByte fun _ => True
  else if p = ch '*' then ⊤
  else oneByte fun c => differ icase p c = false

/-- The strings that are made of one for each byte of the pattern. -/
def patternLanguage (icase : Bool) (pattern : CString) : Language UInt8 :=
  (pattern.map (byteLanguage icase)).prod

theorem patternLanguage_cons (icase : Bool) (p : UInt8) (pattern : CString) :
    patternLanguage icase (p :: pattern) = byteLanguage icase p * patternLanguage icase pattern := by
  rw [patternLanguage, List.map_cons, List.prod_cons]
  rfl

theorem nil_mem_oneByte_mul {kind : UInt8 → Prop} {l : Language UInt8} : [] ∉ oneByte kind * l := by
  rw [Language.mem_mul]
  rintro ⟨front, ⟨c, rfl, _⟩, back, _, hNil⟩
  cases hNil

theorem cons_mem_oneByte_mul {kind : UInt8 → Prop} {l : Language UInt8} {c : UInt8} {string : CString} :
    c :: string ∈ oneByte kind * l ↔ kind c ∧ string ∈ l := by
  rw [Language.mem_mul]
  constructor
  · rintro ⟨front, ⟨c', rfl, hKind⟩, back, hBack, hCons⟩
    obtain ⟨rfl, rfl⟩ := List.cons.inj hCons
    exact ⟨hKind, hBack⟩
  · intro ⟨hKind, hString⟩
    exact ⟨[c], ⟨c, rfl, hKind⟩, string, hString, rfl⟩

theorem mem_top_mul {l : Language UInt8} {string : CString} :
    string ∈ ⊤ * l ↔ ∃ back, back <:+ string ∧ back ∈ l := by
  rw [Language.mem_mul]
  constructor
  · rintro ⟨front, _, back, hBack, rfl⟩
    exact ⟨back, List.suffix_append front back, hBack⟩
  · rintro ⟨back, ⟨front, rfl⟩, hBack⟩
    exact ⟨front, trivial, back, hBack, rfl⟩

theorem starLoop_iff (f : CString → Bool) (string : CString) :
    starLoop f string = true ↔ ∃ back, back <:+ string ∧ f back = true := by
  induction string with
  | nil => simp [starLoop]
  | cons c string ih =>
      rw [starLoop, Bool.or_eq_true, ih]
      constructor
      · intro h
        cases h with
        | inl h => exact ⟨c :: string, List.suffix_rfl, h⟩
        | inr h =>
            obtain ⟨back, hBack, hMatch⟩ := h
            exact ⟨back, hBack.trans (List.suffix_cons c string), hMatch⟩
      · intro ⟨back, hBack, hMatch⟩
        cases List.suffix_cons_iff.mp hBack with
        | inl hWhole => exact Or.inl (hWhole ▸ hMatch)
        | inr hBack => exact Or.inr ⟨back, hBack, hMatch⟩

theorem tolower_ne_zero : ∀ c : UInt8, c ≠ 0 → tolower c ≠ 0 := by
  intro c
  have hAll : ∀ n < 256, UInt8.ofNat n ≠ 0 → tolower (UInt8.ofNat n) ≠ 0 := by decide +kernel
  simpa using hAll c.toNat c.toNat_lt

/-- The end of the string is not taken for a byte of the pattern. -/
theorem differ_end {icase : Bool} {p : UInt8} (h : p ≠ 0) : differ icase p 0 = true := by
  have hLower := tolower_ne_zero p h
  have hZero : tolower 0 = 0 := by decide
  cases icase <;> simp [differ, hZero, hLower, h]

/-- The matcher answers for every string whether it is in the language of the pattern. -/
theorem strMatch_iff (string : CString) {pattern : CString} (icase : Bool) (hPattern : 0 ∉ pattern) :
    strMatch string pattern icase = true ↔ string ∈ patternLanguage icase pattern := by
  induction pattern generalizing string with
  | nil => simp [strMatch, patternLanguage, Language.mem_one]
  | cons p pattern ih =>
      rw [List.mem_cons, not_or] at hPattern
      rw [patternLanguage_cons, strMatch, byteLanguage]
      split
      · cases string with
        | nil => simp [nil_mem_oneByte_mul]
        | cons c string => simp [cons_mem_oneByte_mul, ih string hPattern.2]
      · split
        · rw [starLoop_iff, mem_top_mul]
          exact exists_congr fun back => and_congr_right fun _ => ih back hPattern.2
        · cases string with
          | nil => simp [deref, differ_end (Ne.symm hPattern.1), nil_mem_oneByte_mul]
          | cons c string => simp [deref, cons_mem_oneByte_mul, ih string hPattern.2]

theorem strMatch_iff_stars :
    strMatch (lit "abcabd") (lit "a*?B*d") true = true ↔
      lit "abcabd" ∈ patternLanguage true (lit "a*?B*d") :=
  strMatch_iff (lit "abcabd") true (by decide)

end Text
