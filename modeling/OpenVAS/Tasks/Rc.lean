import OpenVAS.Lib.CString

/-! Preferences in an RC text, after `rc_preference` of `manage.c`. -/
namespace Rc

open CString

theorem strchr_lt {desc : CString} {c : UInt8} {seek : Nat} (h : strchr desc c = some seek) :
    seek < desc.length := by
  obtain ⟨before, after, rfl, _, rfl⟩ := strchr_split h
  simp

/-- The inner loop, which reads over a section: what follows it. -/
def skipSection (desc : CString) : Option CString :=
  match h : strchr desc (ch '\n') with
  | none => none
  | some seek =>
      if 5 < seek ∧ strncmp 4 desc (lit "end(") = 0 then some (desc.drop (seek + 1))
      else skipSection (desc.drop (seek + 1))
termination_by desc.length
decreasing_by
  have hSeek := strchr_lt h
  rw [List.length_drop]
  omega

theorem skipSection_le {desc rest : CString} (h : skipSection desc = some rest) :
    rest.length ≤ desc.length := by
  induction desc using skipSection.induct with
  | case1 desc hNone =>
      rw [skipSection] at h
      split at h
      · exact absurd h (by simp)
      · rename_i seek hSeek
        exact absurd (hNone.symm.trans hSeek) (by simp)
  | case2 desc seek hSeek hLine | case3 desc seek hSeek hLine ih =>
      rw [skipSection] at h
      split at h
      · exact absurd h (by simp)
      · rename_i seek' hSeek'
        obtain rfl := Option.some.inj (hSeek.symm.trans hSeek')
        first
        | rw [if_pos hLine, Option.some_inj] at h
          rw [← h, List.length_drop]
          omega
        | rw [if_neg hLine] at h
          have hRest := ih h
          rw [List.length_drop] at hRest
          omega

/-- The outer loop. A comparison over as many bytes as there are before the first
byte of the line is one without a limit. -/
def rcLoop (name desc : CString) : Option CString :=
  match _ : strchr desc (ch '\n') with
  | none => none
  | some seek =>
      match strchr (desc.take seek) (ch '=') with
      | some eq =>
          if (if eq = 0 then strcmp desc name else strncmp (eq - 1) desc name) = 0 then
            some (if seek > eq + 1 then (desc.drop (eq + 2)).take (seek - (eq + 2)) else [])
          else rcLoop name (desc.drop (seek + 1))
      | none =>
          if 7 < seek ∧ strncmp 6 desc (lit "begin(") = 0 then
            match _ : skipSection (desc.drop (seek + 1)) with
            | none => none
            | some rest => rcLoop name rest
          else rcLoop name (desc.drop (seek + 1))
termination_by desc.length
decreasing_by
  · have hSeek := strchr_lt ‹strchr desc (ch '\n') = some seek›
    rw [List.length_drop]
    omega
  · have hSeek := strchr_lt ‹strchr desc (ch '\n') = some seek›
    have hRest := skipSection_le ‹skipSection (desc.drop (seek + 1)) = some rest›
    rw [List.length_drop] at hRest
    omega
  · have hSeek := strchr_lt ‹strchr desc (ch '\n') = some seek›
    rw [List.length_drop]
    omega

def rcPreference (desc : Option CString) (name : CString) : Option CString :=
  desc.bind (rcLoop name)

/-! The texts. -/

/-- A line with a name and a value. -/
structure Preference where
  name : CString
  value : CString
  name_ne : name ≠ []
  name_eq : ch '=' ∉ name
  name_line : ch '\n' ∉ name
  value_line : ch '\n' ∉ value

/-- A section between its markers, the lines of which are none of its end. Its titles are not
empty, as the lengths of both markers are tested (`begin()` is not skipped), and its title
has no `=`, as a line with one is read as a preference (`begin(a=b)` is not skipped). -/
structure Section where
  title : CString
  lines : List CString
  endTitle : CString
  title_ne : title ≠ []
  title_eq : ch '=' ∉ title
  title_line : ch '\n' ∉ title
  lines_line : ∀ line ∈ lines, ch '\n' ∉ line
  lines_end : ∀ line ∈ lines, ¬ lit "end(" <+: line
  endTitle_ne : endTitle ≠ []
  endTitle_line : ch '\n' ∉ endTitle

inductive Item where
  | preference (p : Preference)
  | inSection (s : Section)

def Preference.text (p : Preference) : CString := p.name ++ lit " = " ++ p.value ++ [ch '\n']

def Section.begin (s : Section) : CString := lit "begin(" ++ s.title ++ lit ")"

def Section.end (s : Section) : CString := lit "end(" ++ s.endTitle ++ lit ")"

def Section.text (s : Section) : CString :=
  s.begin ++ [ch '\n'] ++ s.lines.flatMap (· ++ [ch '\n']) ++ s.end ++ [ch '\n']

def Item.text : Item → CString
  | .preference p => p.text
  | .inSection s => s.text

def text (items : List Item) : CString := items.flatMap Item.text

/-- The lines outside all sections. -/
def outside (items : List Item) : List Preference :=
  items.filterMap fun
    | .preference p => some p
    | .inSection _ => none

/-! One line at a time. -/

theorem drop_line (line : CString) (c : UInt8) (rest : CString) :
    (line ++ c :: rest).drop (line.length + 1) = rest := by
  rw [List.drop_append, List.drop_eq_nil_of_le (Nat.le_succ _), Nat.add_sub_cancel_left]
  rfl

section line

variable {line : CString} (hLine : ch '\n' ∉ line) (rest : CString)

include hLine in
theorem skipSection_line :
    skipSection (line ++ ch '\n' :: rest) =
      if 5 < line.length ∧ lit "end(" <+: line then some rest else skipSection rest := by
  rw [skipSection]
  split
  · rename_i hNone
    exact absurd (hNone.symm.trans (strchr_append_cons hLine rest)) (by simp)
  · rename_i seek hSeek
    obtain rfl := Option.some.inj ((strchr_append_cons hLine rest).symm.trans hSeek)
    have hEnd : (5 < line.length ∧ strncmp 4 (line ++ ch '\n' :: rest) (lit "end(") = 0) ↔
        5 < line.length ∧ lit "end(" <+: line := by
      rw [strncmp_eq_zero_iff]
      refine and_congr_right fun hLong => ?_
      rw [List.take_append_of_le_length (by omega), List.prefix_iff_eq_take]
      exact eq_comm
    rw [drop_line]
    exact if_congr hEnd rfl rfl

include hLine in
/-- A line without an equals sign is a marker or nothing. -/
theorem rcLoop_marker (hEq : ch '=' ∉ line) (name : CString) :
    rcLoop name (line ++ ch '\n' :: rest) =
      if 7 < line.length ∧ lit "begin(" <+: line then (skipSection rest).bind (rcLoop name)
      else rcLoop name rest := by
  rw [rcLoop]
  split
  · rename_i hNone
    exact absurd (hNone.symm.trans (strchr_append_cons hLine rest)) (by simp)
  · rename_i seek hSeek
    obtain rfl := Option.some.inj ((strchr_append_cons hLine rest).symm.trans hSeek)
    have hNoEq : strchr ((line ++ ch '\n' :: rest).take line.length) (ch '=') = none := by
      rw [List.take_left]
      exact List.idxOf?_eq_none_iff.mpr hEq
    have hBegin : (7 < line.length ∧ strncmp 6 (line ++ ch '\n' :: rest) (lit "begin(") = 0) ↔
        7 < line.length ∧ lit "begin(" <+: line := by
      rw [strncmp_eq_zero_iff]
      refine and_congr_right fun hLong => ?_
      rw [List.take_append_of_le_length (by omega), List.prefix_iff_eq_take]
      exact eq_comm
    rw [drop_line]
    split
    · rename_i hSome
      exact absurd (hNoEq.symm.trans hSome) (by simp)
    · rw [if_congr hBegin rfl rfl]
      split
      · split
        · rename_i hSkip
          rw [hSkip]
          rfl
        · rename_i hSkip
          rw [hSkip]
          rfl
      · rfl

end line

/-- A line gives its value when its name is the start of the asked one. -/
theorem rcLoop_preference (p : Preference) (rest name : CString) :
    rcLoop name (p.text ++ rest) =
      if p.name.isPrefixOf name then some p.value else rcLoop name rest := by
  have hLine : ch '\n' ∉ p.name ++ lit " = " ++ p.value := by
    have hBetween : ch '\n' ∉ lit " = " := by decide
    simp [p.name_line, hBetween, p.value_line]
  have hText : p.text ++ rest = (p.name ++ lit " = " ++ p.value) ++ ch '\n' :: rest := by
    simp [Preference.text]
  have hLength : (p.name ++ lit " = " ++ p.value).length = p.name.length + 3 + p.value.length := by
    simp only [List.length_append]
    rfl
  have hSplit : p.name ++ lit " = " ++ p.value = (p.name ++ lit " ") ++ ch '=' :: (lit " " ++ p.value) := by
    simp [lit]
  have hEq : strchr (p.name ++ lit " = " ++ p.value) (ch '=') = some (p.name.length + 1) := by
    have hBefore : ch '=' ∉ p.name ++ lit " " := by
      have hBlank : ch '=' ∉ lit " " := by decide
      simp [p.name_eq, hBlank]
    rw [hSplit, strchr_append_cons hBefore]
    simp [lit]
  have hPrefix : strncmp p.name.length (p.text ++ rest) name = 0 ↔ p.name.isPrefixOf name = true := by
    rw [strncmp_eq_zero_iff, List.isPrefixOf_iff_prefix, List.prefix_iff_eq_take, Preference.text,
      List.append_assoc, List.append_assoc, List.append_assoc, List.take_left]
  have hValue : ((p.text ++ rest).drop (p.name.length + 1 + 2)).take p.value.length = p.value := by
    have hFront : p.text ++ rest = (p.name ++ lit " = ") ++ (p.value ++ ch '\n' :: rest) := by
      simp [Preference.text]
    have hStart : p.name.length + 1 + 2 = (p.name ++ lit " = ").length := by simp [lit]
    rw [hFront, hStart, List.drop_left, List.take_left]
  rw [rcLoop, hText]
  split
  · rename_i hNone
    exact absurd (hNone.symm.trans (strchr_append_cons hLine rest)) (by simp)
  · rename_i seek hSeek
    obtain rfl := Option.some.inj ((strchr_append_cons hLine rest).symm.trans hSeek)
    rw [List.take_left]
    split
    · rename_i eq hFound
      obtain rfl := Option.some.inj (hEq.symm.trans hFound)
      have hLong : (p.name ++ lit " = " ++ p.value).length > p.name.length + 1 + 1 := by
        rw [hLength]
        omega
      have hBehind : (p.name ++ lit " = " ++ p.value).length - (p.name.length + 1 + 2) =
          p.value.length := by
        rw [hLength]
        omega
      rw [drop_line, ← hText, if_neg (Nat.succ_ne_zero _), Nat.add_sub_cancel,
        if_congr hPrefix rfl rfl, if_pos hLong, hBehind, hValue]
    · rename_i hNone
      exact absurd (hEq.symm.trans hNone) (by simp)

/-- The lines of a section are read over, up to its end. -/
theorem skipSection_lines {lines : List CString} (hLines : ∀ line ∈ lines, ch '\n' ∉ line)
    (hEnds : ∀ line ∈ lines, ¬ lit "end(" <+: line) (rest : CString) :
    skipSection (lines.flatMap (· ++ [ch '\n']) ++ rest) = skipSection rest := by
  induction lines with
  | nil => rfl
  | cons line lines ih =>
      have hText : (line :: lines).flatMap (· ++ [ch '\n']) ++ rest =
          line ++ ch '\n' :: (lines.flatMap (· ++ [ch '\n']) ++ rest) := by
        simp
      have hNot : ¬ (5 < line.length ∧ lit "end(" <+: line) := fun h =>
        hEnds line List.mem_cons_self h.2
      rw [hText, skipSection_line (hLines line List.mem_cons_self), if_neg hNot,
        ih (fun l hl => hLines l (List.mem_cons_of_mem line hl))
          (fun l hl => hEnds l (List.mem_cons_of_mem line hl))]

/-- A section is read over. -/
theorem rcLoop_section (s : Section) (rest name : CString) :
    rcLoop name (s.text ++ rest) = rcLoop name rest := by
  have hText : s.text ++ rest = s.begin ++ ch '\n' :: (s.lines.flatMap (· ++ [ch '\n']) ++
      (s.end ++ ch '\n' :: rest)) := by
    simp [Section.text]
  have hBeginLine : ch '\n' ∉ s.begin := by
    have hBefore : ch '\n' ∉ lit "begin(" := by decide
    have hAfter : ch '\n' ∉ lit ")" := by decide
    simp [Section.begin, hBefore, s.title_line, hAfter]
  have hBeginEq : ch '=' ∉ s.begin := by
    have hBefore : ch '=' ∉ lit "begin(" := by decide
    have hAfter : ch '=' ∉ lit ")" := by decide
    simp [Section.begin, hBefore, s.title_eq, hAfter]
  have hEndLine : ch '\n' ∉ s.end := by
    have hBefore : ch '\n' ∉ lit "end(" := by decide
    have hAfter : ch '\n' ∉ lit ")" := by decide
    simp [Section.end, hBefore, s.endTitle_line, hAfter]
  have hTitle : 0 < s.title.length := List.length_pos_iff.mpr s.title_ne
  have hEndTitle : 0 < s.endTitle.length := List.length_pos_iff.mpr s.endTitle_ne
  have hBegin : 7 < s.begin.length ∧ lit "begin(" <+: s.begin := by
    refine ⟨?_, ?_⟩
    · simp [Section.begin, lit]
      omega
    · rw [Section.begin, List.append_assoc]
      exact List.prefix_append _ _
  have hEnd : 5 < s.end.length ∧ lit "end(" <+: s.end := by
    refine ⟨?_, ?_⟩
    · simp [Section.end, lit]
      omega
    · rw [Section.end, List.append_assoc]
      exact List.prefix_append _ _
  rw [hText, rcLoop_marker hBeginLine _ hBeginEq, if_pos hBegin,
    skipSection_lines s.lines_line s.lines_end, skipSection_line hEndLine, if_pos hEnd,
    Option.bind_some]

/-- The value of the first outside line whose name is a start of the asked name. -/
theorem rcPreference_text (items : List Item) (name : CString) :
    rcPreference (some (text items)) name =
      ((outside items).find? fun p => p.name.isPrefixOf name).map Preference.value := by
  rw [rcPreference, Option.bind_some]
  induction items with
  | nil =>
      rw [text, List.flatMap_nil, rcLoop]
      rfl
  | cons item items ih =>
      rw [text, List.flatMap_cons]
      change rcLoop name (item.text ++ text items) = _
      cases item with
      | preference p =>
          rw [Item.text, rcLoop_preference, ih]
          change _ = ((p :: outside items).find? fun p => p.name.isPrefixOf name).map Preference.value
          rw [List.find?_cons]
          split
          · rename_i hPrefix
            rw [hPrefix]
            rfl
          · rename_i hOther
            rw [Bool.eq_false_iff.mpr hOther]
      | inSection s =>
          rw [Item.text, rcLoop_section, ih]
          rfl

/-- The line that is asked for: the first outside all sections with exactly this name. -/
def named (items : List Item) (name : CString) : Option Preference :=
  (outside items).find? fun p => p.name = name

/-- The line that is found. -/
def firstStart (items : List Item) (name : CString) : Option Preference :=
  (outside items).find? fun p => p.name.isPrefixOf name

/-- Where a line has the name, some line has a start of it. -/
theorem firstStart_of_named {items : List Item} {name : CString} {q : Preference}
    (h : named items name = some q) : ∃ p, firstStart items name = some p := by
  have hName := List.find?_some h
  rw [decide_eq_true_eq] at hName
  rw [firstStart, ← Option.isSome_iff_exists, List.find?_isSome]
  refine ⟨q, List.mem_of_find?_eq_some h, ?_⟩
  rw [hName]
  exact List.isPrefixOf_iff_prefix.mpr (List.prefix_refl name)

/-- The lookup is exact if and only if the first line whose name is a start of the asked one has
the value of the first with the name itself. -/
theorem rcPreference_exact_iff (items : List Item) (name : CString) :
    rcPreference (some (text items)) name = (named items name).map Preference.value ↔
      ∀ p, firstStart items name = some p →
        ∃ q, named items name = some q ∧ q.value = p.value := by
  rw [rcPreference_text]
  change (firstStart items name).map Preference.value = _ ↔ _
  constructor
  · intro h p hp
    rw [hp, Option.map_some] at h
    exact Option.map_eq_some_iff.mp h.symm
  · intro h
    cases hFirst : firstStart items name with
    | none =>
        cases hNamed : named items name with
        | none => rfl
        | some q =>
            obtain ⟨p, hp⟩ := firstStart_of_named hNamed
            exact absurd (hFirst.symm.trans hp) (by simp)
    | some p =>
        obtain ⟨q, hq, hValue⟩ := h p hFirst
        rw [hq, Option.map_some, Option.map_some, hValue]

def maxHosts : Preference where
  name := lit "max"
  value := lit "5"
  name_ne := by decide
  name_eq := by decide
  name_line := by decide
  value_line := by decide

/-- Asked for "max_hosts", a text with the only line "max = 5" gives 5. -/
theorem rcPreference_max :
    named [.preference maxHosts] (lit "max_hosts") = none ∧
      rcPreference (some (text [.preference maxHosts])) (lit "max_hosts") = some (lit "5") := by
  rw [rcPreference_text]
  decide

end Rc
