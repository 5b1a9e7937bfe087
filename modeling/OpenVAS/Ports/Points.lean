import OpenVAS.Ports.Text
import OpenVAS.Lib.Split

/-! The elements of a port list, as the validator and `port_range_ranges` see them: cut at
commas and newlines, stripped of white space, with a type specifier or without. -/
namespace Ports

open CString

/-! Elements of a list. -/

/-- Whether an element starts with the type specifier `T:` or `U:`. -/
def hasTag (tag : Char) (point : CString) : Bool := [ch tag, ch ':'].isPrefixOf (gStrstrip point)

/-- The text of an element behind white space and type specifier. -/
def portBody (point : CString) : CString := dropTypeSpecifier (gStrstrip point)

theorem gStrstrip_dropWhile (s : CString) : gStrstrip (s.dropWhile isblank) = gStrstrip s := by
  have hDrop : (s.dropWhile isblank).dropWhile gAsciiIsspace = s.dropWhile gAsciiIsspace := by
    obtain ⟨blanks, hBlanks, hBlank⟩ := exists_blanks s
    conv_rhs => rw [hBlanks, List.dropWhile_append_of_pos fun c hc =>
      gAsciiIsspace_of_isblank (hBlank c hc)]
  rw [gStrstrip, hDrop, gStrstrip]

/-- The three kinds of elements. -/
theorem tag_cases (point : CString) :
    (hasTag 'T' point = true ∧ gStrstrip point = ch 'T' :: ch ':' :: portBody point) ∨
      (hasTag 'U' point = true ∧ hasTag 'T' point = false ∧
        gStrstrip point = ch 'U' :: ch ':' :: portBody point) ∨
      (hasTag 'T' point = false ∧ hasTag 'U' point = false ∧ gStrstrip point = portBody point) := by
  rw [hasTag, hasTag, portBody]
  generalize gStrstrip point = stripped
  match stripped with
  | [] => exact .inr (.inr ⟨rfl, rfl, rfl⟩)
  | [c] => exact .inr (.inr ⟨by simp [List.isPrefixOf], by simp [List.isPrefixOf], rfl⟩)
  | t :: c :: rest =>
      by_cases hColon : c = ch ':'
      · subst hColon
        by_cases hT : t = ch 'T'
        · subst hT
          exact .inl ⟨by simp [List.isPrefixOf], by simp [dropTypeSpecifier]⟩
        · by_cases hU : t = ch 'U'
          · subst hU
            refine .inr (.inl ⟨by simp [List.isPrefixOf], ?_, by simp [dropTypeSpecifier]⟩)
            simp [List.isPrefixOf, show ch 'T' ≠ ch 'U' by decide]
          · refine .inr (.inr ⟨?_, ?_, ?_⟩)
            · simp [List.isPrefixOf, Ne.symm hT]
            · simp [List.isPrefixOf, Ne.symm hU]
            · simp [dropTypeSpecifier, hT, hU]
      · refine .inr (.inr ⟨?_, ?_, ?_⟩)
        · simp [List.isPrefixOf, Ne.symm hColon]
        · simp [List.isPrefixOf, Ne.symm hColon]
        · simp [dropTypeSpecifier, hColon]

/-- The protocol of an element and its text. -/
theorem switchProtocol_eq (tcp : Bool) (point : CString) :
    switchProtocol tcp (gStrstrip point) =
      (if hasTag 'T' point then true else if hasTag 'U' point then false else tcp, portBody point) := by
  rcases tag_cases point with ⟨hT, hText⟩ | ⟨hU, hT, hText⟩ | ⟨hT, hU, hText⟩
  · rw [hText, hT]
    simp [switchProtocol]
  · rw [hText, hT, hU]
    simp [switchProtocol, show ch 'U' ≠ ch 'T' by decide]
  · have hSame : ∀ stripped : CString, [ch 'T', ch ':'].isPrefixOf stripped = false →
        [ch 'U', ch ':'].isPrefixOf stripped = false →
        switchProtocol tcp stripped = (tcp, stripped) := by
      intro stripped hNoT hNoU
      match stripped with
      | [] => rfl
      | [c] => rfl
      | t :: c :: rest =>
          have hNotT : ¬ (t = ch 'T' ∧ c = ch ':') := by
            rintro ⟨rfl, rfl⟩
            simp [List.isPrefixOf] at hNoT
          have hNotU : ¬ (t = ch 'U' ∧ c = ch ':') := by
            rintro ⟨rfl, rfl⟩
            simp [List.isPrefixOf] at hNoU
          simp [switchProtocol, hNotT, hNotU]
    rw [hSame _ hT hU, hText, hT, hU]
    simp

/-- An element that the validator accepts. -/
def Accepted (point : CString) : Prop := validPortElement (gStrstrip point) = true

theorem Accepted.mem_portBody {point : CString} (h : Accepted point) {c : UInt8}
    (hc : c ∈ portBody point) : isspace c = true ∨ isdigit c = true ∨ c = ch '+' ∨ c = ch '-' := by
  rcases validPortElement_spec h with hBlank | ⟨n, m, hPort, _⟩
  · exact .inl (isspace_of_isblank (hBlank c hc))
  · exact hPort.mem hc

/-- The letters of the type specifiers stand nowhere else in accepted elements. -/
theorem letter_not_mem {point : CString} (h : Accepted point) :
    (hasTag 'T' point = false → ch 'T' ∉ point) ∧ (hasTag 'U' point = false → ch 'U' ∉ point) := by
  obtain ⟨lead, trail, hText, hLead, hTrail⟩ := gStrstrip_spec point
  have hBodyT : ch 'T' ∉ portBody point := fun hc => absurd (h.mem_portBody hc) (by decide)
  have hBodyU : ch 'U' ∉ portBody point := fun hc => absurd (h.mem_portBody hc) (by decide)
  have hSpaceT : ∀ {s : CString}, (∀ c ∈ s, gAsciiIsspace c = true) → ch 'T' ∉ s :=
    fun hs hc => absurd (hs _ hc) (by decide)
  have hSpaceU : ∀ {s : CString}, (∀ c ∈ s, gAsciiIsspace c = true) → ch 'U' ∉ s :=
    fun hs hc => absurd (hs _ hc) (by decide)
  refine ⟨fun hTag => ?_, fun hTag => ?_⟩
  · rw [hText]
    simp only [List.mem_append, not_or]
    refine ⟨⟨hSpaceT hLead, ?_⟩, hSpaceT hTrail⟩
    rcases tag_cases point with ⟨hT, _⟩ | ⟨_, _, hStripped⟩ | ⟨_, _, hStripped⟩
    · simp [hT] at hTag
    · rw [hStripped]
      simp [hBodyT, show ch 'T' ≠ ch 'U' by decide, show ch 'T' ≠ ch ':' by decide]
    · rwa [hStripped]
  · rw [hText]
    simp only [List.mem_append, not_or]
    refine ⟨⟨hSpaceU hLead, ?_⟩, hSpaceU hTrail⟩
    rcases tag_cases point with ⟨_, hStripped⟩ | ⟨hU, _, _⟩ | ⟨_, _, hStripped⟩
    · rw [hStripped]
      simp [hBodyU, show ch 'U' ≠ ch 'T' by decide, show ch 'U' ≠ ch ':' by decide]
    · simp [hU] at hTag
    · rwa [hStripped]

/-! Texts cut into elements. -/

/-- The elements of a text, for which newlines count as commas. -/
def points (s : CString) : List CString := (s.map newlineToComma).splitOn (ch ',')

theorem points_ne_nil (s : CString) : points s ≠ [] := List.splitOn_ne_nil _ _

theorem points_append_sep {sep : UInt8} (hSep : sep = ch ',' ∨ sep = ch '\n') (s t : CString) :
    points (s ++ sep :: t) = points s ++ points t := by
  have hComma : newlineToComma sep = ch ',' := by rcases hSep with rfl | rfl <;> decide
  rw [points, List.map_append, List.map_cons, hComma, List.splitOn_append_cons_self, points, points]

theorem points_eq_singleton {s : CString} (hComma : ch ',' ∉ s) (hNewline : ch '\n' ∉ s) :
    points s = [s] := by
  rw [points, map_newlineToComma hNewline, List.splitOn_eq_singleton hComma]

theorem points_tag_append {tag : CString} (hTag : tag = [] ∨ tag = [ch 'T', ch ':']) (s : CString) :
    points (tag ++ s) = (points s).modifyHead (tag ++ ·) := by
  have hSame : tag.map newlineToComma = tag := by rcases hTag with rfl | rfl <;> decide
  have hComma : ch ',' ∉ tag := by rcases hTag with rfl | rfl <;> decide
  rw [points, List.map_append, hSame, Split.splitOn_append hComma, points]

/-- The last element of the first text and the first one of the second are one in the text that
joins them. -/
theorem exists_points_append (s t : CString) :
    ∃ init last first rest, points s = init ++ [last] ∧ points t = first :: rest ∧
      points (s ++ t) = init ++ (last ++ first) :: rest := by
  simpa only [points, List.map_append] using
    Split.exists_splitOn_append (s.map newlineToComma) (t.map newlineToComma)

theorem mem_of_mem_points {s p : CString} (h : p ∈ points s) {c : UInt8} (hc : c ∈ p) : c ∈ s := by
  obtain ⟨d, hd, hSame⟩ := List.mem_map.mp (Split.mem_of_mem_splitOn h hc)
  rw [newlineToComma] at hSame
  split at hSame
  · exact absurd (hSame ▸ hc) (Split.not_mem_of_mem_splitOn h)
  · rwa [← hSame]

/-- The elements are those of the parts between commas. -/
theorem points_eq_flatMap (s : CString) : points s = (s.splitOn (ch ',')).flatMap points := by
  by_cases hComma : ch ',' ∈ s
  · obtain ⟨front, back, rfl, hFront⟩ := List.eq_append_cons_of_mem hComma
    rw [points_append_sep (.inl rfl), List.splitOn_append_cons_self, List.splitOn_eq_singleton hFront,
      points_eq_flatMap back]
    rfl
  · rw [List.splitOn_eq_singleton hComma, List.flatMap_singleton]
termination_by s.length

/-- The elements of a text, up to the blanks in front of it. -/
theorem points_dropWhile (s : CString) :
    points (s.dropWhile isblank) = (points s).modifyHead (List.dropWhile isblank) := by
  have hSame : isblank ∘ newlineToComma = isblank := by
    funext c
    rw [Function.comp_apply, newlineToComma]
    split
    · rename_i hNewline
      rw [hNewline]
      decide
    · rfl
  rw [points, points, ← Split.splitOn_dropWhile (show isblank (ch ',') = false by decide),
    List.dropWhile_map, hSame]

/-- The validator looks at every element. -/
theorem accepted_points {portRange : CString} (h : validatePortRange (some portRange) = true) :
    ∀ p ∈ points portRange, Accepted p := by
  obtain ⟨point, rest, hPoints⟩ :=
    List.exists_cons_of_ne_nil (List.splitOn_ne_nil (ch ',') (portRange.map newlineToComma))
  have hDrop := points_dropWhile portRange
  rw [points, points, hPoints, List.modifyHead_cons] at hDrop
  simp only [validatePortRange, Bool.and_eq_true, hDrop, List.all_cons, gStrstrip_dropWhile] at h
  obtain ⟨_, hFirst, hRest⟩ := h
  intro p hp
  rw [points, hPoints] at hp
  rcases List.mem_cons.mp hp with rfl | hLater
  · exact hFirst
  · exact List.all_eq_true.mp hRest p hLater

/-! Ranges. -/

/-- First and last port of an element that is not blank. -/
def Bounds (t : CString) (bounds : Nat × Nat) : Prop :=
  PortText t bounds.1 bounds.2 ∧ 1 ≤ bounds.1 ∧ bounds.1 ≤ bounds.2 ∧ bounds.2 ≤ 65535

/-- The ports that lie within one of the bounds. -/
def InBounds (bounds : List (Nat × Nat)) (port : Nat) : Prop :=
  ∃ b ∈ bounds, b.1 ≤ port ∧ port ≤ b.2

/-- How many ports ranges hold, counted as often as they are listed. -/
def rangeCount (ranges : List PortRange) : Int :=
  (ranges.map fun range => range.stop.toInt + 1 - range.start.toInt).sum

def boundsCount (bounds : List (Nat × Nat)) : Nat := (bounds.map fun b => b.2 + 1 - b.1).sum

/-- The protocol after some elements. -/
def finalProtocol (tcp : Bool) : List CString → Bool
  | [] => tcp
  | point :: rest => finalProtocol (switchProtocol tcp (gStrstrip point)).1 rest

theorem addPortRanges_append (tcp : Bool) (points points' : List CString) :
    addPortRanges tcp (points ++ points') = (do
      let ranges ← addPortRanges tcp points
      let ranges' ← addPortRanges (finalProtocol tcp points) points'
      some (ranges ++ ranges')) := by
  induction points generalizing tcp with
  | nil => simp [addPortRanges, finalProtocol]
  | cons point points ih =>
      simp only [List.cons_append, addPortRanges, ih, finalProtocol]
      cases readPortRange (switchProtocol tcp (gStrstrip point)).1
          (switchProtocol tcp (gStrstrip point)).2 with
      | none => rfl
      | some range =>
          cases addPortRanges (switchProtocol tcp (gStrstrip point)).1 points with
          | none => rfl
          | some ranges =>
              cases addPortRanges (finalProtocol (switchProtocol tcp (gStrstrip point)).1 points)
                points' <;> simp

/-- A type specifier makes what comes before irrelevant. -/
theorem addPortRanges_tagged {point : CString} (h : hasTag 'T' point = true ∨ hasTag 'U' point = true)
    (tcp tcp' : Bool) (rest : List CString) :
    addPortRanges tcp (point :: rest) = addPortRanges tcp' (point :: rest) := by
  have hSame : switchProtocol tcp (gStrstrip point) = switchProtocol tcp' (gStrstrip point) := by
    rw [switchProtocol_eq, switchProtocol_eq]
    rcases h with hT | hU
    · simp [hT]
    · simp [hU]
  simp only [addPortRanges, hSame]

theorem readPortRange_blank {t : CString} (h : ∀ c ∈ t, isblank c = true) (tcp : Bool) :
    readPortRange tcp t = some [] := by
  rw [readPortRange, List.dropWhile_eq_nil_iff.mpr h]
  rfl

/-- No assertion fails on accepted elements, and their ranges end where they start or
behind. -/
theorem addPortRanges_accepted {points : List CString} (h : ∀ p ∈ points, Accepted p) (tcp : Bool) :
    ∃ ranges, addPortRanges tcp points = some ranges ∧
      ∀ range ∈ ranges, range.start.toInt ≤ range.stop.toInt := by
  induction points generalizing tcp with
  | nil => exact ⟨[], rfl, List.forall_mem_nil _⟩
  | cons point points ih =>
      obtain ⟨ranges, hRanges, hOrdered⟩ := ih (fun p hp => h p (List.mem_cons_of_mem _ hp))
        (switchProtocol tcp (gStrstrip point)).1
      have hOne : ∃ ranges, readPortRange (switchProtocol tcp (gStrstrip point)).1
          (switchProtocol tcp (gStrstrip point)).2 = some ranges ∧
          ∀ range ∈ ranges, range.start.toInt ≤ range.stop.toInt := by
        rw [switchProtocol_eq]
        rcases validPortElement_spec (h point (by simp)) with hBlank | ⟨n, m, hPort, hBounds⟩
        · exact ⟨[], readPortRange_blank hBlank _, List.forall_mem_nil _⟩
        · obtain ⟨range, hRange, hStart, hStop, -⟩ := readPortRange_of_portText hPort (by omega)
            (by omega) (if hasTag 'T' point then true else if hasTag 'U' point then false else tcp)
          refine ⟨[range], hRange, List.forall_mem_singleton.mpr ?_⟩
          omega
      obtain ⟨first, hFirst, hFirstOrdered⟩ := hOne
      refine ⟨first ++ ranges, by simp [addPortRanges, hFirst, hRanges], fun range hRange => ?_⟩
      exact (List.mem_append.mp hRange).elim (hFirstOrdered range) (hOrdered range)

/-- A valid port list is read, with ranges that end where they start or behind. -/
theorem portRangeRanges_valid {portRange : CString}
    (h : validatePortRange (some portRange) = true) :
    ∃ ranges, portRangeRanges portRange = some ranges ∧
      ∀ range ∈ ranges, range.start.toInt ≤ range.stop.toInt := by
  simp only [validatePortRange, Bool.and_eq_true] at h
  exact addPortRanges_accepted (fun point hPoint => List.all_eq_true.mp h.2 point hPoint) true

theorem portRangeRanges_eq (portRange : CString) :
    portRangeRanges portRange = addPortRanges true (points portRange) := by
  obtain ⟨point, rest, hPoints⟩ :=
    List.exists_cons_of_ne_nil (List.splitOn_ne_nil (ch ',') (portRange.map newlineToComma))
  have hDrop := points_dropWhile portRange
  rw [points, points, hPoints, List.modifyHead_cons] at hDrop
  rw [portRangeRanges, hDrop, points, hPoints]
  simp only [addPortRanges, gStrstrip_dropWhile]

theorem hasTag_of_not_mem {tag : Char} {point : CString} (h : ch tag ∉ point) :
    hasTag tag point = false := by
  rw [hasTag, ← Bool.not_eq_true, List.isPrefixOf_iff_prefix]
  rintro ⟨rest, hRest⟩
  obtain ⟨lead, trail, hText, -, -⟩ := gStrstrip_spec point
  refine h ?_
  rw [hText, ← hRest]
  simp

theorem finalProtocol_untagged {ps : List CString} (h : ∀ p ∈ ps, hasTag 'U' p = false) :
    finalProtocol true ps = true := by
  induction ps with
  | nil => rfl
  | cons p ps ih =>
      have hSwitch : (switchProtocol true (gStrstrip p)).1 = true := by
        rw [switchProtocol_eq, h p (by simp)]
        simp
      rw [finalProtocol, hSwitch]
      exact ih fun q hq => h q (List.mem_cons_of_mem _ hq)

theorem addPortRanges_blank {ps : List CString} (h : ∀ p ∈ ps, portBody p = []) (tcp : Bool) :
    addPortRanges tcp ps = some [] := by
  induction ps generalizing tcp with
  | nil => rfl
  | cons p ps ih =>
      have hRest : ∀ tcp, addPortRanges tcp ps = some [] := ih fun q hq => h q (List.mem_cons_of_mem _ hq)
      rw [addPortRanges, switchProtocol_eq, h p (by simp)]
      simp only [hRest]
      rfl

/-- White space is read as nothing, in one element or in several. -/
theorem addPortRanges_space {tag space : CString} (hTag : tag = [] ∨ tag = [ch 'T', ch ':'])
    (hSpace : ∀ c ∈ space, gAsciiIsspace c = true) (tcp : Bool) :
    addPortRanges tcp (points (tag ++ space)) = some [] := by
  refine addPortRanges_blank (fun p hp => ?_) tcp
  have hBlank : ∀ q : CString, (∀ c ∈ q, c ∈ space) → portBody (tag ++ q) = [] := by
    intro q hq
    have hStrip : gStrstrip (tag ++ q) = gStrstrip tag :=
      gStrstrip_pad (List.forall_mem_nil _) (fun c hc => hSpace c (hq c hc)) tag
    rw [portBody, hStrip]
    rcases hTag with rfl | rfl <;> decide
  obtain ⟨first, rest, hPoints⟩ := List.exists_cons_of_ne_nil (points_ne_nil space)
  rw [points_tag_append hTag, hPoints, List.modifyHead_cons] at hp
  rcases List.mem_cons.mp hp with rfl | hRest
  · exact hBlank first fun c hc => mem_of_mem_points (hPoints ▸ List.mem_cons_self ..) hc
  · have hNil : gStrstrip p = [] := (gStrstrip_eq_nil_iff p).mpr fun c hc =>
      hSpace c (mem_of_mem_points (hPoints ▸ List.mem_cons_of_mem _ hRest) hc)
    rw [portBody, hNil]
    rfl

/-- A letter in an accepted element is that of its type specifier. -/
theorem Accepted.stripped {point : CString} (h : Accepted point) {letter : UInt8}
    (hLetter : letter = ch 'T' ∨ letter = ch 'U') (hMem : letter ∈ point) :
    gStrstrip point = letter :: ch ':' :: portBody point := by
  obtain ⟨hNoT, hNoU⟩ := letter_not_mem h
  rcases tag_cases point with ⟨hT, hStripped⟩ | ⟨hU, hT, hStripped⟩ | ⟨hT, hU, _⟩
  · rcases hLetter with rfl | rfl
    · exact hStripped
    · have hU : hasTag 'U' point = false := by
        rw [hasTag, hStripped]
        rfl
      exact absurd hMem (hNoU hU)
  · rcases hLetter with rfl | rfl
    · exact absurd hMem (hNoT hT)
    · exact hStripped
  · rcases hLetter with rfl | rfl
    · exact absurd hMem (hNoT hT)
    · exact absurd hMem (hNoU hU)

end Ports
