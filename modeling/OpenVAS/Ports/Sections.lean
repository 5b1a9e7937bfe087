import OpenVAS.Ports.Points

/-! The section of a port list that `getpts` reads: from the first `T:` on, or from the start of a
list without one, up to the next `U:` or to the end. -/
namespace Ports

open CString

/-! Where a type specifier stands. -/

theorem strstr_pair {c d : UInt8} {front : CString} (h : c ∉ front) (back : CString) :
    strstr (front ++ c :: d :: back) [c, d] = some front.length := by
  induction front with
  | nil => simp [strstr, List.isPrefixOf]
  | cons x front ih =>
      obtain ⟨hx, hFront⟩ : c ≠ x ∧ c ∉ front := by simpa using h
      rw [List.cons_append, strstr, ih hFront]
      simp [List.isPrefixOf, hx]

theorem strstr_pair_none {c d : UInt8} {s : CString} (h : c ∉ s) : strstr s [c, d] = none := by
  induction s with
  | nil => simp [strstr]
  | cons x s ih =>
      obtain ⟨hx, hRest⟩ : c ≠ x ∧ c ∉ s := by simpa using h
      rw [strstr, ih hRest]
      simp [List.isPrefixOf, hx]

/-! The section that `getpts` reads. -/

/-- The text in front of a section of TCP ports. -/
def SectionHead (head rest : CString) : Prop :=
  (head = [] ∧ ch 'T' ∉ rest) ∨ ∃ front, head = front ++ [ch 'T', ch ':'] ∧ ch 'T' ∉ front

/-- The text behind a section of TCP ports. -/
def SectionTail (text tail : CString) : Prop :=
  tail = [] ∨ (∃ back, tail = ch ',' :: ch 'U' :: ch ':' :: back) ∨
    ∃ back, tail = ch 'U' :: ch ':' :: back ∧ text ≠ [] ∧ text.getLast? ≠ some (ch ',')

/-- The text behind the specifier at the start of the section. -/
theorem drop_specifier {head rest : CString} (hHead : SectionHead head rest) :
    (strstr (head ++ rest) (lit "T:")).elim (head ++ rest) (fun i => (head ++ rest).drop (i + 2)) =
      rest := by
  rcases hHead with ⟨rfl, hNone⟩ | ⟨front, rfl, hFront⟩
  · rw [List.nil_append, show lit "T:" = [ch 'T', ch ':'] from rfl, strstr_pair_none hNone]
    rfl
  · rw [List.append_assoc, List.cons_append, List.cons_append, List.nil_append,
      show lit "T:" = [ch 'T', ch ':'] from rfl, strstr_pair hFront, Option.elim_some,
      ← List.drop_drop, List.drop_left]
    rfl

/-- Nothing is read of a section that starts with `U:`. -/
theorem tcpExpr_udp {head back expr : CString} (hHead : SectionHead head (ch 'U' :: ch ':' :: back))
    (hExpr : tcpExpr (head ++ ch 'U' :: ch ':' :: back) = .ok expr) : expr = [] := by
  have hFound : strstr (ch 'U' :: ch ':' :: back) (lit "U:") = some 0 := strstr_pair List.not_mem_nil back
  rw [tcpExpr] at hExpr
  simp only [drop_specifier hHead, hFound] at hExpr
  split at hExpr
  · cases hExpr
  · exact (Except.ok.inj hExpr).symm

theorem tcpExpr_section {head text tail : CString} (hHead : SectionHead head (text ++ tail))
    (hText : ch 'U' ∉ text) (hTail : SectionTail text tail) :
    tcpExpr (head ++ (text ++ tail)) = .ok text := by
  rw [tcpExpr]
  simp only [drop_specifier hHead]
  rcases hTail with rfl | ⟨back, rfl⟩ | ⟨back, rfl, hNe, hLast⟩
  · rw [List.append_nil, show lit "U:" = [ch 'U', ch ':'] from rfl, strstr_pair_none hText]
  · have hFound : strstr (text ++ ch ',' :: ch 'U' :: ch ':' :: back) (lit "U:") =
        some (text.length + 1) := by
      have hClean : ch 'U' ∉ text ++ [ch ','] := by
        simp [hText, show ch 'U' ≠ ch ',' by decide]
      rw [show lit "U:" = [ch 'U', ch ':'] from rfl]
      simpa using strstr_pair (d := ch ':') hClean back
    rw [hFound]
    simp
  · obtain ⟨init, last, rfl⟩ := (List.eq_nil_or_concat' text).resolve_left hNe
    have hNotComma : last ≠ ch ',' := by simpa using hLast
    have hFound : strstr (init ++ [last] ++ ch 'U' :: ch ':' :: back) (lit "U:") =
        some (init.length + 1) := by
      rw [show lit "U:" = [ch 'U', ch ':'] from rfl, strstr_pair hText]
      simp
    have hTake : (init ++ [last] ++ ch 'U' :: ch ':' :: back).take (init.length + 1) = init ++ [last] :=
      List.take_left' (by simp)
    rw [hFound]
    simp only [hTake]
    simp [hNotComma]

/-- A port list, cut around the section that `getpts` reads. The section starts at the first
`T:`, or at the start of a list without one, and ends in front of a `U:`, less a comma with
spaces, or with the list. -/
structure SectionCut (portRange : CString) where
  front : CString
  tag : CString
  text : CString
  gap : CString
  back : CString
  whole : portRange = front ++ (tag ++ text ++ (gap ++ back))
  start : (tag = [ch 'T', ch ':'] ∧ ch 'T' ∉ front) ∨ (tag = [] ∧ front = [] ∧ ch 'T' ∉ portRange)
  stop : (gap = [] ∧ back = []) ∨ (∃ rest, back = ch 'U' :: ch ':' :: rest) ∧
    (gap = [] ∨ ∃ blanks, gap = ch ',' :: blanks ∧ ∀ c ∈ blanks, c = ch ' ')
  noUdp : ch 'U' ∉ text

/-- Of a text that is accepted both parts are, and they are read one after the other. -/
structure Cut (whole s t : CString) : Prop where
  front : ∀ p ∈ points s, Accepted p
  back : ∀ p ∈ points t, Accepted p
  parsed : addPortRanges true (points whole) = (do
    let ranges ← addPortRanges true (points s)
    let ranges' ← addPortRanges true (points t)
    some (ranges ++ ranges'))

/-- Nothing in front. -/
theorem Cut.nil_left {s : CString} (hAccepted : ∀ p ∈ points s, Accepted p) : Cut s [] s where
  front := List.forall_mem_singleton.mpr (by rw [Accepted]; decide)
  back := hAccepted
  parsed := by
    have hNone : addPortRanges true (points []) = some [] := by decide
    rw [hNone]
    simp

/-- Nothing behind. -/
theorem Cut.nil_right {s : CString} (hAccepted : ∀ p ∈ points s, Accepted p) : Cut s s [] where
  front := hAccepted
  back := List.forall_mem_singleton.mpr (by rw [Accepted]; decide)
  parsed := by
    have hNone : addPortRanges true (points []) = some [] := by decide
    rw [hNone]
    simp

/-- A comma with spaces at the end of the front part adds nothing. -/
theorem Cut.dropGap {whole front back blanks : CString} (h : Cut whole (front ++ ch ',' :: blanks) back)
    (hBlank : ∀ c ∈ blanks, c = ch ' ') : Cut whole front back := by
  have hSpace : ∀ tcp, addPortRanges tcp (points blanks) = some [] :=
    @addPortRanges_space [] blanks (.inl rfl) fun c hc => by rw [hBlank c hc]; decide
  have hPoints : points (front ++ ch ',' :: blanks) = points front ++ points blanks :=
    points_append_sep (.inl rfl) front blanks
  refine ⟨fun p hp => h.front p (by rw [hPoints]; exact List.mem_append_left _ hp), h.back, ?_⟩
  rw [h.parsed, hPoints, addPortRanges_append, hSpace]
  cases addPortRanges true (points front) <;> simp

theorem exists_points_cons {c : UInt8} (hComma : c ≠ ch ',') (hNewline : c ≠ ch '\n') (t : CString) :
    ∃ first rest, points t = first :: rest ∧ points (c :: t) = (c :: first) :: rest := by
  obtain ⟨first, rest, hPoints⟩ := List.exists_cons_of_ne_nil (points_ne_nil t)
  have hKept : newlineToComma c = c := if_neg hNewline
  have hClean : ch ',' ∉ [c] := by simpa using hComma.symm
  have hSplit := Split.splitOn_append hClean (t.map newlineToComma)
  rw [← points, hPoints, List.modifyHead_cons] at hSplit
  refine ⟨first, rest, hPoints, ?_⟩
  rw [points, List.map_cons, hKept]
  exact hSplit

/-- The letter of a type specifier stands behind white space and in front of a colon. -/
theorem Accepted.around_letter {letter : UInt8} (hLetter : letter = ch 'T' ∨ letter = ch 'U')
    {before after : CString} (h : Accepted (before ++ letter :: after)) :
    (∀ c ∈ before, gAsciiIsspace c = true) ∧ ∃ rest, after = ch ':' :: rest := by
  obtain ⟨lead, trail, hText, hLead, hTrail⟩ := gStrstrip_spec (before ++ letter :: after)
  rw [h.stripped hLetter (by simp)] at hText
  have hLead' : letter ∉ lead := by
    rcases hLetter with rfl | rfl <;> exact fun hc => absurd (hLead _ hc) (by decide)
  have hTrail' : letter ∉ trail := by
    rcases hLetter with rfl | rfl <;> exact fun hc => absurd (hTrail _ hc) (by decide)
  have hBody : letter ∉ portBody (before ++ letter :: after) := by
    rcases hLetter with rfl | rfl <;> exact fun hc => absurd (h.mem_portBody hc) (by decide)
  have hColon : letter ≠ ch ':' := by rcases hLetter with rfl | rfl <;> decide
  have hText' : lead ++ letter :: (ch ':' :: (portBody (before ++ letter :: after) ++ trail)) =
      before ++ letter :: after := by simpa using hText.symm
  obtain ⟨hSame, -, hAfter⟩ := (List.append_cons_inj_of_notMem hLead'
    (by simp [hColon, hBody, hTrail'])).mp hText'
  exact ⟨hSame ▸ hLead, _, hAfter.symm⟩

/-- So it is in an accepted list. -/
theorem exists_colon {letter : UInt8} (hLetter : letter = ch 'T' ∨ letter = ch 'U') {s t : CString}
    (hAccepted : ∀ p ∈ points (s ++ letter :: t), Accepted p) : ∃ rest, t = ch ':' :: rest := by
  have hKept : letter ≠ ch ',' ∧ letter ≠ ch '\n' := by rcases hLetter with rfl | rfl <;> decide
  obtain ⟨init, last, first, rest, -, hBack, hBoth⟩ := exists_points_append s (letter :: t)
  obtain ⟨first', rest', hPoints, hCons⟩ := exists_points_cons hKept.1 hKept.2 t
  obtain ⟨rfl, rfl⟩ := List.cons.inj (hBack.symm.trans hCons)
  have hJoined : Accepted (last ++ letter :: first') := hAccepted _ (by rw [hBoth]; simp)
  obtain ⟨-, after, rfl⟩ := hJoined.around_letter hLetter
  match t with
  | [] => cases hPoints
  | c :: t =>
      by_cases hSep : c = ch ',' ∨ c = ch '\n'
      · rw [← List.nil_append (c :: t), points_append_sep hSep] at hPoints
        cases hPoints
      · obtain ⟨hComma, hNewline⟩ := not_or.mp hSep
        obtain ⟨first, rest, -, hFirst⟩ := exists_points_cons hComma hNewline t
        rw [hFirst] at hPoints
        obtain ⟨rfl, -⟩ := List.cons.inj (List.cons.inj hPoints).1
        exact ⟨t, rfl⟩

/-- A type specifier starts an element, and what comes before it is read by itself. -/
theorem cut_specifier {letter : UInt8} (hLetter : letter = ch 'T' ∨ letter = ch 'U')
    {s t : CString} (hNot : letter ∉ s) (hAccepted : ∀ p ∈ points (s ++ letter :: ch ':' :: t), Accepted p) :
    Cut (s ++ letter :: ch ':' :: t) s (letter :: ch ':' :: t) := by
  obtain ⟨init, last, first, rest, hFront, hBack, hBoth⟩ := exists_points_append s (letter :: ch ':' :: t)
  obtain ⟨first', rfl⟩ : ∃ first', first = letter :: ch ':' :: first' := by
    have hKept : letter ≠ ch ',' ∧ letter ≠ ch '\n' := by rcases hLetter with rfl | rfl <;> decide
    obtain ⟨first', rest', hRest, hColon⟩ := exists_points_cons (show ch ':' ≠ ch ',' by decide) (by decide) t
    obtain ⟨_, _, hPoints, hCons⟩ := exists_points_cons hKept.1 hKept.2 (ch ':' :: t)
    obtain ⟨rfl, rfl⟩ := List.cons.inj (hPoints.symm.trans hColon)
    exact ⟨first', (List.cons.inj (hBack.symm.trans hCons)).1⟩
  rw [hBoth] at hAccepted
  have hJoined : Accepted (last ++ letter :: ch ':' :: first') := hAccepted _ (by simp)
  have hLast : ∀ c ∈ last, gAsciiIsspace c = true := (hJoined.around_letter hLetter).1
  have hStrip : gStrstrip (last ++ letter :: ch ':' :: first') = gStrstrip (letter :: ch ':' :: first') := by
    simpa using gStrstrip_pad hLast (List.forall_mem_nil _) (letter :: ch ':' :: first')
  have hLastStrip : gStrstrip last = [] := (gStrstrip_eq_nil_iff last).mpr hLast
  have hTag : hasTag 'T' (letter :: ch ':' :: first') = true ∨ hasTag 'U' (letter :: ch ':' :: first') = true := by
    rw [hasTag, hasTag, ← hStrip, hJoined.stripped hLetter (by simp)]
    rcases hLetter with rfl | rfl
    · exact .inl (by simp)
    · exact .inr (by simp)
  have hAcceptedLast : Accepted last := by
    rw [Accepted, hLastStrip]
    decide
  refine ⟨fun p hp => ?_, fun p hp => ?_, ?_⟩
  · rw [hFront] at hp
    rcases List.mem_append.mp hp with hInit | hOne
    · exact hAccepted p (List.mem_append_left _ hInit)
    · exact List.mem_singleton.mp hOne ▸ hAcceptedLast
  · rw [hBack] at hp
    rcases List.mem_cons.mp hp with rfl | hRest
    · rw [Accepted, ← hStrip]
      exact hJoined
    · exact hAccepted p (by simp [hRest])
  · have hFirst : ∀ tcp, addPortRanges tcp ((last ++ letter :: ch ':' :: first') :: rest) =
        addPortRanges true ((letter :: ch ':' :: first') :: rest) := by
      intro tcp
      rw [← addPortRanges_tagged hTag tcp true rest]
      simp only [addPortRanges, hStrip]
    have hBlank : addPortRanges (finalProtocol true init) [last] = some [] :=
      addPortRanges_blank (List.forall_mem_singleton.mpr (by rw [portBody, hLastStrip]; rfl)) _
    rw [hBoth, hFront, hBack, addPortRanges_append, addPortRanges_append, hFirst, hBlank]
    cases addPortRanges true init <;> simp

/-! The section and what is around it. -/

section Section

variable {portRange : CString}

/-- What stands in front of the section is read first. -/
theorem SectionCut.cut_front (s : SectionCut portRange)
    (hAccepted : ∀ p ∈ points portRange, Accepted p) :
    Cut portRange s.front (s.tag ++ s.text ++ (s.gap ++ s.back)) := by
  rcases s.start with ⟨hTag, hNot⟩ | ⟨hTag, hFront, _⟩
  · have hWhole : portRange = s.front ++ ch 'T' :: ch ':' :: (s.text ++ (s.gap ++ s.back)) := by
      conv_lhs => rw [s.whole, hTag]
      simp
    have hSection : s.tag ++ s.text ++ (s.gap ++ s.back) =
        ch 'T' :: ch ':' :: (s.text ++ (s.gap ++ s.back)) := by simp [hTag]
    have hCut := cut_specifier (.inl rfl) hNot (hWhole ▸ hAccepted)
    rwa [← hWhole, ← hSection] at hCut
  · have hWhole : s.tag ++ s.text ++ (s.gap ++ s.back) = portRange := by
      conv_rhs => rw [s.whole, hFront]
      rfl
    rw [hFront, hWhole]
    exact .nil_left hAccepted

/-- What stands behind the section is read last. -/
theorem SectionCut.cut_back (s : SectionCut portRange)
    (hAccepted : ∀ p ∈ points (s.tag ++ s.text ++ (s.gap ++ s.back)), Accepted p) :
    Cut (s.tag ++ s.text ++ (s.gap ++ s.back)) (s.tag ++ s.text) s.back := by
  rcases s.stop with ⟨hGap, hBack⟩ | ⟨⟨rest, hBack⟩, hGap⟩
  · rw [hGap, hBack, List.append_nil, List.append_nil] at hAccepted ⊢
    exact .nil_right hAccepted
  · have hTag : ch 'U' ∉ s.tag := by
      rcases s.start with ⟨hTag, _⟩ | ⟨hTag, _⟩ <;> rw [hTag] <;> decide
    rw [hBack, ← List.append_assoc] at hAccepted ⊢
    rcases hGap with hNil | ⟨blanks, hComma, hBlank⟩
    · rw [hNil, List.append_nil] at hAccepted ⊢
      exact cut_specifier (.inr rfl) (by simp [hTag, s.noUdp]) hAccepted
    · have hNotBlank : ch 'U' ∉ blanks := fun hc => absurd (hBlank _ hc) (by decide)
      rw [hComma] at hAccepted ⊢
      refine (cut_specifier (.inr rfl) ?_ hAccepted).dropGap hBlank
      simp [hTag, s.noUdp, hNotBlank, show ch 'U' ≠ ch ',' by decide]

/-- The TCP ports of a list are those of the section and those around it. -/
theorem SectionCut.portRangeRanges_eq (s : SectionCut portRange)
    (hAccepted : ∀ p ∈ points portRange, Accepted p) {ranges : List PortRange}
    (hRanges : addPortRanges true (points (s.tag ++ s.text)) = some ranges) :
    ∃ rangesFront rangesBack all, portRangeRanges s.front = some rangesFront ∧
      portRangeRanges s.back = some rangesBack ∧ portRangeRanges portRange = some all ∧
      ∀ port, InRanges .tcp all port ↔ (InRanges .tcp rangesFront port ∨
        InRanges .tcp rangesBack port) ∨ InRanges .tcp ranges port := by
  have hFront := s.cut_front hAccepted
  have hBack := s.cut_back hFront.back
  obtain ⟨rangesFront, hRangesFront, -⟩ := addPortRanges_accepted hFront.front true
  obtain ⟨rangesBack, hRangesBack, -⟩ := addPortRanges_accepted hBack.back true
  refine ⟨rangesFront, rangesBack, rangesFront ++ (ranges ++ rangesBack), ?_, ?_, ?_, fun port => ?_⟩
  · rw [Ports.portRangeRanges_eq, hRangesFront]
  · rw [Ports.portRangeRanges_eq, hRangesBack]
  · rw [Ports.portRangeRanges_eq, hFront.parsed, hBack.parsed, hRangesFront, hRanges, hRangesBack]
    rfl
  · have hSplit : InRanges .tcp (rangesFront ++ (ranges ++ rangesBack)) port ↔
        InRanges .tcp rangesFront port ∨ InRanges .tcp ranges port ∨ InRanges .tcp rangesBack port := by
      simp only [InRanges, List.mem_append, or_and_right, exists_or]
    rw [hSplit]
    tauto

theorem sectionHead_despace {front tag rest : CString}
    (hStart : (tag = [ch 'T', ch ':'] ∧ ch 'T' ∉ front) ∨
      (tag = [] ∧ front = [] ∧ ch 'T' ∉ front ++ (tag ++ rest))) :
    SectionHead (despace (front ++ tag)) (despace rest) := by
  rcases hStart with ⟨rfl, hNot⟩ | ⟨rfl, rfl, hNot⟩
  · exact .inr ⟨despace front, despace_append .., fun hc => hNot (mem_of_mem_despace hc)⟩
  · exact .inl ⟨rfl, fun hc => hNot (mem_of_mem_despace hc)⟩

/-- `getpts` cuts the text of the section out of the list without blanks. -/
theorem SectionCut.tcpExpr_of_tail (s : SectionCut portRange)
    (hTail : SectionTail (despace s.text) (despace (s.gap ++ s.back))) :
    tcpExpr (despace portRange) = .ok (despace s.text) := by
  have hWhole : portRange = s.front ++ (s.tag ++ (s.text ++ (s.gap ++ s.back))) := by
    conv_lhs => rw [s.whole]
    simp
  have hStart : (s.tag = [ch 'T', ch ':'] ∧ ch 'T' ∉ s.front) ∨ (s.tag = [] ∧ s.front = [] ∧
      ch 'T' ∉ s.front ++ (s.tag ++ (s.text ++ (s.gap ++ s.back)))) := by
    rw [← hWhole]
    exact s.start
  have hHead := sectionHead_despace hStart
  rw [despace_append s.text] at hHead
  have hSection := tcpExpr_section hHead (fun hc => s.noUdp (mem_of_mem_despace hc)) hTail
  rw [← despace_append, ← despace_append, List.append_assoc, ← hWhole] at hSection
  exact hSection

theorem SectionCut.tail_of_gap (s : SectionCut portRange) {blanks rest : CString}
    (hGap : s.gap = ch ',' :: blanks) (hBlank : ∀ c ∈ blanks, c = ch ' ')
    (hBack : s.back = ch 'U' :: ch ':' :: rest) :
    SectionTail (despace s.text) (despace (s.gap ++ s.back)) := by
  have hNone : despace blanks = [] := List.filter_eq_nil_iff.mpr fun c hc => by simp [hBlank c hc]
  refine .inr (.inl ⟨despace rest, ?_⟩)
  rw [despace_append, hGap, hBack]
  change ch ',' :: despace blanks ++ _ = _
  rw [hNone]
  rfl

theorem SectionCut.tail_of_text (s : SectionCut portRange) {rest : CString} (hGap : s.gap = [])
    (hBack : s.back = ch 'U' :: ch ':' :: rest) (hText : despace s.text ≠ [])
    (hLast : (despace s.text).getLast? ≠ some (ch ',')) :
    SectionTail (despace s.text) (despace (s.gap ++ s.back)) :=
  .inr (.inr ⟨despace rest, by rw [hGap, hBack]; rfl, hText, hLast⟩)

/-- So it does when no element of the section is empty. -/
theorem SectionCut.tcpExpr_eq (s : SectionCut portRange)
    (hElements : [] ∉ (despace s.text).splitOn (ch ',')) :
    tcpExpr (despace portRange) = .ok (despace s.text) := by
  refine s.tcpExpr_of_tail ?_
  rcases s.stop with ⟨hGap, hBack⟩ | ⟨⟨rest, hBack⟩, hGap⟩
  · exact .inl (by rw [hGap, hBack]; rfl)
  · rcases hGap with hNil | ⟨blanks, hComma, hBlank⟩
    · refine s.tail_of_text hNil hBack (fun hEmpty => hElements ?_) fun hLast => hElements ?_
      · rw [hEmpty]
        exact List.mem_singleton_self _
      · obtain ⟨init, hText⟩ := List.getLast?_eq_some_iff.mp hLast
        rw [hText, List.splitOn_append_cons_self]
        simp
    · exact s.tail_of_gap hComma hBlank hBack

/-- Spaces at the end of a text. -/
theorem exists_trailing_spaces (s : CString) : ∃ core blanks, s = core ++ blanks ∧
    (∀ c ∈ blanks, c = ch ' ') ∧ (core = [] ∨ ∃ init last, core = init ++ [last] ∧ last ≠ ch ' ') := by
  induction s with
  | nil => exact ⟨[], [], rfl, List.forall_mem_nil _, .inl rfl⟩
  | cons c s ih =>
      obtain ⟨core, blanks, rfl, hBlanks, hCore⟩ := ih
      rcases hCore with rfl | ⟨init, last, rfl, hLast⟩
      · by_cases hc : c = ch ' '
        · exact ⟨[], c :: blanks, rfl, List.forall_mem_cons.mpr ⟨hc, hBlanks⟩, .inl rfl⟩
        · exact ⟨[c], blanks, rfl, hBlanks, .inr ⟨[], c, rfl, hc⟩⟩
      · exact ⟨c :: init ++ [last], blanks, rfl, hBlanks, .inr ⟨c :: init, last, rfl, hLast⟩⟩

/-- An accepted list of which `getpts` reads elements that are not empty can be cut around its
section. -/
theorem exists_sectionCut (hAccepted : ∀ p ∈ points portRange, Accepted p) {expr : CString}
    (hExpr : tcpExpr (despace portRange) = .ok expr) (hElements : [] ∉ expr.splitOn (ch ',')) :
    ∃ s : SectionCut portRange, despace s.text = expr := by
  obtain ⟨front, tag, rest, rfl, hStart⟩ : ∃ front tag rest, portRange = front ++ (tag ++ rest) ∧
      ((tag = [ch 'T', ch ':'] ∧ ch 'T' ∉ front) ∨ (tag = [] ∧ front = [] ∧ ch 'T' ∉ portRange)) := by
    by_cases hMem : ch 'T' ∈ portRange
    · obtain ⟨front, after, rfl, hFront⟩ := List.eq_append_cons_of_mem hMem
      obtain ⟨rest, rfl⟩ := exists_colon (.inl rfl) hAccepted
      exact ⟨front, _, rest, rfl, .inl ⟨rfl, hFront⟩⟩
    · exact ⟨[], [], portRange, rfl, .inr ⟨rfl, rfl, hMem⟩⟩
  -- The cut that the end of the section calls for is the one that `getpts` makes.
  have hDone : ∀ s : SectionCut (front ++ (tag ++ rest)),
      SectionTail (despace s.text) (despace (s.gap ++ s.back)) →
      ∃ s : SectionCut (front ++ (tag ++ rest)), despace s.text = expr :=
    fun s hTail => ⟨s, Except.ok.inj ((s.tcpExpr_of_tail hTail).symm.trans hExpr)⟩
  by_cases hMem : ch 'U' ∈ rest
  · obtain ⟨text, after, rfl, hText⟩ := List.eq_append_cons_of_mem hMem
    have hAround : ∀ p ∈ points (front ++ (tag ++ text) ++ ch 'U' :: after), Accepted p := by
      simpa using hAccepted
    obtain ⟨back, rfl⟩ := exists_colon (.inr rfl) hAround
    obtain ⟨core, blanks, rfl, hBlanks, hCore⟩ := exists_trailing_spaces text
    have hNone : despace blanks = [] := List.filter_eq_nil_iff.mpr fun c hc => by simp [hBlanks c hc]
    rcases hCore with rfl | ⟨init, last, rfl, hLast⟩
    · have hHead := sectionHead_despace hStart
      rw [List.nil_append, despace_append blanks, hNone, List.nil_append] at hHead
      have hUdp : despace (ch 'U' :: ch ':' :: back) = ch 'U' :: ch ':' :: despace back := rfl
      rw [List.nil_append, ← List.append_assoc, despace_append, despace_append blanks, hNone,
        List.nil_append, hUdp] at hExpr
      have hNil := tcpExpr_udp hHead hExpr
      exact absurd (by rw [hNil]; exact List.mem_singleton_self _) hElements
    · by_cases hComma : last = ch ','
      · subst hComma
        let s : SectionCut (front ++ (tag ++ (init ++ [ch ','] ++ blanks ++ ch 'U' :: ch ':' :: back))) :=
          { front, tag, text := init, gap := ch ',' :: blanks, back := ch 'U' :: ch ':' :: back
            whole := by simp
            start := hStart
            stop := .inr ⟨⟨back, rfl⟩, .inr ⟨blanks, rfl, hBlanks⟩⟩
            noUdp := fun hc => hText (by simp [hc]) }
        exact hDone s (s.tail_of_gap rfl hBlanks rfl)
      · let s : SectionCut (front ++ (tag ++ (init ++ [last] ++ blanks ++ ch 'U' :: ch ':' :: back))) :=
          { front, tag, text := init ++ [last] ++ blanks, gap := [], back := ch 'U' :: ch ':' :: back
            whole := by simp
            start := hStart
            stop := .inr ⟨⟨back, rfl⟩, .inl rfl⟩
            noUdp := hText }
        have hKept : despace s.text = despace init ++ [last] := by
          change despace (init ++ [last] ++ blanks) = _
          rw [despace_append, despace_append, hNone, List.append_nil]
          simp [despace, hLast]
        refine hDone s (s.tail_of_text rfl rfl ?_ ?_)
        · simp [hKept]
        · simp [hKept, hComma]
  · let s : SectionCut (front ++ (tag ++ rest)) :=
      { front, tag, text := rest, gap := [], back := []
        whole := by simp
        start := hStart
        stop := .inl ⟨rfl, rfl⟩
        noUdp := hMem }
    exact hDone s (.inl rfl)

end Section

end Ports
