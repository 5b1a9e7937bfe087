import OpenVAS.Lib.Results
import OpenVAS.Ports.Sections

/-! When the two readers of a port list agree. `port_range_ranges` follows every type
specifier; `getpts` reads one section of the list, from the first `T:` on and up to the
next `U:`, knows only commas as separators, and has room for 65535 ports. -/
namespace Ports

open CString

/-- The entries that a range writes. -/
def portsOf (b : Nat × Nat) : List UInt16 := (List.range' b.1 (b.2 + 1 - b.1)).map UInt16.ofNat

@[simp] theorem length_portsOf (b : Nat × Nat) : (portsOf b).length = b.2 + 1 - b.1 := by
  simp [portsOf]

/-- `getpts` writes the ports of its section one range after the other, if there is room. -/
theorem writeExprs_bounds {exprs : List CString} {bounds : List (Nat × Nat)}
    (h : List.Forall₂ Bounds exprs bounds) (ports : List UInt16) (hPorts : ports.length ≤ 65536) :
    writeExprs exprs ports = if ports.length + boundsCount bounds ≤ 65536
      then .ok (some (ports ++ bounds.flatMap portsOf)) else .error .writePast := by
  induction h generalizing ports with
  | nil => simp [writeExprs, boundsCount, hPorts]
  | @cons expr b exprs bounds hOne _ ih =>
      obtain ⟨hPort, hLow, hOrder, hHigh⟩ := hOne
      have hCount : ((b.2 : Int) + 1 - (b.1 : Int)).toNat = b.2 + 1 - b.1 := by omega
      have hIn : ¬ ((b.2 : Int) < (b.1 : Int)) := by omega
      have hTotal : boundsCount (b :: bounds) = (b.2 + 1 - b.1) + boundsCount bounds := by
        simp [boundsCount]
      rw [writeExprs, readExpr_of_portText hPort hLow (by omega) hHigh, hTotal]
      simp only [hIn, if_false, writePorts, hCount, Int.toNat_natCast]
      by_cases hRoom : ports.length + (b.2 + 1 - b.1) ≤ 65536
      · have hRest := ih (ports ++ portsOf b) (by simpa using hRoom)
        rw [List.length_append, length_portsOf, Nat.add_assoc, List.append_assoc] at hRest
        rw [if_pos hRoom]
        exact hRest
      · rw [if_neg hRoom, if_neg (by omega)]
        rfl

/-- The ports of an element are in order, or there is no answer. -/
theorem writeExprs_ordered {exprs : List CString} {ports written : List UInt16}
    (h : writeExprs exprs ports = .ok (some written)) :
    ∀ expr ∈ exprs, (readExpr expr).1 ≤ (readExpr expr).2 := by
  induction exprs generalizing ports with
  | nil => exact List.forall_mem_nil _
  | cons expr exprs ih =>
      rw [writeExprs] at h
      by_cases hOrder : (readExpr expr).2 < (readExpr expr).1
      · simp [hOrder] at h
      · simp only [hOrder, if_false] at h
        obtain ⟨ports', -, hRest⟩ := Except.bind_eq_ok.mp h
        exact List.forall_mem_cons.mpr ⟨Int.not_lt.mp hOrder, ih hRest⟩

theorem readExpr_space {t : CString} (h : ∀ c ∈ t, isspace c = true) : readExpr t = (1, 0) := by
  have hNumber : atoi t = 0 := by
    have hDrop : t.dropWhile isspace = [] := List.dropWhile_eq_nil_iff.mpr h
    rw [atoi, strtol, hDrop]
    rfl
  have hDash : ch '-' ∉ t := fun hc => absurd (h _ hc) (by decide)
  have hHead : t.head? ≠ some (ch '-') := fun hHead => hDash (List.mem_of_head? hHead)
  simp [readExpr, hHead, hNumber, strchr_eq_none hDash]

theorem mem_flatMap_portsOf {bounds : List (Nat × Nat)} (h : ∀ b ∈ bounds, 1 ≤ b.1 ∧ b.2 ≤ 65535)
    (port : Nat) : (∃ p ∈ bounds.flatMap portsOf, p.toNat = port) ↔ InBounds bounds port := by
  have hOne : ∀ b ∈ bounds, ∀ n, n ≤ b.2 → (UInt16.ofNat n).toNat = n := fun b hb n hn =>
    UInt16.toNat_ofNat_of_lt' (by have := (h b hb).2; rw [UInt16.size]; omega)
  simp only [List.mem_flatMap, portsOf, List.mem_map, List.mem_range'_1, InBounds]
  constructor
  · rintro ⟨p, ⟨b, hb, n, hn, rfl⟩, rfl⟩
    refine ⟨b, hb, ?_⟩
    rw [hOne b hb n (by omega)]
    omega
  · rintro ⟨b, hb, hLow, hHigh⟩
    exact ⟨_, ⟨b, hb, port, by omega, rfl⟩, hOne b hb port hHigh⟩

theorem zero_not_mem_portsOf {bounds : List (Nat × Nat)} (h : ∀ b ∈ bounds, 1 ≤ b.1 ∧ b.2 ≤ 65535) :
    0 ∉ bounds.flatMap portsOf := by
  intro hMem
  obtain ⟨b, hb, hLow, -⟩ := (mem_flatMap_portsOf h 0).mp ⟨0, hMem, rfl⟩
  have hOne := (h b hb).1
  omega

/-- A port list of which `getpts` reads what is meant. The elements of its section hold one port
or range each, with newlines at their ends only, and no other type specifier; there is room for
their ports; and TCP ports outside of the section are also listed in it. -/
structure ReadSection (portRange : CString) extends SectionCut portRange where
  untagged : ch 'T' ∉ text
  single : ∀ element ∈ text.splitOn (ch ','), gStrstrip element ≠ [] ∧ ch '\n' ∉ gStrstrip element
  fits : ∀ ranges, portRangeRanges (tag ++ text) = some ranges → rangeCount ranges ≤ 65535
  covered : ∀ ranges ranges' ranges'', portRangeRanges front = some ranges →
    portRangeRanges back = some ranges' → portRangeRanges (tag ++ text) = some ranges'' →
    ∀ port, InRanges .tcp ranges port ∨ InRanges .tcp ranges' port → InRanges .tcp ranges'' port

/-- The section has a second specifier `T:`, or an element with a newline inside, of which
`getpts` does not read what is written. -/
def Misread (portRange : CString) : Prop :=
  ∃ s : SectionCut portRange, ch 'T' ∈ s.text ∨
    ∃ element ∈ s.text.splitOn (ch ','), ch '\n' ∈ gStrstrip element

/-! Elements without type specifier. -/

theorem isspace_of_forall_gAsciiIsspace {s : CString} (h : ∀ c ∈ s, gAsciiIsspace c = true) :
    ∀ c ∈ s, isspace c = true :=
  fun c hc => isspace_of_gAsciiIsspace (h c hc)

/-- White space around an element does not change what `getpts` reads. -/
theorem Bounds.despace {t lead trail : CString} {b : Nat × Nat} (h : Bounds t b)
    (hLead : ∀ c ∈ lead, isspace c = true) (hTrail : ∀ c ∈ trail, isspace c = true) :
    Bounds (Ports.despace (lead ++ t ++ trail)) b :=
  ⟨(h.1.pad hLead hTrail).despace, h.2⟩

/-- The ranges of a text that holds one port or range of TCP ports. -/
def ReadsOnly (text : CString) (b : Nat × Nat) : Prop :=
  b.1 ≤ b.2 ∧ ∃ range, addPortRanges true (points text) = some [range] ∧ range.type = .tcp ∧
    range.start.toInt = b.1 ∧ range.stop.toInt = b.2

/-- An element without newlines, which may have the specifier `T:`. -/
theorem exists_bounds_line {tag line : CString} (hTag : tag = [] ∨ tag = [ch 'T', ch ':'])
    (hNoTag : ch 'T' ∉ line ∧ ch 'U' ∉ line) (hSome : gStrstrip line ≠ [])
    (hAccepted : Accepted (tag ++ line)) :
    ∃ lead body trail b, line = lead ++ body ++ trail ∧ (∀ c ∈ lead, isspace c = true) ∧
      (∀ c ∈ trail, isspace c = true) ∧ Bounds body b ∧
      ∃ range, addPortRanges true [tag ++ line] = some [range] ∧ range.type = .tcp ∧
        range.start.toInt = b.1 ∧ range.stop.toInt = b.2 := by
  have hU : hasTag 'U' (tag ++ line) = false := hasTag_of_not_mem (by
    rcases hTag with rfl | rfl
    · simpa using hNoTag.2
    · simp [hNoTag.2, show ch 'U' ≠ ch 'T' by decide, show ch 'U' ≠ ch ':' by decide])
  obtain ⟨lead, trail, hText, hLead, hTrail⟩ := gStrstrip_spec (tag ++ line)
  -- The text of the element without the specifier.
  obtain ⟨lead', hLine, hLead'⟩ : ∃ lead', line = lead' ++ portBody (tag ++ line) ++ trail ∧
      ∀ c ∈ lead', gAsciiIsspace c = true := by
    rcases hTag with rfl | rfl
    · rcases tag_cases line with ⟨hT, _⟩ | ⟨hU', _, _⟩ | ⟨_, _, hStripped⟩
      · simp [hasTag_of_not_mem hNoTag.1] at hT
      · simp [hasTag_of_not_mem hNoTag.2] at hU'
      · refine ⟨lead, ?_, hLead⟩
        rw [List.nil_append] at hText ⊢
        rwa [← hStripped]
    · have hStripped := hAccepted.stripped (.inl rfl) (show ch 'T' ∈ [ch 'T', ch ':'] ++ line by simp)
      have hClean : ch 'T' ∉ ch ':' :: line := by
        simp [hNoTag.1, show ch 'T' ≠ ch ':' by decide]
      have hText' : [] ++ ch 'T' :: (ch ':' :: line) =
          lead ++ ch 'T' :: (ch ':' :: (portBody ([ch 'T', ch ':'] ++ line) ++ trail)) := by
        rw [hStripped] at hText
        simpa using hText
      obtain ⟨_, _, hRest⟩ := (List.append_cons_inj_of_notMem List.not_mem_nil hClean).mp hText'
      refine ⟨[], ?_, List.forall_mem_nil _⟩
      simpa using hRest
  rcases validPortElement_spec hAccepted with hBlank | ⟨n, m, hPort, hLow, hOrder, hHigh⟩
  · refine absurd ((gStrstrip_eq_nil_iff line).mpr ?_) hSome
    rw [hLine]
    simp only [List.mem_append]
    rintro c ((hc | hc) | hc)
    · exact hLead' c hc
    · exact gAsciiIsspace_of_isblank (hBlank c hc)
    · exact hTrail c hc
  · obtain ⟨range, hRange, hStart, hStop, hType⟩ :=
      readPortRange_of_portText hPort (by omega) hHigh true
    refine ⟨lead', _, trail, (n, m), hLine, isspace_of_forall_gAsciiIsspace hLead',
      isspace_of_forall_gAsciiIsspace hTrail, ⟨hPort, hLow, hOrder, hHigh⟩, range, ?_, hType, hStart,
      hStop⟩
    have hSwitch : switchProtocol true (gStrstrip (tag ++ line)) = (true, portBody (tag ++ line)) := by
      rw [switchProtocol_eq, hU]
      simp
    have hBody : readPortRange true (portBody (tag ++ line)) = some [range] := hRange
    simp [addPortRanges, hSwitch, hBody]

/-- The text in front of the last newline, if there is one. -/
theorem exists_last_newline (s : CString) :
    ∃ front line, s = front ++ line ∧ ch '\n' ∉ line ∧
      (front = [] ∨ ∃ before, front = before ++ [ch '\n']) := by
  induction s with
  | nil => exact ⟨[], [], rfl, List.not_mem_nil, .inl rfl⟩
  | cons c s ih =>
      obtain ⟨front, line, rfl, hLine, hFront⟩ := ih
      rcases hFront with rfl | ⟨before, rfl⟩
      · by_cases hc : c = ch '\n'
        · exact ⟨[c], line, rfl, hLine, .inr ⟨[], by simp [hc]⟩⟩
        · exact ⟨[], c :: line, rfl, by simp [hLine, Ne.symm hc], .inl rfl⟩
      · exact ⟨c :: before ++ [ch '\n'], line, rfl, hLine, .inr ⟨c :: before, rfl⟩⟩

/-- White space up to a newline is an element of its own, which adds nothing. -/
theorem exists_points_front {tag front : CString} (hTag : tag = [] ∨ tag = [ch 'T', ch ':'])
    (hFront : front = [] ∨ ∃ before, front = before ++ [ch '\n'])
    (hSpace : ∀ c ∈ front, gAsciiIsspace c = true) (rest : CString) :
    ∃ tag' before, (tag' = [] ∨ tag' = [ch 'T', ch ':']) ∧
      (∀ tcp, addPortRanges tcp before = some []) ∧
      points (tag ++ (front ++ rest)) = before ++ points (tag' ++ rest) := by
  rcases hFront with rfl | ⟨space, rfl⟩
  · exact ⟨tag, [], hTag, fun _ => rfl, rfl⟩
  · refine ⟨[], points (tag ++ space), .inl rfl,
      addPortRanges_space hTag fun c hc => hSpace c (by simp [hc]), ?_⟩
    rw [List.nil_append, ← points_append_sep (.inr rfl)]
    simp

/-- So is white space from a newline on. -/
theorem exists_points_back {text back : CString} (hText : points text = [text])
    (hBack : back = [] ∨ ∃ after, back = ch '\n' :: after)
    (hSpace : ∀ c ∈ back, gAsciiIsspace c = true) :
    ∃ behind, (∀ tcp, addPortRanges tcp behind = some []) ∧
      points (text ++ back) = text :: behind := by
  rcases hBack with rfl | ⟨space, rfl⟩
  · exact ⟨[], fun _ => rfl, by rw [List.append_nil, hText]⟩
  · refine ⟨points space, ?_, ?_⟩
    · exact @addPortRanges_space [] space (.inl rfl) fun c hc => hSpace c (by simp [hc])
    · rw [points_append_sep (.inr rfl), hText]
      rfl

/-- An element with newlines at its ends only: both readers find one port or range in it. -/
theorem exists_bounds_element {tag element : CString} (hTag : tag = [] ∨ tag = [ch 'T', ch ':'])
    (hComma : ch ',' ∉ element) (hNoTag : ch 'T' ∉ element ∧ ch 'U' ∉ element)
    (hSome : gStrstrip element ≠ []) (hNewline : ch '\n' ∉ gStrstrip element)
    (hAccepted : ∀ p ∈ points (tag ++ element), Accepted p) :
    ∃ b, Bounds (despace element) b ∧ ReadsOnly (tag ++ element) b := by
  obtain ⟨lead, trail, hText, hLead, hTrail⟩ := gStrstrip_spec element
  obtain ⟨front, first, rfl, hFirst, hFront⟩ := exists_last_newline lead
  obtain ⟨last, back, rfl, hLast, hBack⟩ : ∃ last back, trail = last ++ back ∧ ch '\n' ∉ last ∧
      (back = [] ∨ ∃ after, back = ch '\n' :: after) := by
    by_cases hMem : ch '\n' ∈ trail
    · obtain ⟨last, after, rfl, hNot⟩ := List.eq_append_cons_of_mem hMem
      exact ⟨last, _, rfl, hNot, .inr ⟨after, rfl⟩⟩
    · exact ⟨trail, [], by simp, hMem, .inl rfl⟩
  -- The line with the port, and what is read of the white space in front of it and behind it.
  let line := first ++ gStrstrip element ++ last
  have hElement : element = front ++ (line ++ back) := by
    conv_lhs => rw [hText]
    simp [line]
  have hMem : ∀ {c : UInt8}, c ∈ line → c ∈ element := fun hc => by
    rw [hElement]
    exact List.mem_append_right _ (List.mem_append_left _ hc)
  have hLine : ch '\n' ∉ line := by simp [line, hFirst, hNewline, hLast]
  have hLineSome : gStrstrip line ≠ [] := by
    have hSame : gStrstrip (front ++ line ++ back) = gStrstrip line :=
      gStrstrip_pad (fun c hc => hLead c (List.mem_append_left _ hc))
        (fun c hc => hTrail c (List.mem_append_right _ hc)) line
    rw [List.append_assoc, ← hElement] at hSame
    rwa [← hSame]
  obtain ⟨tag', before, hTag', hBefore, hPoints⟩ := exists_points_front hTag hFront
    (fun c hc => hLead c (List.mem_append_left _ hc)) (line ++ back)
  rw [← hElement] at hPoints
  have hOne : points (tag' ++ line) = [tag' ++ line] := by
    rw [points_tag_append hTag', points_eq_singleton (fun hc => hComma (hMem hc)) hLine]
    rfl
  obtain ⟨behind, hBehind, hPoints'⟩ := exists_points_back hOne hBack
    fun c hc => hTrail c (List.mem_append_right _ hc)
  rw [List.append_assoc] at hPoints'
  obtain ⟨lead, body, trail, b, hBody, hLeadSpace, hTrailSpace, hBounds, range, hRange, hRead⟩ :=
    exists_bounds_line hTag' ⟨fun hc => hNoTag.1 (hMem hc), fun hc => hNoTag.2 (hMem hc)⟩ hLineSome
      (hAccepted _ (by rw [hPoints, hPoints']; simp))
  have hUntagged : ∀ p ∈ points (tag ++ element), hasTag 'U' p = false := by
    refine fun p hp => hasTag_of_not_mem fun hc => ?_
    rcases List.mem_append.mp (mem_of_mem_points hp hc) with hIn | hIn
    · rcases hTag with rfl | rfl
      · simp at hIn
      · exact absurd hIn (by decide)
    · exact hNoTag.2 hIn
  refine ⟨b, ?_, hBounds.2.2.1, range, ?_, hRead⟩
  · have hWhole : element = (front ++ lead) ++ body ++ (trail ++ back) := by
      conv_lhs => rw [hElement, hBody]
      simp
    rw [hWhole]
    refine hBounds.despace (fun c hc => ?_) fun c hc => ?_
    · exact (List.mem_append.mp hc).elim
        (fun hc => isspace_of_gAsciiIsspace (hLead c (List.mem_append_left _ hc))) (hLeadSpace c)
    · exact (List.mem_append.mp hc).elim (hTrailSpace c)
        fun hc => isspace_of_gAsciiIsspace (hTrail c (List.mem_append_right _ hc))
  · have hProtocol : finalProtocol true before = true :=
      finalProtocol_untagged fun p hp => hUntagged p (by rw [hPoints]; exact List.mem_append_left _ hp)
    have hCons : (tag' ++ line) :: behind = [tag' ++ line] ++ behind := rfl
    rw [hPoints, hPoints', addPortRanges_append, hBefore, hProtocol, hCons, addPortRanges_append, hRange,
      hBehind]
    rfl

/-- The elements of a section, with the specifier of the first one. -/
theorem addPortRanges_parts {parts : List CString} {bounds : List (Nat × Nat)}
    (h : List.Forall₂ ReadsOnly parts bounds) (hTcp : ∀ part ∈ parts, ch 'U' ∉ part) :
    ∃ ranges, addPortRanges true (parts.flatMap points) = some ranges ∧
      (∀ port, InRanges .tcp ranges port ↔ InBounds bounds port) ∧
      rangeCount ranges = boundsCount bounds := by
  induction h with
  | nil => exact ⟨[], rfl, by simp [InRanges, InBounds], rfl⟩
  | @cons part b parts bounds hOne _ ih =>
      obtain ⟨hOrder, range, hRange, hType, hStart, hStop⟩ := hOne
      obtain ⟨ranges, hRanges, hSame, hCount⟩ := ih fun p hp => hTcp p (List.mem_cons_of_mem _ hp)
      have hProtocol : finalProtocol true (points part) = true := finalProtocol_untagged fun p hp =>
        hasTag_of_not_mem fun hc => hTcp part (by simp) (mem_of_mem_points hp hc)
      refine ⟨range :: ranges, ?_, fun port => ?_, ?_⟩
      · rw [List.flatMap_cons, addPortRanges_append, hRange, hProtocol, hRanges]
        rfl
      · have hTail := hSame port
        simp only [InRanges, InBounds, List.exists_mem_cons_iff] at hTail ⊢
        rw [hTail, hStart, hStop, hType]
        simp
      · simp only [rangeCount, boundsCount, List.map_cons, List.sum_cons] at hCount ⊢
        rw [hCount, hStart, hStop]
        omega

/-! Sorting. -/

theorem qsortCompar_iff (a b : UInt16) : ¬ qsortCompar b a < 0 ↔ b = 0 ∨ (a ≠ 0 ∧ a ≤ b) := by
  rw [qsortCompar, UInt16.le_iff_toNat_le]
  by_cases hb : b = 0
  · simp [hb]
  · by_cases ha : a = 0
    · simp [hb, ha]
    · simp only [hb, ha, if_false, false_or, not_false_eq_true, ne_eq, true_and]
      omega

/-- The terminating 0 stays behind the ports, which are put in order. -/
theorem qsort_terminated {ports : List UInt16} (h : 0 ∉ ports) :
    qsort (ports ++ [0]) = ports.insertionSort (· ≤ ·) ++ [0] := by
  have : Std.Total fun a b => ¬ qsortCompar b a < 0 := ⟨fun a b => by
    simp only [qsortCompar_iff]
    rcases UInt16.le_total a b with hLe | hLe
    · by_cases ha : a = 0
      · exact .inr (.inl ha)
      · exact .inl (.inr ⟨ha, hLe⟩)
    · by_cases hb : b = 0
      · exact .inl (.inl hb)
      · exact .inr (.inr ⟨hb, hLe⟩)⟩
  have : IsTrans UInt16 fun a b => ¬ qsortCompar b a < 0 := ⟨fun a b c hab hbc => by
    simp only [qsortCompar_iff] at hab hbc ⊢
    rcases hbc with hc | ⟨hb, hLe⟩
    · exact .inl hc
    · rcases hab with hb' | ⟨ha, hLe'⟩
      · exact absurd hb' hb
      · exact .inr ⟨ha, UInt16.le_trans hLe' hLe⟩⟩
  have hSorted := List.pairwise_insertionSort (fun a b => ¬ qsortCompar b a < 0) (ports ++ [0])
  have hOrdered : (ports.insertionSort (· ≤ ·) ++ [0]).Pairwise fun a b => ¬ qsortCompar b a < 0 := by
    rw [List.pairwise_append]
    refine ⟨?_, List.pairwise_singleton .., fun a ha b hb => ?_⟩
    · refine (List.pairwise_insertionSort (· ≤ ·) ports).imp_of_mem fun {a b} ha hb hLe => ?_
      rw [qsortCompar_iff]
      refine .inr ⟨?_, hLe⟩
      rintro rfl
      exact h ((List.mem_insertionSort (· ≤ ·)).mp ha)
    · rw [qsortCompar_iff]
      exact .inl (List.mem_singleton.mp hb)
  have hPerm : (qsort (ports ++ [0])).Perm (ports.insertionSort (· ≤ ·) ++ [0]) :=
    (List.perm_insertionSort _ _).trans ((List.perm_insertionSort _ ports).symm.append_right [0])
  refine hPerm.eq_of_pairwise (fun a b _ _ hab hba => ?_) hSorted hOrdered
  rw [qsortCompar_iff] at hab hba
  rcases hab with hb | ⟨ha, hLe⟩
  · rcases hba with ha | ⟨hb', _⟩
    · rw [ha, hb]
    · exact absurd hb hb'
  · rcases hba with ha' | ⟨_, hLe'⟩
    · exact absurd ha' ha
    · exact UInt16.le_antisymm hLe hLe'

/-! Calls one after the other. -/

/-- The static variables after any calls that stay within their buffers. -/
inductive Reached : Option LastPts → Prop
  | initial : Reached none
  | call {last last' : Option LastPts} {origexpr : CString} {answer : Option (List UInt16 × Nat)}
      (before : Reached last) (call : getpts last origexpr = .ok (answer, last')) : Reached last'

/-- The kept result is the one for the kept text. -/
theorem Reached.kept {last : Option LastPts} (h : Reached last) :
    ∀ pts ∈ last, computePts pts.lastExpr = .ok (some (pts.lastRet, pts.lastNum)) := by
  induction h with
  | initial => simp
  | @call last last' origexpr answer _ hCall ih =>
      intro pts hPts
      rw [getpts] at hCall
      split at hCall
      · rename_i pts' hFilter
        obtain ⟨_, rfl⟩ := Prod.mk.inj (Except.ok.inj hCall)
        obtain rfl := Option.some.inj hPts
        exact ih pts' (Option.eq_some_of_filter_eq_some hFilter)
      · cases hCompute : computePts origexpr with
        | error fault => simp [hCompute, bind, Except.bind] at hCall
        | ok result =>
            simp only [hCompute, bind, Except.bind] at hCall
            match result, hCompute, hCall with
            | none, _, hCall =>
                obtain ⟨_, rfl⟩ := Prod.mk.inj (Except.ok.inj hCall)
                simp at hPts
            | some (ports, num), hCompute, hCall =>
                obtain ⟨_, rfl⟩ := Prod.mk.inj (Except.ok.inj hCall)
                obtain rfl := Option.some.inj hPts
                exact hCompute

/-- A call answers with the list for its text, whatever calls came before. -/
theorem getpts_of_computePts {last : Option LastPts} (hLast : Reached last) {origexpr : CString}
    {ports : List UInt16} {num : Nat} (h : computePts origexpr = .ok (some (ports, num))) :
    ∃ last', getpts last origexpr = .ok (some (ports, num), last') := by
  rw [getpts]
  split
  · rename_i pts hFilter
    have hKept := hLast.kept pts (Option.eq_some_of_filter_eq_some hFilter)
    have hText : pts.lastExpr = origexpr := by
      have hSome := Option.filter_eq_some_iff.mp hFilter
      simpa using hSome.2
    rw [hText, h] at hKept
    obtain ⟨rfl, rfl⟩ := Prod.mk.inj (Option.some.inj (Except.ok.inj hKept))
    exact ⟨_, rfl⟩
  · rw [h]
    exact ⟨_, rfl⟩

/-- The first call computes its answer. -/
theorem computePts_of_getpts {origexpr : CString} {result : List UInt16 × Nat} {last' : Option LastPts}
    (h : getpts none origexpr = .ok (some result, last')) : computePts origexpr = .ok (some result) := by
  obtain ⟨answer, hCompute, hAnswer⟩ := Except.bind_eq_ok.mp h
  match answer, hCompute with
  | none, _ => cases hAnswer
  | some (ports, num), hCompute =>
      obtain ⟨hSame, -⟩ := Prod.mk.inj (Except.ok.inj hAnswer)
      rw [hCompute, hSame]

/-- What was written for an answer. -/
theorem exists_written {origexpr : CString} {result : List UInt16 × Nat}
    (h : computePts origexpr = .ok (some result)) :
    ∃ expr written, tcpExpr (despace origexpr) = .ok expr ∧
      writeExprs (expr.splitOn (ch ',')) [] = .ok (some written) := by
  obtain ⟨expr, hExpr, hRest⟩ := Except.bind_eq_ok.mp h
  obtain ⟨answer, hWrite, hAnswer⟩ := Except.bind_eq_ok.mp hRest
  cases answer with
  | none => cases hAnswer
  | some written => exact ⟨expr, written, hExpr, hWrite⟩

/-- What is expected of the two readers: after any calls `getpts` answers with one and the
same list, which is sorted, ended by 0 and of the reported length, and its ports are the TCP
ports of `port_range_ranges`. -/
def ReadersAgree (portRange : CString) : Prop :=
  ∃ ranges ports, portRangeRanges portRange = some ranges ∧ ports.Pairwise (· ≤ ·) ∧ 0 ∉ ports ∧
    (∀ port, (∃ p ∈ ports, p.toNat = port) ↔ InRanges .tcp ranges port) ∧
    ∀ last, Reached last → ∃ last', getpts last portRange = .ok (some (ports ++ [0], ports.length), last')

theorem exists_forall₂ {α β : Type} {R : α → β → Prop} {list : List α}
    (h : ∀ a ∈ list, ∃ b, R a b) : ∃ other, List.Forall₂ R list other := by
  induction list with
  | nil => exact ⟨[], .nil⟩
  | cons a list ih =>
      obtain ⟨b, hb⟩ := h a (by simp)
      obtain ⟨other, hOther⟩ := ih fun a' ha' => h a' (List.mem_cons_of_mem _ ha')
      exact ⟨b :: other, .cons hb hOther⟩

theorem forall₂_imp_of_mem {α β : Type} {R S : α → β → Prop} {list : List α} {other : List β}
    (h : List.Forall₂ R list other) (hImp : ∀ a b, a ∈ list → R a b → S a b) :
    List.Forall₂ S list other := by
  induction h with
  | nil => exact .nil
  | cons hOne _ ih =>
      exact .cons (hImp _ _ (by simp) hOne) (ih fun a b ha => hImp a b (List.mem_cons_of_mem _ ha))

theorem bounds_of_forall₂ {exprs : List CString} {bounds : List (Nat × Nat)}
    (h : List.Forall₂ Bounds exprs bounds) : ∀ b ∈ bounds, 1 ≤ b.1 ∧ b.2 ≤ 65535 := by
  induction h with
  | nil => simp
  | cons hOne _ ih =>
      intro b hb
      rcases List.mem_cons.mp hb with rfl | hRest
      · exact ⟨hOne.2.1, hOne.2.2.2⟩
      · exact ih b hRest

section Section

variable {portRange : CString}

/-- Both readers find the same bounds in the section. -/
theorem SectionCut.exists_bounds (s : SectionCut portRange) (hUntagged : ch 'T' ∉ s.text)
    (hSingle : ∀ element ∈ s.text.splitOn (ch ','),
      gStrstrip element ≠ [] ∧ ch '\n' ∉ gStrstrip element)
    (hAccepted : ∀ p ∈ points (s.tag ++ s.text), Accepted p) :
    ∃ bounds ranges, List.Forall₂ Bounds ((despace s.text).splitOn (ch ',')) bounds ∧
      addPortRanges true (points (s.tag ++ s.text)) = some ranges ∧
      (∀ port, InRanges .tcp ranges port ↔ InBounds bounds port) ∧ rangeCount ranges = boundsCount bounds := by
  have hTag : s.tag = [] ∨ s.tag = [ch 'T', ch ':'] := s.start.symm.imp And.left And.left
  have hComma : ch ',' ∉ s.tag := by rcases hTag with h | h <;> rw [h] <;> decide
  have hTagU : ch 'U' ∉ s.tag := by rcases hTag with h | h <;> rw [h] <;> decide
  obtain ⟨first, rest, hElements⟩ := List.exists_cons_of_ne_nil (List.splitOn_ne_nil (ch ',') s.text)
  have hParts : points (s.tag ++ s.text) = ((s.tag ++ first) :: rest).flatMap points := by
    rw [points_eq_flatMap, Split.splitOn_append hComma, hElements, List.modifyHead_cons]
  have hOne : ∀ tag element, (tag = [] ∨ tag = [ch 'T', ch ':']) → element ∈ first :: rest →
      (∀ p ∈ points (tag ++ element), p ∈ points (s.tag ++ s.text)) →
      ∃ b, Bounds (despace element) b ∧ ReadsOnly (tag ++ element) b := by
    intro tag element hTag' hElement hPoints
    rw [← hElements] at hElement
    obtain ⟨hSome, hNewline⟩ := hSingle element hElement
    exact exists_bounds_element hTag' (Split.not_mem_of_mem_splitOn hElement)
      ⟨fun hc => hUntagged (Split.mem_of_mem_splitOn hElement hc),
        fun hc => s.noUdp (Split.mem_of_mem_splitOn hElement hc)⟩ hSome hNewline
      fun p hp => hAccepted p (hPoints p hp)
  obtain ⟨b, hBounds, hRead⟩ := hOne s.tag first hTag (List.mem_cons_self ..) fun p hp => by
    rw [hParts]
    exact List.mem_append_left _ hp
  obtain ⟨bounds, hRest⟩ := exists_forall₂ fun element hElement =>
    hOne [] element (.inl rfl) (List.mem_cons_of_mem _ hElement) fun p hp => by
      rw [hParts]
      exact List.mem_append_right _ (List.mem_flatMap.mpr ⟨element, hElement, hp⟩)
  have hTcp : ∀ part ∈ (s.tag ++ first) :: rest, ch 'U' ∉ part := by
    have hElement : ∀ element ∈ first :: rest, ch 'U' ∉ element := fun element hMem hc =>
      s.noUdp (Split.mem_of_mem_splitOn (hElements ▸ hMem) hc)
    intro part hPart
    rcases List.mem_cons.mp hPart with rfl | hLater
    · simp [hTagU, hElement first (List.mem_cons_self ..)]
    · exact hElement part (List.mem_cons_of_mem _ hLater)
  obtain ⟨ranges, hRanges, hSame, hCount⟩ := addPortRanges_parts
    (.cons hRead (forall₂_imp_of_mem hRest fun _ _ _ h => h.2)) hTcp
  refine ⟨b :: bounds, ranges, ?_, hParts ▸ hRanges, hSame, hCount⟩
  rw [despace, Split.splitOn_filter (by decide), hElements]
  exact .cons hBounds (List.forall₂_map_left_iff.mpr (forall₂_imp_of_mem hRest fun _ _ _ h => h.1))

/-- The elements as `getpts` sees them are not empty. -/
theorem nil_not_mem_despace {text : CString}
    (h : ∀ element ∈ text.splitOn (ch ','), gStrstrip element ≠ []) :
    [] ∉ (despace text).splitOn (ch ',') := by
  rw [despace, Split.splitOn_filter (by decide), List.mem_map]
  rintro ⟨element, hElement, hNil⟩
  refine h element hElement ((gStrstrip_eq_nil_iff element).mpr fun c hc => ?_)
  have hBlank := List.filter_eq_nil_iff.mp hNil c hc
  obtain rfl : c = ch ' ' := by simpa using hBlank
  decide

/-- The list that `getpts` makes of bounds, in order and with the terminating 0. -/
theorem computePts_bounds {expr : CString} {bounds : List (Nat × Nat)}
    (hExpr : tcpExpr (despace portRange) = .ok expr)
    (h : List.Forall₂ Bounds (expr.splitOn (ch ',')) bounds) :
    computePts portRange = if boundsCount bounds ≤ 65535
      then .ok (some ((bounds.flatMap portsOf).insertionSort (· ≤ ·) ++ [0],
        ((bounds.flatMap portsOf).insertionSort (· ≤ ·)).length))
      else .error .writePast := by
  have hZero := zero_not_mem_portsOf (bounds_of_forall₂ h)
  have hLength : (bounds.flatMap portsOf).length = boundsCount bounds := by
    simp [boundsCount, List.length_flatMap]
  have hWrite := writeExprs_bounds h [] (Nat.zero_le _)
  rw [List.length_nil, Nat.zero_add, List.nil_append] at hWrite
  rw [despace] at hExpr
  rw [computePts, hExpr]
  simp only [bind, Except.bind, hWrite]
  by_cases hFits : boundsCount bounds ≤ 65535
  · rw [if_pos (Nat.le_succ_of_le hFits), if_pos hFits]
    simp only [List.length_append, hLength, List.length_singleton]
    rw [if_neg (by omega), qsort_terminated hZero]
    simp [hLength]
  · rw [if_neg hFits]
    by_cases hRoom : boundsCount bounds ≤ 65536
    · rw [if_pos hRoom]
      simp only [List.length_append, hLength, List.length_singleton]
      rw [if_pos (by omega)]
    · rw [if_neg hRoom]

/-- The readers agree on an accepted list of which `getpts` reads what is meant. -/
theorem ReadSection.agree (hValid : validatePortRange (some portRange) = true)
    (s : ReadSection portRange) : ReadersAgree portRange := by
  have hAccepted := accepted_points hValid
  have hSection := (s.cut_back (s.cut_front hAccepted).back).front
  obtain ⟨bounds, ranges, hExprs, hRanges, hSame, hCount⟩ :=
    s.exists_bounds s.untagged s.single hSection
  obtain ⟨rangesFront, rangesBack, all, hFront, hBack, hAll, hPorts⟩ :=
    s.portRangeRanges_eq hAccepted hRanges
  rw [← Ports.portRangeRanges_eq] at hRanges
  have hEach := bounds_of_forall₂ hExprs
  have hCompute := computePts_bounds
    (s.tcpExpr_eq (nil_not_mem_despace fun element hMem => (s.single element hMem).1)) hExprs
  have hFits := s.fits ranges hRanges
  rw [if_pos (by omega)] at hCompute
  refine ⟨all, _, hAll, List.pairwise_insertionSort (· ≤ ·) _, ?_, fun port => ?_,
    fun last hLast => getpts_of_computePts hLast hCompute⟩
  · rw [List.mem_insertionSort]
    exact zero_not_mem_portsOf hEach
  · have hCovered := s.covered _ _ _ hFront hBack hRanges port
    rw [hPorts, or_iff_right_of_imp hCovered, hSame, ← mem_flatMap_portsOf hEach]
    simp only [List.mem_insertionSort]

/-- The readers agree on no other accepted list, except for lists that are misread. -/
theorem ReadersAgree.read_or_misread (hValid : validatePortRange (some portRange) = true)
    (h : ReadersAgree portRange) : Nonempty (ReadSection portRange) ∨ Misread portRange := by
  obtain ⟨all, ports, hAll, -, -, hPorts, hCalls⟩ := h
  obtain ⟨last', hCall⟩ := hCalls none .initial
  have hCompute := computePts_of_getpts hCall
  obtain ⟨expr, written, hExpr, hWrite⟩ := exists_written hCompute
  have hOrdered := writeExprs_ordered hWrite
  have hAccepted := accepted_points hValid
  obtain ⟨s, rfl⟩ := exists_sectionCut hAccepted hExpr fun hNil =>
    absurd (hOrdered [] hNil) (by decide)
  by_cases hMisread : Misread portRange
  · exact .inr hMisread
  have hUntagged : ch 'T' ∉ s.text := fun hMem => hMisread ⟨s, .inl hMem⟩
  have hSingle : ∀ element ∈ s.text.splitOn (ch ','),
      gStrstrip element ≠ [] ∧ ch '\n' ∉ gStrstrip element := by
    refine fun element hMem => ⟨fun hNil => ?_, fun hNewline => hMisread ⟨s, .inr ⟨element, hMem, hNewline⟩⟩⟩
    have hSpace := isspace_of_forall_gAsciiIsspace ((gStrstrip_eq_nil_iff element).mp hNil)
    have hExprMem : despace element ∈ (despace s.text).splitOn (ch ',') := by
      rw [despace, Split.splitOn_filter (by decide)]
      exact List.mem_map_of_mem hMem
    have hOrder := hOrdered _ hExprMem
    rw [readExpr_space fun c hc => hSpace c (mem_of_mem_despace hc)] at hOrder
    exact absurd hOrder (by decide)
  have hSection := (s.cut_back (s.cut_front hAccepted).back).front
  obtain ⟨bounds, ranges, hExprs, hRanges, hSame, hCount⟩ := s.exists_bounds hUntagged hSingle hSection
  obtain ⟨rangesFront, rangesBack, all', hFront, hBack, hAll', hAllPorts⟩ :=
    s.portRangeRanges_eq hAccepted hRanges
  obtain rfl := Option.some.inj (hAll.symm.trans hAll')
  rw [← Ports.portRangeRanges_eq] at hRanges
  have hBounds := computePts_bounds hExpr hExprs
  rw [hCompute] at hBounds
  by_cases hFits : boundsCount bounds ≤ 65535
  · rw [if_pos hFits] at hBounds
    obtain ⟨hList, -⟩ := Prod.mk.inj (Option.some.inj (Except.ok.inj hBounds))
    obtain rfl := List.append_cancel_right hList
    refine .inl ⟨{ s with
      untagged := hUntagged
      single := hSingle
      fits := fun ranges' h => ?_
      covered := fun _ _ _ h h' h'' port hPort => ?_ }⟩
    · obtain rfl := Option.some.inj (hRanges.symm.trans h)
      omega
    · obtain rfl := Option.some.inj (hFront.symm.trans h)
      obtain rfl := Option.some.inj (hBack.symm.trans h')
      obtain rfl := Option.some.inj (hRanges.symm.trans h'')
      rw [hSame, ← mem_flatMap_portsOf (bounds_of_forall₂ hExprs)]
      simpa only [List.mem_insertionSort] using (hPorts port).mpr ((hAllPorts port).mpr (.inl hPort))
  · rw [if_neg hFits] at hBounds
    cases hBounds

/-- The readers agree on the accepted lists of which `getpts` reads what is meant, and on no
others but lists with elements that it misreads. -/
theorem readers_agree (hValid : validatePortRange (some portRange) = true) :
    (Nonempty (ReadSection portRange) → ReadersAgree portRange) ∧
      (ReadersAgree portRange → Nonempty (ReadSection portRange) ∨ Misread portRange) :=
  ⟨fun ⟨s⟩ => s.agree hValid, fun hAgree => hAgree.read_or_misread hValid⟩

end Section

/-- A list for which newlines stand at the ends of elements and in front of type specifiers. -/
def twoSections : ReadSection (lit "U:53\nT:22,\n80-82\n,7\nU:7") where
  front := lit "U:53\n"
  tag := lit "T:"
  text := lit "22,\n80-82\n,7\n"
  gap := []
  back := lit "U:7"
  whole := by decide
  start := .inl (by decide)
  stop := .inr ⟨⟨lit "7", by decide⟩, .inl rfl⟩
  noUdp := by decide
  untagged := by decide
  single := by decide +kernel
  fits := fun ranges hRanges => by
    have hSection : portRangeRanges (lit "T:22,\n80-82\n,7\n") = some
        [⟨22, 22, .tcp, false⟩, ⟨80, 82, .tcp, false⟩, ⟨7, 7, .tcp, false⟩] := by decide +kernel
    obtain rfl := Option.some.inj (hSection.symm.trans hRanges)
    decide
  covered := fun ranges ranges' ranges'' h h' _ port hPort => by
    have hFront : portRangeRanges (lit "U:53\n") = some [⟨53, 53, .udp, false⟩] := by decide +kernel
    have hBack : portRangeRanges (lit "U:7") = some [⟨7, 7, .udp, false⟩] := by decide +kernel
    obtain rfl := Option.some.inj (hFront.symm.trans h)
    obtain rfl := Option.some.inj (hBack.symm.trans h')
    simp [InRanges] at hPort

theorem readers_agree_two_sections :
    validatePortRange (some (lit "U:53\nT:22,\n80-82\n,7\nU:7")) = true ∧
      ReadersAgree (lit "U:53\nT:22,\n80-82\n,7\nU:7") :=
  have hValid : validatePortRange (some (lit "U:53\nT:22,\n80-82\n,7\nU:7")) = true := by decide +kernel
  ⟨hValid, (readers_agree hValid).1 ⟨twoSections⟩⟩

/-- The example in the validator's description: `getpts` misses the TCP port 103 in front of `T:`. -/
theorem described_range_disagrees :
    validatePortRange (some (lit "103,U:200-1024,3000-4000,T:3-4,U:7")) = true ∧
      computePts (lit "103,U:200-1024,3000-4000,T:3-4,U:7") = .ok (some ([3, 4, 0], 2)) ∧
      ¬ ReadersAgree (lit "103,U:200-1024,3000-4000,T:3-4,U:7") := by
  have hCompute : computePts (lit "103,U:200-1024,3000-4000,T:3-4,U:7") =
      .ok (some ([3, 4, 0], 2)) := by decide +kernel
  have hAll : portRangeRanges (lit "103,U:200-1024,3000-4000,T:3-4,U:7") = some
      [⟨103, 103, .tcp, false⟩, ⟨200, 1024, .udp, false⟩, ⟨3000, 4000, .udp, false⟩,
        ⟨3, 4, .tcp, false⟩, ⟨7, 7, .udp, false⟩] := by decide +kernel
  refine ⟨by decide +kernel, hCompute, ?_⟩
  rintro ⟨ranges, ports, hRanges, _, _, hPorts, hCalls⟩
  obtain rfl := Option.some.inj (hAll.symm.trans hRanges)
  obtain ⟨last, hCall⟩ := hCalls none .initial
  obtain ⟨last', hCall'⟩ := getpts_of_computePts .initial hCompute
  obtain ⟨hAnswer, _⟩ := Prod.mk.inj (Except.ok.inj (hCall'.symm.trans hCall))
  obtain ⟨hList, _⟩ := Prod.mk.inj (Option.some.inj hAnswer)
  have hPair : ports = [3, 4] :=
    List.append_cancel_right (show ports ++ [0] = [3, 4] ++ [0] from hList.symm)
  subst hPair
  have hMissed : InRanges .tcp [⟨103, 103, .tcp, false⟩, ⟨200, 1024, .udp, false⟩,
      ⟨3000, 4000, .udp, false⟩, ⟨3, 4, .tcp, false⟩, ⟨7, 7, .udp, false⟩] 103 :=
    ⟨_, List.mem_cons_self .., rfl, by decide, by decide⟩
  obtain ⟨p, hp, hNumber⟩ := (hPorts 103).mpr hMissed
  simp only [List.mem_cons, List.not_mem_nil, or_false] at hp
  rcases hp with rfl | rfl
  · simp at hNumber
  · simp at hNumber

end Ports
