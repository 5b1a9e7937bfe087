import OpenVAS.Ports.Agreement
import Mathlib.Data.List.Infix
import Mathlib.Data.List.Induction

/-! What `port_range_ranges` makes of a list that the validator accepts: one range for each
element that is not blank, under the closest type specifier at or before the element, and the
ports that `port_in_port_ranges` then finds. -/
namespace Ports

open CString

/-- Whether a port is in an array of ranges; `none` is a NULL array. -/
def portInPortRanges (pnum : Int) (ptype : PortProtocol) (pranges : Option (List PortRange)) : Bool :=
  match pranges with
  | none => false
  | some pranges =>
      if pnum < 0 || 65536 < pnum then false
      else pranges.any fun range =>
        range.type = ptype && range.start.toInt ≤ pnum && pnum ≤ range.stop.toInt

/-- The elements of a list, for which newlines count as commas. -/
def elements (portRange : CString) : List CString :=
  ((portRange.dropWhile isblank).map newlineToComma).splitOn (ch ',')

/-- The protocol of the last element that has a type specifier, TCP without one. -/
def closestProtocol (points : List CString) : PortProtocol :=
  match points.reverse.find? fun point => hasTag 'T' point || hasTag 'U' point with
  | none => .tcp
  | some point => if hasTag 'T' point then .tcp else .udp

def blankElement (point : CString) : Bool := (portBody point).all isblank

/-- Each element that is not blank, as the part of the list that ends with it. -/
def fronts (points : List CString) : List (List CString) :=
  points.inits.filter fun front => front.getLast?.any fun point => !blankElement point

/-- The numbers written in the last element. -/
def Written (front : List CString) (b : Nat × Nat) : Prop :=
  ∃ point, front.getLast? = some point ∧ Bounds (portBody point) b

/-- A range holds the numbers and the protocol of an element. -/
def ReadAs (front : List CString) (range : PortRange) : Prop :=
  ∃ b, Written front b ∧ range.start.toInt = b.1 ∧ range.stop.toInt = b.2 ∧
    range.type = closestProtocol front

/-- An element covers a port of its protocol. -/
def Covers (front : List CString) (type : PortProtocol) (port : Int) : Prop :=
  closestProtocol front = type ∧ ∃ b, Written front b ∧ (b.1 : Int) ≤ port ∧ port ≤ b.2

/-! One element more. -/

theorem fronts_concat (points : List CString) (point : CString) :
    fronts (points ++ [point]) =
      fronts points ++ if blankElement point then [] else [points ++ [point]] := by
  have hInits : (points ++ [point]).inits = points.inits ++ [points ++ [point]] := by
    rw [List.inits_append]
    rfl
  rw [fronts, hInits, List.filter_append, ← fronts]
  cases hBlank : blankElement point with
  | false => simp [hBlank]
  | true => simp [hBlank]

theorem closestProtocol_concat (points : List CString) (point : CString) :
    closestProtocol (points ++ [point]) =
      if hasTag 'T' point then .tcp else if hasTag 'U' point then .udp else closestProtocol points := by
  rw [closestProtocol, List.reverse_append, List.reverse_singleton, List.singleton_append,
    List.find?_cons]
  cases hT : hasTag 'T' point with
  | true => simp [hT]
  | false =>
      cases hU : hasTag 'U' point with
      | true => simp [hT]
      | false => rfl

theorem finalProtocol_concat (tcp : Bool) (points : List CString) (point : CString) :
    finalProtocol tcp (points ++ [point]) =
      (switchProtocol (finalProtocol tcp points) (gStrstrip point)).1 := by
  induction points generalizing tcp with
  | nil => rfl
  | cons first points ih => rw [List.cons_append, finalProtocol, ih, finalProtocol]

/-- The variable `tcp` after some elements is the closest type specifier. -/
theorem finalProtocol_eq (points : List CString) :
    (if finalProtocol true points then PortProtocol.tcp else .udp) = closestProtocol points := by
  induction points using List.reverseRecOn with
  | nil => rfl
  | append_singleton points point ih =>
      rw [finalProtocol_concat, switchProtocol_eq, closestProtocol_concat, ← ih]
      cases hT : hasTag 'T' point with
      | true => simp
      | false =>
          cases hU : hasTag 'U' point with
          | true => simp
          | false => simp

/-- What is read of one element behind others. -/
theorem addPortRanges_concat (points : List CString) (point : CString) :
    addPortRanges true (points ++ [point]) = (do
      let ranges ← addPortRanges true points
      let range ← readPortRange (finalProtocol true (points ++ [point])) (portBody point)
      some (ranges ++ range)) := by
  have hBody : (switchProtocol (finalProtocol true points) (gStrstrip point)).2 = portBody point := by
    rw [switchProtocol_eq]
  rw [addPortRanges_append, finalProtocol_concat]
  simp only [addPortRanges, hBody]
  simp

/-- A blank element is not a port. -/
theorem PortText.not_blank {t : CString} {n m : Nat} (h : PortText t n m) :
    t.all isblank = false := by
  have hNumber : ∃ number tail, Spells t number tail := by
    cases h with
    | single hNumber _ => exact ⟨_, _, hNumber⟩
    | range hFirst _ _ _ => exact ⟨_, _, hFirst⟩
  obtain ⟨number, tail, space, sign, digits, rfl, _, _, hNe, hDigits, _⟩ := hNumber
  obtain ⟨d, ds, rfl⟩ := List.exists_cons_of_ne_nil hNe
  have hDigit := (isdigit_facts (hDigits d (by simp))).1
  rw [← Bool.not_eq_true, List.all_eq_true]
  intro hAll
  have hBlank := isspace_of_isblank (hAll d (by simp))
  simp [hBlank] at hDigit

/-- Every element that is not blank is read, as it is written. -/
theorem addPortRanges_fronts {points : List CString} (h : ∀ p ∈ points, Accepted p) :
    ∃ ranges, addPortRanges true points = some ranges ∧
      List.Forall₂ ReadAs (fronts points) ranges := by
  induction points using List.reverseRecOn with
  | nil => exact ⟨[], rfl, .nil⟩
  | append_singleton points point ih =>
      obtain ⟨ranges, hRanges, hRead⟩ := ih fun p hp => h p (List.mem_append_left _ hp)
      rw [addPortRanges_concat, hRanges, fronts_concat]
      rcases validPortElement_spec (h point (by simp)) with hBlank | ⟨n, m, hPort, hLow, hOrder, hHigh⟩
      · have hAll : blankElement point = true := List.all_eq_true.mpr hBlank
        refine ⟨ranges, ?_, ?_⟩
        · simp [portBody, readPortRange_blank hBlank]
        · simpa [hAll] using hRead
      · have hAll : blankElement point = false := PortText.not_blank hPort
        obtain ⟨range, hRange, hStart, hStop, hType⟩ :=
          readPortRange_of_portText hPort (by omega) (by omega) (finalProtocol true (points ++ [point]))
        rw [finalProtocol_eq] at hType
        refine ⟨ranges ++ [range], ?_, ?_⟩
        · simp [portBody, hRange]
        · rw [hAll]
          refine List.rel_append hRead (.cons ?_ .nil)
          exact ⟨(n, m), ⟨point, by simp, hPort, hLow, hOrder, hHigh⟩, hStart, hStop, hType⟩

/-- The numbers of an element are the ones that are read. -/
theorem Bounds.unique {t : CString} {b b' : Nat × Nat} (h : Bounds t b) (h' : Bounds t b') :
    b = b' := by
  obtain ⟨hPort, hLow, hOrder, hHigh⟩ := h
  obtain ⟨hPort', hLow', hOrder', hHigh'⟩ := h'
  obtain ⟨range, hRange, hStart, hStop, -⟩ := readPortRange_of_portText hPort (by omega) hHigh true
  obtain ⟨range', hRange', hStart', hStop', -⟩ :=
    readPortRange_of_portText hPort' (by omega) hHigh' true
  rw [hRange] at hRange'
  obtain rfl : range = range' := by simpa using hRange'
  exact Prod.ext (by omega) (by omega)

theorem Written.unique {front : List CString} {b b' : Nat × Nat} (h : Written front b)
    (h' : Written front b') : b = b' := by
  obtain ⟨point, hPoint, hBounds⟩ := h
  obtain ⟨point', hPoint', hBounds'⟩ := h'
  obtain rfl := Option.some.inj (hPoint.symm.trans hPoint')
  exact hBounds.unique hBounds'

/-- A range is passed by the ports that its element covers. -/
theorem ReadAs.covers {front : List CString} {range : PortRange} (h : ReadAs front range)
    (type : PortProtocol) (port : Int) :
    Covers front type port ↔
      range.type = type ∧ range.start.toInt ≤ port ∧ port ≤ range.stop.toInt := by
  obtain ⟨b, hWritten, hStart, hStop, hType⟩ := h
  rw [Covers, hStart, hStop, hType]
  constructor
  · rintro ⟨rfl, b', hWritten', hLow, hHigh⟩
    obtain rfl := hWritten.unique hWritten'
    exact ⟨rfl, hLow, hHigh⟩
  · rintro ⟨rfl, hLow, hHigh⟩
    exact ⟨rfl, b, hWritten, hLow, hHigh⟩

theorem any_of_readAs {points : List (List CString)} {ranges : List PortRange}
    (h : List.Forall₂ ReadAs points ranges) (type : PortProtocol) (port : Int) :
    (∃ range ∈ ranges, range.type = type ∧ range.start.toInt ≤ port ∧ port ≤ range.stop.toInt) ↔
      ∃ front ∈ points, Covers front type port := by
  induction h with
  | nil => simp
  | cons hOne _ ih => rw [List.exists_mem_cons_iff, List.exists_mem_cons_iff, ih, hOne.covers]

theorem portInPortRanges_iff {ranges : List PortRange} {type : PortProtocol} {port : Int}
    (hLow : 1 ≤ port) (hHigh : port ≤ 65535) :
    portInPortRanges port type (some ranges) = true ↔
      ∃ range ∈ ranges, range.type = type ∧ range.start.toInt ≤ port ∧ port ≤ range.stop.toInt := by
  have hIn : ¬ (port < 0 ∨ 65536 < port) := by omega
  simp [portInPortRanges, hIn, and_assoc]

/-- An accepted list is parsed without a failed assertion into the ranges that it writes, and
the ports found in them are those that its elements cover. -/
theorem accepted_parsed {portRange : CString} (h : validatePortRange (some portRange) = true) :
    ∃ ranges, portRangeRanges portRange = some ranges ∧
      List.Forall₂ ReadAs (fronts (elements portRange)) ranges ∧
      ∀ type port, 1 ≤ port → port ≤ 65535 →
        (portInPortRanges port type (some ranges) = true ↔
          ∃ front ∈ fronts (elements portRange), Covers front type port) := by
  have hAccepted : ∀ point ∈ elements portRange, Accepted point := by
    simp only [validatePortRange, Bool.and_eq_true] at h
    exact fun point hPoint => List.all_eq_true.mp h.2 point hPoint
  obtain ⟨ranges, hRanges, hRead⟩ := addPortRanges_fronts hAccepted
  refine ⟨ranges, hRanges, hRead, fun type port hLow hHigh => ?_⟩
  rw [portInPortRanges_iff hLow hHigh]
  exact any_of_readAs hRead type port

theorem accepted_parsed_mixed : validatePortRange (some (lit "7,U: 200 - 300\n,9")) = true ∧
    ∃ ranges, portRangeRanges (lit "7,U: 200 - 300\n,9") = some ranges ∧
      List.Forall₂ ReadAs (fronts (elements (lit "7,U: 200 - 300\n,9"))) ranges ∧
      ∀ type port, 1 ≤ port → port ≤ 65535 →
        (portInPortRanges port type (some ranges) = true ↔
          ∃ front ∈ fronts (elements (lit "7,U: 200 - 300\n,9")), Covers front type port) :=
  have hValid : validatePortRange (some (lit "7,U: 200 - 300\n,9")) = true := by decide +kernel
  ⟨hValid, accepted_parsed hValid⟩

end Ports
