import OpenVAS.Ports.Lists

/-! The texts that the validator accepts as a port or a range of ports, and what
the two readers make of them. White space around the numbers does not matter to
either reader, whether it is stripped, skipped or left in place. -/
namespace Ports

open CString

/-- White space, an optional plus sign and a decimal number, in front of a tail. -/
def Spells (t : CString) (n : Nat) (tail : CString) : Prop :=
  ∃ space sign digits, t = space ++ sign ++ digits ++ tail ∧ (∀ c ∈ space, isspace c = true) ∧
    (sign = [] ∨ sign = [ch '+']) ∧ digits ≠ [] ∧ (∀ c ∈ digits, isdigit c = true) ∧
    digitsValue digits = n

/-- A port, or two ports with a dash in between. -/
inductive PortText : CString → Nat → Nat → Prop
  | single {t tail : CString} {n : Nat} (hNumber : Spells t n tail)
      (hTail : ∀ c ∈ tail, isspace c = true) : PortText t n n
  | range {t gap second tail : CString} {n m : Nat} (hFirst : Spells t n (gap ++ ch '-' :: second))
      (hGap : ∀ c ∈ gap, isspace c = true) (hSecond : Spells second m tail)
      (hTail : ∀ c ∈ tail, isspace c = true) : PortText t n m

theorem isdigit_facts {c : UInt8} (h : isdigit c = true) :
    isspace c = false ∧ c ≠ ch '-' ∧ c ≠ ch '+' ∧ c ≠ ch ' ' ∧ c ≠ ch ',' ∧ c ≠ ch 'T' ∧ c ≠ ch 'U' := by
  have hAll : ∀ n < 256, isdigit (UInt8.ofNat n) = true → isspace (UInt8.ofNat n) = false ∧
      UInt8.ofNat n ≠ ch '-' ∧ UInt8.ofNat n ≠ ch '+' ∧ UInt8.ofNat n ≠ ch ' ' ∧
      UInt8.ofNat n ≠ ch ',' ∧ UInt8.ofNat n ≠ ch 'T' ∧ UInt8.ofNat n ≠ ch 'U' := by decide +kernel
  have hOne := hAll c.toNat c.toNat_lt
  rw [UInt8.ofNat_toNat] at hOne
  exact hOne h

theorem isspace_facts {c : UInt8} (h : isspace c = true) :
    isdigit c = false ∧ c ≠ ch '-' ∧ c ≠ ch '+' ∧ c ≠ ch ',' ∧ c ≠ ch 'T' ∧ c ≠ ch 'U' := by
  have hAll : ∀ n < 256, isspace (UInt8.ofNat n) = true → isdigit (UInt8.ofNat n) = false ∧
      UInt8.ofNat n ≠ ch '-' ∧ UInt8.ofNat n ≠ ch '+' ∧
      UInt8.ofNat n ≠ ch ',' ∧ UInt8.ofNat n ≠ ch 'T' ∧ UInt8.ofNat n ≠ ch 'U' := by decide +kernel
  have hOne := hAll c.toNat c.toNat_lt
  rw [UInt8.ofNat_toNat] at hOne
  exact hOne h

/-! Numbers. -/

/-- `strtol` reads the number and stops at the tail. -/
theorem strtol_of_spells {t tail : CString} {n : Nat} (h : Spells t n tail)
    (hTail : ∀ c ∈ tail.head?, isdigit c = false) (hSmall : n < 2 ^ 63) : strtol t = ((n : Int), tail) := by
  obtain ⟨space, sign, digits, rfl, hSpace, hSign, hNe, hDigits, rfl⟩ := h
  obtain ⟨d, ds, rfl⟩ := List.exists_cons_of_ne_nil hNe
  obtain ⟨hNotSpace, hMinus, hPlus, _⟩ := isdigit_facts (hDigits d (by simp))
  have hTake : (d :: ds ++ tail).takeWhile isdigit = d :: ds := by
    rw [List.takeWhile_append_of_pos hDigits]
    cases tail with
    | nil => simp
    | cons c rest => simp [hTail c (by simp)]
  have hDrop : (d :: ds ++ tail).dropWhile isdigit = tail := by
    rw [List.dropWhile_append_of_pos hDigits]
    cases tail with
    | nil => simp
    | cons c rest => simp [hTail c (by simp)]
  have hSkip : (space ++ sign ++ d :: ds ++ tail).dropWhile isspace = sign ++ d :: ds ++ tail := by
    rw [List.append_assoc, List.append_assoc, List.dropWhile_append_of_pos hSpace]
    rcases hSign with rfl | rfl
    · simp [hNotSpace]
    · simp [show isspace (ch '+') = false by decide]
  have hSplit : splitSign (sign ++ d :: ds ++ tail) = (false, d :: ds ++ tail) := by
    rcases hSign with rfl | rfl
    · simp [splitSign, hMinus, hPlus]
    · simp [splitSign, show ch '+' ≠ ch '-' by decide]
  rw [strtol, hSkip]
  simp only [hSplit, hTake, hDrop, List.cons_ne_nil, if_false, Bool.false_eq_true]
  refine Prod.ext ?_ rfl
  change max (-2 ^ 63) (min (2 ^ 63 - 1) _) = _
  omega

theorem atoi_of_spells {t tail : CString} {n : Nat} (h : Spells t n tail)
    (hTail : ∀ c ∈ tail.head?, isdigit c = false) (hSmall : n < 2 ^ 31) :
    (atoi t).toInt = n := by
  rw [atoi, strtol_of_spells h hTail (by omega), Int32.toInt_ofInt_of_le (by omega) (by omega)]

/-- What a number that is not 0 was read from. -/
theorem spells_of_strtol {s : CString} (hNe : (strtol s).1 ≠ 0) (hRange : strtolErange s = false) :
    (∃ n, Spells s n (strtol s).2 ∧ (strtol s).1 = n) ∨
      ((strtol s).1 < 0 ∧ ∃ space digits, s = space ++ ch '-' :: digits ++ (strtol s).2 ∧
        (∀ c ∈ space, isspace c = true) ∧ digits ≠ [] ∧ (∀ c ∈ digits, isdigit c = true)) := by
  have hSpace : ∀ c ∈ s.takeWhile isspace, isspace c = true := fun c hc => List.mem_takeWhile_imp hc
  have hText : s = s.takeWhile isspace ++ s.dropWhile isspace := List.takeWhile_append_dropWhile.symm
  have hBody : ∀ body : CString, body = body.takeWhile isdigit ++ body.dropWhile isdigit :=
    fun body => List.takeWhile_append_dropWhile.symm
  have hDigits : ∀ body : CString, ∀ c ∈ body.takeWhile isdigit, isdigit c = true :=
    fun body c hc => List.mem_takeWhile_imp hc
  rw [strtol] at hNe ⊢
  rw [strtolErange] at hRange
  generalize s.dropWhile isspace = rest at *
  cases rest with
  | nil => simp [splitSign] at hNe
  | cons c rest =>
      by_cases hMinus : c = ch '-'
      · subst hMinus
        simp only [splitSign, if_true] at hNe hRange ⊢
        by_cases hEmpty : rest.takeWhile isdigit = []
        · simp [hEmpty] at hNe
        · simp only [hEmpty, if_false] at hNe ⊢
          refine .inr ⟨by omega, _, rest.takeWhile isdigit, ?_, hSpace, hEmpty, hDigits rest⟩
          rw [List.append_assoc, List.cons_append, ← hBody rest]
          exact hText
      · have hCase : ∃ sign body, c :: rest = sign ++ body ∧ (sign = [] ∨ sign = [ch '+']) ∧
            splitSign (c :: rest) = (false, body) := by
          by_cases hPlus : c = ch '+'
          · subst hPlus
            exact ⟨[ch '+'], rest, rfl, .inr rfl, by simp [splitSign, hMinus]⟩
          · exact ⟨[], c :: rest, rfl, .inl rfl, by simp [splitSign, hMinus, hPlus]⟩
        obtain ⟨sign, body, hSplit, hSign, hSame⟩ := hCase
        simp only [hSame] at hNe hRange ⊢
        by_cases hEmpty : body.takeWhile isdigit = []
        · simp [hEmpty] at hNe
        · simp only [hEmpty, if_false, Bool.false_eq_true, decide_eq_false_iff_not] at hNe hRange ⊢
          refine .inl ⟨digitsValue (body.takeWhile isdigit), ⟨s.takeWhile isspace, sign,
            body.takeWhile isdigit, ?_, hSpace, hSign, hEmpty, hDigits body, rfl⟩, by omega⟩
          rw [List.append_assoc, ← hBody body, List.append_assoc, ← hSplit]
          exact hText

/-! White space. -/

/-- The text that `getpts` works on has no blanks. -/
def despace (s : CString) : CString := s.filter (· ≠ ch ' ')

@[simp]
theorem despace_append (s t : CString) : despace (s ++ t) = despace s ++ despace t :=
  List.filter_append ..

theorem despace_eq_self {s : CString} (h : ch ' ' ∉ s) : despace s = s :=
  List.filter_eq_self.mpr fun c hc => by
    rw [decide_eq_true_eq]
    rintro rfl
    exact h hc

theorem mem_of_mem_despace {s : CString} {c : UInt8} (h : c ∈ despace s) : c ∈ s :=
  (List.mem_filter.mp h).1

theorem Spells.despace {t tail : CString} {n : Nat} (h : Spells t n tail) :
    Spells (Ports.despace t) n (Ports.despace tail) := by
  obtain ⟨space, sign, digits, rfl, hSpace, hSign, hNe, hDigits, hValue⟩ := h
  have hSignSame : Ports.despace sign = sign := by rcases hSign with rfl | rfl <;> decide
  have hDigitsSame : Ports.despace digits = digits :=
    despace_eq_self fun hMem => (isdigit_facts (hDigits _ hMem)).2.2.2.1 rfl
  refine ⟨Ports.despace space, sign, digits, ?_, ?_, hSign, hNe, hDigits, hValue⟩
  · simp [hSignSame, hDigitsSame]
  · exact fun c hc => hSpace c (mem_of_mem_despace hc)

theorem Spells.pad {t tail space : CString} {n : Nat} (h : Spells t n tail)
    (hSpace : ∀ c ∈ space, isspace c = true) (back : CString) : Spells (space ++ t ++ back) n (tail ++ back) := by
  obtain ⟨front, sign, digits, rfl, hFront, hSign, hNe, hDigits, hValue⟩ := h
  refine ⟨space ++ front, sign, digits, by simp, fun c hc => ?_, hSign, hNe, hDigits, hValue⟩
  exact (List.mem_append.mp hc).elim (hSpace c) (hFront c)

/-- Blanks in front of a number can be skipped. -/
theorem Spells.dropBlanks {t tail : CString} {n : Nat} (h : Spells t n tail) :
    Spells (t.dropWhile isblank) n tail := by
  obtain ⟨space, sign, digits, rfl, hSpace, hSign, hNe, hDigits, hValue⟩ := h
  refine ⟨space.dropWhile isblank, sign, digits, ?_, ?_, hSign, hNe, hDigits, hValue⟩
  · have hStart : (sign ++ digits ++ tail).dropWhile isblank = sign ++ digits ++ tail := by
      obtain ⟨d, ds, rfl⟩ := List.exists_cons_of_ne_nil hNe
      have hDigit : isblank d = false := by
        rw [← Bool.not_eq_true]
        intro hBlank
        have hNot := (isdigit_facts (hDigits d (by simp))).1
        simp [isspace_of_isblank hBlank] at hNot
      rcases hSign with rfl | rfl
      · simp [hDigit]
      · simp [show isblank (ch '+') = false by decide]
    by_cases hAll : ∀ c ∈ space, isblank c = true
    · rw [List.append_assoc, List.append_assoc, List.dropWhile_append_of_pos hAll,
        List.dropWhile_eq_nil_iff.mpr hAll, ← List.append_assoc, hStart, List.nil_append]
    · have hSome : space.dropWhile isblank ≠ [] := fun hNil => hAll (List.dropWhile_eq_nil_iff.mp hNil)
      rw [List.append_assoc, List.append_assoc, List.dropWhile_append, if_neg (by simpa using hSome)]
      simp
  · exact fun c hc => hSpace c ((List.dropWhile_sublist _).subset hc)

theorem PortText.despace {t : CString} {n m : Nat} (h : PortText t n m) :
    PortText (Ports.despace t) n m := by
  cases h with
  | single hNumber hTail =>
      exact .single hNumber.despace fun c hc => hTail c (mem_of_mem_despace hc)
  | @range gap second tail _ _ hFirst hGap hSecond hTail =>
      have hDash : Ports.despace (gap ++ ch '-' :: second) =
          Ports.despace gap ++ ch '-' :: Ports.despace second := by
        rw [despace_append]
        rfl
      exact .range (hDash ▸ hFirst.despace) (fun c hc => hGap c (mem_of_mem_despace hc))
        hSecond.despace fun c hc => hTail c (mem_of_mem_despace hc)

theorem PortText.pad {t space back : CString} {n m : Nat} (h : PortText t n m)
    (hSpace : ∀ c ∈ space, isspace c = true) (hBack : ∀ c ∈ back, isspace c = true) :
    PortText (space ++ t ++ back) n m := by
  have hBoth : ∀ {tail : CString}, (∀ c ∈ tail, isspace c = true) →
      ∀ c ∈ tail ++ back, isspace c = true := fun hTail c hc =>
    (List.mem_append.mp hc).elim (hTail c) (hBack c)
  cases h with
  | single hNumber hTail => exact .single (hNumber.pad hSpace back) (hBoth hTail)
  | @range gap second tail _ _ hFirst hGap hSecond hTail =>
      have hFirst' := hFirst.pad hSpace back
      rw [List.append_assoc gap, List.cons_append] at hFirst'
      have hSecond' : Spells (second ++ back) _ (tail ++ back) := hSecond.pad (List.forall_mem_nil _) back
      exact .range hFirst' hGap hSecond' (hBoth hTail)

theorem PortText.dropBlanks {t : CString} {n m : Nat} (h : PortText t n m) :
    PortText (t.dropWhile isblank) n m := by
  cases h with
  | single hNumber hTail => exact .single hNumber.dropBlanks hTail
  | range hFirst hGap hSecond hTail => exact .range hFirst.dropBlanks hGap hSecond hTail

/-- The characters of a port or range. -/
theorem PortText.mem {t : CString} {n m : Nat} (h : PortText t n m) {c : UInt8} (hc : c ∈ t) :
    isspace c = true ∨ isdigit c = true ∨ c = ch '+' ∨ c = ch '-' := by
  have hSpells : ∀ {t tail : CString} {n : Nat}, Spells t n tail → c ∈ t →
      isspace c = true ∨ isdigit c = true ∨ c = ch '+' ∨ c ∈ tail := by
    rintro t tail n ⟨space, sign, digits, rfl, hSpace, hSign, _, hDigits, _⟩ hc
    simp only [List.mem_append] at hc
    rcases hc with ((hc | hc) | hc) | hc
    · exact .inl (hSpace c hc)
    · rcases hSign with rfl | rfl
      · simp at hc
      · exact .inr (.inr (.inl (List.mem_singleton.mp hc)))
    · exact .inr (.inl (hDigits c hc))
    · exact .inr (.inr (.inr hc))
  cases h with
  | single hNumber hTail =>
      rcases hSpells hNumber hc with h | h | h | h
      · exact .inl h
      · exact .inr (.inl h)
      · exact .inr (.inr (.inl h))
      · exact .inl (hTail c h)
  | range hFirst hGap hSecond hTail =>
      rcases hSpells hFirst hc with h | h | h | h
      · exact .inl h
      · exact .inr (.inl h)
      · exact .inr (.inr (.inl h))
      · rcases List.mem_append.mp h with h | h
        · exact .inl (hGap c h)
        · rcases List.mem_cons.mp h with h | h
          · exact .inr (.inr (.inr h))
          · rcases hSpells hSecond h with h | h | h | h
            · exact .inl h
            · exact .inr (.inl h)
            · exact .inr (.inr (.inl h))
            · exact .inl (hTail c h)

/-! The readers. -/

/-- What stands in front of the tail holds no dash. -/
theorem Spells.front {t tail : CString} {n : Nat} (h : Spells t n tail) :
    ∃ front, t = front ++ tail ∧ front ≠ [] ∧ ch '-' ∉ front ∧
      ∀ tail', Spells (front ++ tail') n tail' := by
  obtain ⟨space, sign, digits, rfl, hSpace, hSign, hNe, hDigits, hValue⟩ := h
  refine ⟨space ++ sign ++ digits, rfl, by simp [hNe], ?_, fun tail' =>
    ⟨space, sign, digits, rfl, hSpace, hSign, hNe, hDigits, hValue⟩⟩
  simp only [List.mem_append, not_or]
  refine ⟨⟨fun hc => (isspace_facts (hSpace _ hc)).2.1 rfl, fun hc => ?_⟩,
    fun hc => (isdigit_facts (hDigits _ hc)).2.1 rfl⟩
  rcases hSign with rfl | rfl
  · simp at hc
  · exact absurd (List.mem_singleton.mp hc) (by decide)

theorem head_of_isspace {tail : CString} (h : ∀ c ∈ tail, isspace c = true) :
    ∀ c ∈ tail.head?, isdigit c = false :=
  fun c hc => (isspace_facts (h c (List.mem_of_mem_head? hc))).1

theorem head_of_gap {gap second : CString} (h : ∀ c ∈ gap, isspace c = true) :
    ∀ c ∈ (gap ++ ch '-' :: second).head?, isdigit c = false := by
  cases gap with
  | nil =>
      rintro c hc
      obtain rfl : ch '-' = c := by simpa using hc
      decide
  | cons g gap =>
      rintro c hc
      obtain rfl : g = c := by simpa using hc
      exact (isspace_facts (h g (by simp))).1

theorem strchr_eq_none {s : CString} {c : UInt8} (h : c ∉ s) : strchr s c = none := by
  rw [strchr, List.idxOf?_eq_none_iff]
  exact h

theorem not_dash_of_isspace {tail : CString} (h : ∀ c ∈ tail, isspace c = true) : ch '-' ∉ tail :=
  fun hc => (isspace_facts (h _ hc)).2.1 rfl

/-- `getpts` reads a port or range as it is written. -/
theorem readExpr_of_portText {t : CString} {n m : Nat} (h : PortText t n m) (hLow : 1 ≤ n)
    (hFirst : n ≤ 65535) (hLast : m ≤ 65535) : readExpr t = ((n : Int), (m : Int)) := by
  have hHead : ∀ {front tail : CString}, front ≠ [] → ch '-' ∉ front →
      (front ++ tail).head? ≠ some (ch '-') := by
    intro front tail hNe hDash hHead
    obtain ⟨c, rest, rfl⟩ := List.exists_cons_of_ne_nil hNe
    obtain rfl : c = ch '-' := by simpa using hHead
    simp at hDash
  have hOne : ¬ ((n : Int) < 1) := by omega
  cases h with
  | @single tail _ hNumber hTail =>
      obtain ⟨front, rfl, hNe, hDash, _⟩ := hNumber.front
      have hNone : strchr (front ++ tail) (ch '-') = none :=
        strchr_eq_none (by simp [hDash, not_dash_of_isspace hTail])
      simp only [readExpr, hHead hNe hDash, if_false, hNone,
        atoi_of_spells hNumber (head_of_isspace hTail) (by omega), hOne]
  | @range gap second tail _ _ hNumber hGap hSecond hTail =>
      obtain ⟨front, rfl, hNe, hDash, hSpells⟩ := hNumber.front
      have hChr : strchr (front ++ (gap ++ ch '-' :: second)) (ch '-') = some (front ++ gap).length := by
        rw [← List.append_assoc]
        exact strchr_append_cons (by simp [hDash, not_dash_of_isspace hGap]) second
      have hDrop : (front ++ (gap ++ ch '-' :: second)).drop ((front ++ gap).length + 1) = second := by
        rw [← List.append_assoc, ← List.drop_drop, List.drop_left]
        rfl
      have hSome : second ≠ [] := by
        obtain ⟨front', rfl, hNe', _⟩ := hSecond.front
        simp [hNe']
      simp only [readExpr, hHead hNe hDash, if_false, hChr, hDrop, hSome,
        atoi_of_spells hNumber (head_of_gap hGap) (by omega),
        atoi_of_spells hSecond (head_of_isspace hTail) (by omega), hOne]

/-- `port_range_ranges` reads a port or range as it is written. -/
theorem readPortRange_of_portText {t : CString} {n m : Nat} (h : PortText t n m)
    (hFirst : n ≤ 65535) (hLast : m ≤ 65535) (tcp : Bool) :
    ∃ range, readPortRange tcp t = some [range] ∧ range.start.toInt = n ∧ range.stop.toInt = m ∧
      range.type = if tcp then .tcp else .udp := by
  have hText := h.dropBlanks
  rw [readPortRange]
  generalize t.dropWhile isblank = element at hText
  cases hText with
  | @single tail _ hNumber hTail =>
      obtain ⟨front, rfl, hNe, hDash, _⟩ := hNumber.front
      have hNone : strchr (front ++ tail) (ch '-') = none :=
        strchr_eq_none (by simp [hDash, not_dash_of_isspace hTail])
      have hSome : front ++ tail ≠ [] := by simp [hNe]
      have hValue := atoi_of_spells hNumber (head_of_isspace hTail) (show n < 2 ^ 31 by omega)
      simp only [hNone, hSome, if_false]
      exact ⟨_, rfl, hValue, hValue, rfl⟩
  | @range gap second tail _ _ hNumber hGap hSecond hTail =>
      obtain ⟨front, rfl, hNe, hDash, hSpells⟩ := hNumber.front
      have hChr : strchr (front ++ (gap ++ ch '-' :: second)) (ch '-') = some (front ++ gap).length := by
        rw [← List.append_assoc]
        exact strchr_append_cons (by simp [hDash, not_dash_of_isspace hGap]) second
      have hDrop : (front ++ (gap ++ ch '-' :: second)).drop ((front ++ gap).length + 1) = second := by
        rw [← List.append_assoc, ← List.drop_drop, List.drop_left]
        rfl
      have hTake : (front ++ (gap ++ ch '-' :: second)).take (front ++ gap).length = front ++ gap := by
        rw [← List.append_assoc, List.take_left]
      have hSecond' := hSecond.dropBlanks
      have hSome : second.dropWhile isblank ≠ [] := by
        obtain ⟨front', hSplit, hNe', _⟩ := hSecond'.front
        simp [hSplit, hNe']
      simp only [hChr, hDrop, hTake, hSome, if_false]
      refine ⟨_, rfl, ?_, ?_, rfl⟩
      · exact atoi_of_spells (hSpells gap) (head_of_isspace hGap) (by omega)
      · exact atoi_of_spells hSecond' (head_of_isspace hTail) (by omega)

/-! The validator. -/

theorem readPort_spec {s rest : CString} {number : Int} (h : readPort s = some (number, rest)) :
    number ≤ 65535 ∧ (strtol s).1 = number ∧ rest = (strtol s).2.dropWhile isblank ∧
      ((∃ n : Nat, Spells s n (strtol s).2 ∧ number = n ∧ 1 ≤ n) ∨
        (number < 0 ∧ ∃ space digits, s = space ++ ch '-' :: digits ++ (strtol s).2 ∧
          (∀ c ∈ space, isspace c = true) ∧ digits ≠ [] ∧ (∀ c ∈ digits, isdigit c = true))) := by
  simp only [readPort] at h
  split at h
  · simp at h
  · rename_i hCond
    simp only [Bool.or_eq_true, decide_eq_true_eq, not_or, Bool.not_eq_true] at hCond
    obtain ⟨⟨hErange, hNe⟩, hHigh⟩ := hCond
    obtain ⟨rfl, rfl⟩ := Prod.mk.inj (Option.some.inj h)
    refine ⟨by omega, rfl, rfl, ?_⟩
    rcases spells_of_strtol hNe hErange with ⟨n, hSpells, hValue⟩ | hMinus
    · exact .inl ⟨n, hSpells, hValue, by omega⟩
    · exact .inr hMinus

/-- What follows the first `c`, by any way to write the text around it. -/
theorem drop_strchr {s front back : CString} {c : UInt8} {i : Nat} (h : strchr s c = some i)
    (hText : s = front ++ c :: back) (hFront : c ∉ front) : s.drop (i + 1) = back := by
  subst hText
  rw [strchr_append_cons hFront] at h
  rw [← Option.some.inj h, ← List.drop_drop, List.drop_left]
  rfl

/-- Blanks and what follows them. -/
theorem exists_blanks (s : CString) :
    ∃ blanks, s = blanks ++ s.dropWhile isblank ∧ ∀ c ∈ blanks, isblank c = true :=
  ⟨s.takeWhile isblank, List.takeWhile_append_dropWhile.symm, fun _ => List.mem_takeWhile_imp⟩

/-- A text that is read as a number in front of blanks only. -/
theorem portText_of_readPort {s : CString} {number : Int} (h : readPort s = some (number, []))
    (hSign : ¬ number < 0) :
    ∃ (n : Nat) (tail : CString), Spells s n tail ∧ (∀ c ∈ tail, isspace c = true) ∧ number = n ∧
      1 ≤ n ∧ n ≤ 65535 := by
  obtain ⟨hHigh, _, hRest, hCase⟩ := readPort_spec h
  rcases hCase with ⟨n, hSpells, rfl, hLow⟩ | ⟨hMinus, _⟩
  · refine ⟨n, _, hSpells, fun c hc => ?_, rfl, hLow, by omega⟩
    exact isspace_of_isblank (List.dropWhile_eq_nil_iff.mp hRest.symm c hc)
  · exact absurd hMinus hSign

/-- A first number with a minus sign leaves a dash in the second one. -/
theorem first_not_negative {element : CString} {i : Nat} {number number' : Int} {rest : CString}
    (hChr : strchr element (ch '-') = some i)
    (hFirst : readPort (element.dropWhile isblank) = some (number, rest))
    (hRest : rest.head? = some (ch '-'))
    (hSecond : readPort ((element.drop (i + 1)).dropWhile isblank) = some (number', [])) :
    ¬ number < 0 := by
  intro hNegative
  obtain ⟨_, _, hTail, hCase⟩ := readPort_spec hFirst
  rcases hCase with ⟨n, _, rfl, _⟩ | ⟨_, space, digits, hText, hSpace, hNe, hDigits⟩
  · omega
  · obtain ⟨blanks, hBlanks, hBlank⟩ := exists_blanks element
    have hSame : element =
        (blanks ++ space) ++ ch '-' :: (digits ++ (strtol (element.dropWhile isblank)).2) := by
      conv_lhs => rw [hBlanks, hText]
      simp
    have hClean : ch '-' ∉ blanks ++ space := by
      rw [List.mem_append, not_or]
      exact ⟨not_dash_of_isspace fun c hc => isspace_of_isblank (hBlank c hc), not_dash_of_isspace hSpace⟩
    have hBack := drop_strchr hChr hSame hClean
    obtain ⟨d, ds, rfl⟩ := List.exists_cons_of_ne_nil hNe
    have hDigit := hDigits d (by simp)
    have hKept : (element.drop (i + 1)).dropWhile isblank = element.drop (i + 1) := by
      rw [hBack]
      have hNotBlank : isblank d = false := by
        rw [← Bool.not_eq_true]
        intro hb
        have hNot := (isdigit_facts hDigit).1
        simp [isspace_of_isblank hb] at hNot
      simp [hNotBlank]
    have hDash : ch '-' ∈ element.drop (i + 1) := by
      have hIn : ch '-' ∈ (strtol (element.dropWhile isblank)).2 := by
        rw [hTail] at hRest
        exact (List.dropWhile_sublist _).subset (List.mem_of_mem_head? hRest)
      rw [hBack]
      exact List.mem_append_right _ hIn
    rw [hKept] at hSecond
    obtain ⟨_, _, hTail', hCase'⟩ := readPort_spec hSecond
    rcases hCase' with ⟨n, hSpells, _, _⟩ | ⟨_, space', digits', hText', hSpace', _⟩
    · obtain ⟨front, hFrontText, _, hNoDash, _⟩ := hSpells.front
      rw [hFrontText] at hDash
      rcases List.mem_append.mp hDash with hIn | hIn
      · exact hNoDash hIn
      · exact absurd (List.dropWhile_eq_nil_iff.mp hTail'.symm _ hIn) (by decide)
    · rw [hBack] at hText'
      cases space' with
      | nil =>
          obtain ⟨hHead, _⟩ := List.cons.inj hText'
          exact (isdigit_facts hDigit).2.1 hHead
      | cons g space' =>
          obtain ⟨hHead, _⟩ := List.cons.inj hText'
          have hNot := (isdigit_facts hDigit).1
          rw [hHead, hSpace' g (by simp)] at hNot
          simp at hNot

/-- What the validator accepts: a blank element, a port or a range. -/
theorem validPortElement_spec {stripped : CString} (h : validPortElement stripped = true) :
    (∀ c ∈ dropTypeSpecifier stripped, isblank c = true) ∨
      ∃ n m, PortText (dropTypeSpecifier stripped) n m ∧ 1 ≤ n ∧ n ≤ m ∧ m ≤ 65535 := by
  simp only [validPortElement] at h
  generalize dropTypeSpecifier stripped = element at *
  obtain ⟨blanks, hBlanks, hBlank⟩ := exists_blanks element
  have hSpace : ∀ c ∈ blanks, isspace c = true := fun c hc => isspace_of_isblank (hBlank c hc)
  split at h
  · rename_i i hChr
    split at h
    · rename_i number rest number' rest' hFirst hSecond
      simp only [Bool.and_eq_true, decide_eq_true_eq] at h
      obtain ⟨⟨⟨⟨_, hHead⟩, _⟩, rfl⟩, hOrder⟩ := h
      have hSign := first_not_negative hChr hFirst hHead hSecond
      obtain ⟨hHigh, _, hTail, hCase⟩ := readPort_spec hFirst
      obtain ⟨m, tail', hSpells', hTail', rfl, _, hTop⟩ := portText_of_readPort hSecond (by omega)
      rcases hCase with ⟨n, hSpells, rfl, hLow⟩ | ⟨hMinus, _⟩
      · obtain ⟨gap, hGap, hGapBlank⟩ := exists_blanks (strtol (element.dropWhile isblank)).2
        obtain ⟨more, rfl⟩ : ∃ more, rest = ch '-' :: more := by
          cases rest with
          | nil => simp at hHead
          | cons c more => exact ⟨more, by rw [Option.some.inj hHead]⟩
        rw [← hTail] at hGap
        have hGapSpace : ∀ c ∈ gap, isspace c = true := fun c hc => isspace_of_isblank (hGapBlank c hc)
        rw [hGap] at hSpells
        -- The dash behind the first number is the first dash.
        obtain ⟨front, hText, _, hNoDash, _⟩ := hSpells.front
        have hSame : element = (blanks ++ front ++ gap) ++ ch '-' :: more := by
          conv_lhs => rw [hBlanks, hText]
          simp
        have hClean : ch '-' ∉ blanks ++ front ++ gap := by
          simp [hNoDash, not_dash_of_isspace hSpace, not_dash_of_isspace hGapSpace]
        have hMore := (drop_strchr hChr hSame hClean).symm
        obtain ⟨blanks', hBlanks', hBlank'⟩ := exists_blanks (element.drop (i + 1))
        have hSecondText : Spells more m tail' := by
          rw [hMore, hBlanks']
          simpa using hSpells'.pad (fun c hc => isspace_of_isblank (hBlank' c hc)) []
        refine .inr ⟨n, m, ?_, hLow, by omega, hTop⟩
        have hRange := PortText.range hSpells hGapSpace hSecondText hTail'
        rw [hBlanks]
        simpa using hRange.pad hSpace (List.forall_mem_nil _)
      · exact absurd hMinus hSign
    · simp at h
  · rename_i hChr
    have hNoDash : ch '-' ∉ element := by
      rw [strchr, List.idxOf?_eq_none_iff] at hChr
      exact hChr
    rw [Bool.or_eq_true, decide_eq_true_eq] at h
    rcases h with hNil | hPort
    · exact .inl (List.dropWhile_eq_nil_iff.mp hNil)
    · split at hPort
      · rename_i number rest hRead
        obtain rfl : rest = [] := by simpa using hPort
        have hSign : ¬ number < 0 := by
          intro hNegative
          obtain ⟨_, _, _, hCase⟩ := readPort_spec hRead
          rcases hCase with ⟨n, _, rfl, _⟩ | ⟨_, space, digits, hText, _⟩
          · omega
          · apply hNoDash
            rw [hBlanks, hText]
            simp
        obtain ⟨n, tail, hSpells, hTail, _, hLow, hHigh⟩ := portText_of_readPort hRead hSign
        refine .inr ⟨n, n, ?_, hLow, Nat.le_refl n, hHigh⟩
        rw [hBlanks]
        simpa using (PortText.single hSpells hTail).pad hSpace (List.forall_mem_nil _)
      · simp at hPort

end Ports
