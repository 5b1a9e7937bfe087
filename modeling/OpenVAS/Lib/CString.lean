import Mathlib.Data.List.Basic
import Mathlib.Data.List.TakeWhile
import Mathlib.Tactic.IntervalCases
import Mathlib.Tactic.Ring

/-! Texts of a C program: the bytes before the terminating NUL. The functions
are those of the C library, read as functions of that byte list. -/

/-- The bytes of a C string, without the terminating NUL. -/
abbrev CString := List UInt8

/-- Texts are equal when their comparison says so. -/
instance : LawfulBEq CString := inferInstance

namespace CString

/-- The byte of an ASCII character constant. -/
def ch (c : Char) : UInt8 := c.toUInt8

/-- The bytes of an ASCII string constant. -/
def lit (s : String) : CString := s.toList.map ch

/-- Index of the first `c`; `none` is the NULL answer. -/
def strchr (s : CString) (c : UInt8) : Option Nat := s.idxOf? c

/-- Index of the last `c`; `none` is the NULL answer. -/
def strrchr (s : CString) (c : UInt8) : Option Nat :=
  (s.reverse.idxOf? c).map fun i => s.length - 1 - i

/-- Index of the first occurrence of a text; `none` is the NULL answer. -/
@[grind]
def strstr : CString → CString → Option Nat
  | [], needle => if needle = [] then some 0 else none
  | c :: rest, needle =>
      if needle.isPrefixOf (c :: rest) then some 0 else (strstr rest needle).map (· + 1)

/-- What a formatted text leaves in a buffer of `size` bytes. -/
def snprintf (size : Nat) (text : CString) : CString := text.take (size - 1)

/-- White space of the C locale. -/
def isspace (c : UInt8) : Bool := c = ch ' ' || (9 ≤ c && c ≤ 13)

def isblank (c : UInt8) : Bool := c = ch ' ' || c = 9

/-- White space of `g_ascii_isspace`, which leaves out the vertical tab. -/
def gAsciiIsspace (c : UInt8) : Bool := isspace c && c ≠ 11

/-- The text without the white space at its ends. -/
def gStrstrip (s : CString) : CString :=
  ((s.dropWhile gAsciiIsspace).reverse.dropWhile gAsciiIsspace).reverse

def newlineToComma (c : UInt8) : UInt8 := if c = ch '\n' then ch ',' else c

def isdigit (c : UInt8) : Bool := ch '0' ≤ c && c ≤ ch '9'

def isxdigit (c : UInt8) : Bool :=
  isdigit c || (ch 'a' ≤ c && c ≤ ch 'f') || (ch 'A' ≤ c && c ≤ ch 'F')

/-- Letters and digits of the C locale. -/
def isalnum (c : UInt8) : Bool :=
  isdigit c || (ch 'a' ≤ c && c ≤ ch 'z') || (ch 'A' ≤ c && c ≤ ch 'Z')

def tolower (c : UInt8) : UInt8 := if ch 'A' ≤ c && c ≤ ch 'Z' then c + 32 else c

/-- Whether `strcasecmp` returns 0. -/
def strcaseeq (s t : CString) : Bool := s.map tolower = t.map tolower

/-- The number a run of decimal digits denotes. -/
def digitsValue (digits : CString) : Nat :=
  digits.foldl (fun value c => value * 10 + (c.toNat - 48)) 0

/-- The number a hexadecimal digit of either case denotes. -/
def xdigitValue (c : UInt8) : Nat :=
  if isdigit c then c.toNat - 48 else (tolower c).toNat - 87

/-- The number a run of hexadecimal digits denotes. -/
def xdigitsValue (digits : CString) : Nat :=
  digits.foldl (fun value c => value * 16 + xdigitValue c) 0

/-- The sign in front of a number and what follows it. -/
def splitSign : CString → Bool × CString
  | [] => (false, [])
  | c :: rest =>
      if c = ch '-' then (true, rest) else if c = ch '+' then (false, rest) else (false, c :: rest)

/-- Decimal `strtol` with a 64-bit `long`: the clamped value and the rest of
the text at the end pointer. Without a digit nothing is consumed. -/
def strtol (s : CString) : Int × CString :=
  let (negative, body) := splitSign (s.dropWhile isspace)
  let digits := body.takeWhile isdigit
  if digits = [] then (0, s)
  else
    let magnitude : Int := digitsValue digits
    let value := if negative then -magnitude else magnitude
    (max (-2 ^ 63) (min (2 ^ 63 - 1) value), body.dropWhile isdigit)

/-- The digits of a number in the base that its beginning tells, as `strtoll` with
base 0 reads it: `0x` for hexadecimal and `0` for octal. -/
def autoBase (body : CString) : Nat × CString :=
  let hex := (body.drop 2).takeWhile isxdigit
  if (body.take 2).map tolower = lit "0x" ∧ hex ≠ [] then (16, hex)
  else if body.take 1 = lit "0" then (8, body.takeWhile fun c => ch '0' ≤ c && c ≤ ch '7')
  else (10, body.takeWhile isdigit)

/-- `strtoll` with base 0 and no end pointer. -/
def strtollAuto (s : CString) : Int :=
  let (negative, body) := splitSign (s.dropWhile isspace)
  let (base, digits) := autoBase body
  let magnitude : Int := digits.foldl (fun value c => value * base + xdigitValue c) (0 : Nat)
  max (-2 ^ 63) (min (2 ^ 63 - 1) (if negative then -magnitude else magnitude))

/-- The order of `strcmp`, which is that of `strcoll` in the C locale. -/
@[grind]
def strcmpLe : CString → CString → Bool
  | [], _ => true
  | _ :: _, [] => false
  | a :: as, b :: bs => a < b || a = b && strcmpLe as bs

/-- `strncmp`, of whose value only the sign is documented. -/
@[grind]
def strncmp : Nat → CString → CString → Int
  | 0, _, _ => 0
  | _ + 1, [], [] => 0
  | _ + 1, [], _ :: _ => -1
  | _ + 1, _ :: _, [] => 1
  | n + 1, a :: as, b :: bs => if a < b then -1 else if b < a then 1 else strncmp n as bs

/-- `strcmp`, which stops at the end of the longer string at the latest. -/
def strcmp (s t : CString) : Int := strncmp (max s.length t.length) s t

/-- Whether `strtol` sets `errno` because the number does not fit a `long`. -/
def strtolErange (s : CString) : Bool :=
  let (negative, body) := splitSign (s.dropWhile isspace)
  let magnitude := digitsValue (body.takeWhile isdigit)
  if negative then 2 ^ 63 < magnitude else 2 ^ 63 ≤ magnitude

/-- `atoi`, which is `strtol` cast to a 32-bit int. -/
def atoi (s : CString) : Int32 := Int32.ofInt (strtol s).1

/-- What a `%<width>u` conversion of `sscanf` stores; `none` is a matching failure. -/
def scanUnsigned (width : Nat) (s : CString) : Option Nat :=
  let (negative, body) := splitSign ((s.dropWhile isspace).take width)
  let digits := body.takeWhile isdigit
  if digits = [] then none
  else some (if negative then (2 ^ 32 - digitsValue digits) % 2 ^ 32 else digitsValue digits % 2 ^ 32)

/-- Decimal digits of a natural number. -/
def showNat (n : Nat) : CString := (Nat.toDigits 10 n).map ch

/-- The text that `%d` and `%ld` print. -/
def showInt (i : Int) : CString :=
  if i < 0 then ch '-' :: showNat i.natAbs else showNat i.natAbs

/-- The text that `%x` prints. -/
def showHex (n : Nat) : CString := (Nat.toDigits 16 n).map ch

theorem isspace_of_isblank {c : UInt8} (h : isblank c = true) : isspace c = true := by
  simp only [isblank, Bool.or_eq_true, decide_eq_true_eq] at h
  rcases h with rfl | rfl <;> decide

theorem isspace_of_gAsciiIsspace {c : UInt8} (h : gAsciiIsspace c = true) : isspace c = true := by
  rw [gAsciiIsspace, Bool.and_eq_true] at h
  exact h.1

theorem gAsciiIsspace_of_isblank {c : UInt8} (h : isblank c = true) : gAsciiIsspace c = true := by
  simp only [isblank, Bool.or_eq_true, decide_eq_true_eq] at h
  rcases h with rfl | rfl <;> decide

theorem map_newlineToComma {s : CString} (h : ch '\n' ∉ s) : s.map newlineToComma = s := by
  conv_rhs => rw [← List.map_id s]
  refine List.map_congr_left fun c hc => ?_
  rw [newlineToComma, if_neg]
  · rfl
  · rintro rfl
    exact h hc

theorem strchr_append_cons {before : CString} {c : UInt8} (h : c ∉ before) (after : CString) :
    strchr (before ++ c :: after) c = some before.length := by
  induction before with
  | nil => simp [strchr, List.idxOf?, List.findIdx?_cons]
  | cons b before ih =>
      have hb : b ≠ c := fun he => h (he ▸ List.mem_cons_self ..)
      have ih := ih fun hc => h (List.mem_cons_of_mem _ hc)
      rw [strchr, List.idxOf?] at ih ⊢
      simp [List.findIdx?_cons, hb, ih]

/-- The text around the first `c`. -/
theorem strchr_split {s : CString} {c : UInt8} {n : Nat} (h : strchr s c = some n) :
    ∃ before after, s = before ++ c :: after ∧ c ∉ before ∧ before.length = n := by
  obtain ⟨hLength, hHere, hBefore⟩ := List.idxOf?_eq_some_iff.mp h
  refine ⟨s.take n, s.drop (n + 1), ?_, ?_, List.length_take_of_le (Nat.le_of_lt hLength)⟩
  · rw [← hHere, List.getElem_cons_drop, List.take_append_drop]
  · intro hMem
    obtain ⟨j, hj, hc⟩ := List.mem_iff_getElem.mp hMem
    rw [List.getElem_take] at hc
    rw [List.length_take] at hj
    exact hBefore j (by omega) hc

theorem strrchr_append_singleton (before : CString) (c : UInt8) :
    strrchr (before ++ [c]) c = some before.length := by
  simp [strrchr, List.idxOf?, List.findIdx?_cons]

theorem strstr_lt {s needle : CString} {t : Nat} (hNeedle : needle ≠ [])
    (h : strstr s needle = some t) : t < s.length := by
  induction s generalizing t with
  | nil => simp [strstr, hNeedle] at h
  | cons c s ih =>
      rw [strstr] at h
      split at h
      · obtain rfl : 0 = t := by simpa using h
        simp
      · obtain ⟨u, hu, rfl⟩ := Option.map_eq_some_iff.mp h
        have hLt := ih hu
        simp only [List.length_cons]
        omega

/-- The text around the occurrence that `strstr` finds. -/
theorem strstr_split {s needle : CString} {i : Nat} (h : strstr s needle = some i) :
    s = s.take i ++ needle ++ s.drop (i + needle.length) := by
  induction s generalizing i with
  | nil =>
      rw [strstr] at h
      split at h
      · rename_i hNil
        simp [hNil]
      · simp at h
  | cons c s ih =>
      rw [strstr] at h
      split at h
      · rename_i hPrefix
        obtain ⟨rest, hRest⟩ := List.isPrefixOf_iff_prefix.mp hPrefix
        obtain rfl : 0 = i := by simpa using h
        simp [← hRest]
      · obtain ⟨j, hj, rfl⟩ := Option.map_eq_some_iff.mp h
        have hTail := ih hj
        rw [Nat.add_right_comm, List.take_succ_cons, List.drop_succ_cons, List.cons_append,
          List.cons_append, ← hTail]

/-- The occurrence lies inside of the text. -/
theorem strstr_end {s needle : CString} {i : Nat} (h : strstr s needle = some i) :
    i + needle.length ≤ s.length := by
  induction s generalizing i with
  | nil =>
      rw [strstr] at h
      split at h
      · rename_i hNil
        obtain rfl : 0 = i := by simpa using h
        simp [hNil]
      · cases h
  | cons c s ih =>
      rw [strstr] at h
      split at h
      · rename_i hPrefix
        obtain rfl : 0 = i := by simpa using h
        rw [Nat.zero_add]
        exact (List.isPrefixOf_iff_prefix.mp hPrefix).length_le
      · obtain ⟨j, hj, rfl⟩ := Option.map_eq_some_iff.mp h
        have hInside := ih hj
        rw [List.length_cons]
        omega

theorem strstr_isSome (before needle after : CString) :
    (strstr (before ++ needle ++ after) needle).isSome = true := by
  have hHere : (strstr (needle ++ after) needle).isSome = true := by
    cases hText : needle ++ after with
    | nil => simp [strstr, (List.append_eq_nil_iff.mp hText).1]
    | cons c rest =>
        have hPrefix : needle.isPrefixOf (c :: rest) = true := by
          rw [← hText]
          exact List.isPrefixOf_iff_prefix.mpr (List.prefix_append needle after)
        simp [strstr, hPrefix]
  rw [List.append_assoc]
  induction before with
  | nil => exact hHere
  | cons b before ih =>
      rw [List.cons_append, strstr]
      split
      · rfl
      · simpa using ih

theorem strstr_isSome_iff {s needle : CString} :
    (strstr s needle).isSome = true ↔ needle.IsInfix s := by
  constructor
  · intro h
    obtain ⟨i, hi⟩ := Option.isSome_iff_exists.mp h
    exact ⟨s.take i, s.drop (i + needle.length), (strstr_split hi).symm⟩
  · rintro ⟨before, after, rfl⟩
    exact strstr_isSome before needle after

/-- A text whose first byte is not in the front is found behind the front. -/
theorem infix_append_iff {c : UInt8} {needle front back : CString} (h : c ∉ front) :
    (c :: needle).IsInfix (front ++ back) ↔ (c :: needle).IsInfix back := by
  induction front with
  | nil => rfl
  | cons d front ih =>
      have hHead : ¬ (c :: needle).IsPrefix (d :: (front ++ back)) := by
        intro hPrefix
        obtain ⟨rfl, -⟩ := List.cons_prefix_cons.mp hPrefix
        exact h List.mem_cons_self
      rw [List.cons_append, List.infix_cons_iff, or_iff_right hHead,
        ih fun hMem => h (List.mem_cons_of_mem d hMem)]

/-- A text without the last byte is not found at the end. -/
theorem infix_concat_iff {c : UInt8} {needle text : CString} (h : c ∉ needle) :
    needle.IsInfix (text ++ [c]) ↔ needle.IsInfix text := by
  constructor
  · rintro ⟨before, after, hText⟩
    rcases List.eq_nil_or_concat' after with rfl | ⟨after, d, rfl⟩
    · rcases List.eq_nil_or_concat' needle with rfl | ⟨needle, d, rfl⟩
      · exact ⟨[], text, rfl⟩
      · rw [List.append_nil, ← List.append_assoc] at hText
        obtain ⟨-, hLast⟩ := List.append_inj' hText rfl
        obtain rfl := List.singleton_inj.mp hLast
        exact absurd (List.mem_append_right _ (List.mem_singleton_self d)) h
    · rw [← List.append_assoc] at hText
      obtain ⟨rfl, -⟩ := List.append_inj' hText rfl
      exact ⟨before, after, rfl⟩
  · rintro ⟨before, after, rfl⟩
    exact ⟨before, after ++ [c], (List.append_assoc _ _ _).symm⟩

theorem prefix_concat_iff {c : UInt8} {needle text : CString} (h : c ∉ needle) :
    needle.IsPrefix (text ++ [c]) ↔ needle.IsPrefix text := by
  constructor
  · rintro ⟨after, hText⟩
    rcases List.eq_nil_or_concat' after with rfl | ⟨after, d, rfl⟩
    · rw [List.append_nil] at hText
      exact absurd (hText ▸ List.mem_append_right text (List.mem_singleton_self c)) h
    · rw [← List.append_assoc] at hText
      obtain ⟨rfl, -⟩ := List.append_inj' hText rfl
      exact ⟨after, rfl⟩
  · exact fun hPrefix => hPrefix.trans (List.prefix_append _ _)

/-- A buffer that is large enough keeps the whole text. -/
theorem snprintf_of_lt {size : Nat} {text : CString} (h : text.length < size) :
    snprintf size text = text := List.take_of_length_le (by omega)

theorem showNat_ne_nil (n : Nat) : showNat n ≠ [] := by
  simp [showNat, Nat.toDigits_ne_nil]

theorem ch_toNat_of_isDigit {c : Char} (h : c.isDigit = true) :
    (ch c).toNat = c.toNat ∧ 48 ≤ c.toNat ∧ c.toNat ≤ 57 := by
  have hRange : 48 ≤ c.toNat ∧ c.toNat ≤ 57 := by
    simpa [Char.isDigit, UInt32.le_iff_toNat_le] using h
  refine ⟨?_, hRange⟩
  change c.val.toUInt8.toNat = c.val.toNat
  rw [UInt32.toNat_toUInt8]
  have hVal : c.val.toNat ≤ 57 := hRange.2
  omega

theorem isdigit_of_mem_showNat {n : Nat} {b : UInt8} (h : b ∈ showNat n) : isdigit b = true := by
  obtain ⟨c, hc, rfl⟩ := List.mem_map.mp h
  have hDigit := Nat.isDigit_of_mem_toDigits (by decide) (by decide) hc
  obtain ⟨hNat, hLow, hHigh⟩ := ch_toNat_of_isDigit hDigit
  simp only [isdigit, Bool.and_eq_true, decide_eq_true_eq, UInt8.le_iff_toNat_le, hNat]
  exact ⟨hLow, hHigh⟩

theorem digitsValue_append (s t : CString) :
    digitsValue (s ++ t) = digitsValue s * 10 ^ t.length + digitsValue t := by
  have hFold : ∀ (t : CString) (start : Nat),
      t.foldl (fun value c => value * 10 + (c.toNat - 48)) start =
        start * 10 ^ t.length + digitsValue t := by
    intro t
    induction t with
    | nil => simp [digitsValue]
    | cons c t ih =>
        intro start
        rw [digitsValue, List.foldl_cons, List.foldl_cons, ih, ih, List.length_cons, Nat.pow_succ]
        ring
  rw [digitsValue, List.foldl_append, hFold]
  rfl

theorem digitsValue_take_le (s : CString) (n : Nat) : digitsValue (s.take n) ≤ digitsValue s := by
  conv_rhs => rw [← List.take_append_drop n s, digitsValue_append]
  have hPos : 0 < 10 ^ (s.drop n).length := Nat.pow_pos (by decide)
  have hLe := Nat.le_mul_of_pos_right (digitsValue (s.take n)) hPos
  omega

theorem digitsValue_showNat (n : Nat) : digitsValue (showNat n) = n := by
  have hFold : ∀ (digits : List Char), (∀ c ∈ digits, c.isDigit = true) → ∀ start,
      (digits.map ch).foldl (fun value c => value * 10 + (c.toNat - 48)) start =
        Nat.ofDigitChars 10 digits start := by
    intro digits
    induction digits with
    | nil => intro _ start; rfl
    | cons c digits ih =>
        intro hAll start
        have hc := (ch_toNat_of_isDigit (hAll c (List.mem_cons_self ..))).1
        rw [List.map_cons, List.foldl_cons, ih (fun d hd => hAll d (List.mem_cons_of_mem _ hd)),
          Nat.ofDigitChars_cons, hc, Nat.mul_comm]
        rfl
  rw [digitsValue, showNat, hFold _ fun c hc => Nat.isDigit_of_mem_toDigits (by decide) (by decide) hc]
  exact Nat.ofDigitChars_ten_toDigits

theorem not_isspace_of_isdigit {b : UInt8} (h : isdigit b = true) : isspace b = false := by
  simp only [isdigit, Bool.and_eq_true, decide_eq_true_eq, UInt8.le_iff_toNat_le] at h
  have hLow : 48 ≤ b.toNat := h.1
  have hNe : b ≠ ch ' ' := by
    rintro rfl
    exact absurd hLow (by decide)
  have hHigh : ¬ b ≤ 13 := by
    rw [UInt8.le_iff_toNat_le]
    change ¬ b.toNat ≤ 13
    omega
  simp [isspace, hNe, hHigh]

/-- A printed number has only digits and a sign. -/
theorem not_mem_showInt {b : UInt8} (hDigit : isdigit b = false) (hSign : b ≠ ch '-') (i : Int) :
    b ∉ showInt i := by
  have hNat : b ∉ showNat i.natAbs := by
    intro hMem
    simp [isdigit_of_mem_showNat hMem] at hDigit
  unfold showInt
  split
  · simp [hSign, hNat]
  · exact hNat

/-- A 32-bit integer prints in at most ten digits and a sign. -/
theorem length_showInt_le (v : Int32) : (showInt v.toInt).length ≤ 11 := by
  have hLow := v.le_toInt
  have hHigh := v.toInt_lt
  have hDigits : (showNat v.toInt.natAbs).length ≤ 10 := by
    rw [showNat, List.length_map, Nat.length_toDigits_le_iff (by decide) (by decide)]
    omega
  unfold showInt
  split
  · rw [List.length_cons]
    omega
  · omega

/-- A text of digits followed by no further digit, as the scan of `strtol` reads it. -/
theorem takeWhile_isdigit_showNat (n : Nat) {rest : CString}
    (hRest : ∀ b ∈ rest.head?, isdigit b = false) :
    (showNat n ++ rest).takeWhile isdigit = showNat n ∧
      (showNat n ++ rest).dropWhile isdigit = rest := by
  have hAll : ∀ b ∈ showNat n, isdigit b = true := fun b hb => isdigit_of_mem_showNat hb
  rw [List.takeWhile_append_of_pos hAll, List.dropWhile_append_of_pos hAll]
  cases rest with
  | nil => simp
  | cons b rest =>
      have hb := hRest b rfl
      simp [hb]

theorem splitSign_showNat (n : Nat) (rest : CString) :
    splitSign (showNat n ++ rest) = (false, showNat n ++ rest) := by
  cases hText : showNat n with
  | nil => exact absurd hText (showNat_ne_nil n)
  | cons b tail =>
      have hb : isdigit b = true := isdigit_of_mem_showNat (n := n) (hText ▸ List.mem_cons_self ..)
      have hMinus : b ≠ ch '-' := by rintro rfl; exact absurd hb (by decide)
      have hPlus : b ≠ ch '+' := by rintro rfl; exact absurd hb (by decide)
      simp [splitSign, hMinus, hPlus]

theorem dropWhile_isspace_showInt (i : Int) (rest : CString) :
    (showInt i ++ rest).dropWhile isspace = showInt i ++ rest := by
  cases hText : showInt i with
  | nil =>
      unfold showInt at hText
      split at hText
      · simp at hText
      · exact absurd hText (showNat_ne_nil _)
  | cons b tail =>
      have hb : isspace b = false := by
        unfold showInt at hText
        split at hText
        · obtain ⟨rfl, _⟩ := List.cons.inj hText
          decide
        · exact not_isspace_of_isdigit
            (isdigit_of_mem_showNat (n := i.natAbs) (hText ▸ List.mem_cons_self ..))
      simp [hb]

/-- Reading back a printed number that fits a `long`; reading stops behind it. -/
theorem strtol_showInt {i : Int} (hLow : -2 ^ 63 ≤ i) (hHigh : i ≤ 2 ^ 63 - 1) {rest : CString}
    (hRest : ∀ b ∈ rest.head?, isdigit b = false) :
    strtol (showInt i ++ rest) = (i, rest) := by
  obtain ⟨hTake, hDrop⟩ := takeWhile_isdigit_showNat i.natAbs hRest
  have hSign : splitSign (showInt i ++ rest) = (decide (i < 0), showNat i.natAbs ++ rest) := by
    unfold showInt
    by_cases hNeg : i < 0
    · simp [hNeg, splitSign]
    · simp [hNeg, splitSign_showNat]
  rw [strtol, dropWhile_isspace_showInt, hSign]
  simp only [hTake, hDrop, showNat_ne_nil, if_false, digitsValue_showNat, decide_eq_true_eq]
  refine Prod.ext ?_ rfl
  by_cases hNeg : i < 0
  · simp only [hNeg, if_true]
    omega
  · simp only [hNeg, if_false]
    omega

theorem atoi_showInt (v : Int32) {rest : CString}
    (hRest : ∀ b ∈ rest.head?, isdigit b = false) :
    atoi (showInt v.toInt ++ rest) = v := by
  have hLow := v.le_toInt
  have hHigh := v.toInt_lt
  rw [atoi, strtol_showInt (by omega) (by omega) hRest]
  exact Int32.ofInt_toInt v

theorem atoi_showInt_self (v : Int32) : atoi (showInt v.toInt) = v := by
  have h := atoi_showInt v (fun b (hb : b ∈ ([] : CString).head?) => by simp at hb)
  rwa [List.append_nil] at h

theorem showHex_ne_nil (n : Nat) : showHex n ≠ [] := by
  simp [showHex, Nat.toDigits_ne_nil]

/-- A 16-bit number prints in at most four hexadecimal digits. -/
theorem length_showHex_le {n : Nat} (h : n < 65536) : (showHex n).length ≤ 4 := by
  rw [showHex, List.length_map, Nat.length_toDigits_le_iff (by decide) (by decide)]
  exact h

/-- The bytes of printed hexadecimal digits, with their values. -/
theorem digitChar_facts {d : Nat} (hd : d < 16) :
    isxdigit (ch (Nat.digitChar d)) = true ∧ tolower (ch (Nat.digitChar d)) = ch (Nat.digitChar d) ∧
      xdigitValue (ch (Nat.digitChar d)) = d := by
  interval_cases d <;> decide

/-- The last digit of a printed number and the digits in front of it. -/
theorem showHex_eq (n : Nat) :
    showHex n = if n < 16 then [ch (Nat.digitChar n)]
      else showHex (n / 16) ++ [ch (Nat.digitChar (n % 16))] := by
  rw [showHex, Nat.toDigits_eq_if (by decide)]
  split <;> simp [showHex]

theorem mem_showHex {n : Nat} {b : UInt8} (h : b ∈ showHex n) :
    ∃ d < 16, b = ch (Nat.digitChar d) := by
  induction n using Nat.strongRecOn with
  | ind n ih =>
      rw [showHex_eq] at h
      split at h
      · exact ⟨n, by omega, by simpa using h⟩
      · rcases List.mem_append.mp h with hFront | hLast
        · exact ih (n / 16) (by omega) hFront
        · exact ⟨n % 16, by omega, by simpa using hLast⟩

theorem xdigitsValue_showHex (n : Nat) : xdigitsValue (showHex n) = n := by
  induction n using Nat.strongRecOn with
  | ind n ih =>
      rw [showHex_eq]
      split
      · simp [xdigitsValue, digitChar_facts (d := n) (by omega)]
      · have hFront := ih (n / 16) (by omega)
        rw [xdigitsValue] at hFront ⊢
        rw [List.foldl_append, hFront, List.foldl_cons, List.foldl_nil,
          (digitChar_facts (d := n % 16) (by omega)).2.2]
        omega

theorem xdigitValue_lt : ∀ c : UInt8, isxdigit c = true → xdigitValue c < 16 := by
  have hAll : ∀ n < 256, isxdigit (UInt8.ofNat n) = true → xdigitValue (UInt8.ofNat n) < 16 := by
    decide +kernel
  intro c hc
  have hValue := hAll c.toNat c.toNat_lt
  rw [UInt8.ofNat_toNat] at hValue
  exact hValue hc

theorem xdigitsValue_lt {digits : CString} (h : digits.all isxdigit = true) :
    xdigitsValue digits < 16 ^ digits.length := by
  have hFold : ∀ (digits : CString), digits.all isxdigit = true → ∀ start,
      digits.foldl (fun value c => value * 16 + xdigitValue c) start <
        (start + 1) * 16 ^ digits.length := by
    intro digits
    induction digits with
    | nil => intro _ start; simp
    | cons c digits ih =>
        intro hAll start
        rw [List.all_cons, Bool.and_eq_true] at hAll
        have hc := xdigitValue_lt c hAll.1
        calc (c :: digits).foldl (fun value c => value * 16 + xdigitValue c) start
            < (start * 16 + xdigitValue c + 1) * 16 ^ digits.length := ih hAll.2 _
          _ ≤ (start + 1) * 16 * 16 ^ digits.length := Nat.mul_le_mul_right _ (by omega)
          _ = (start + 1) * 16 ^ (c :: digits).length := by
              rw [List.length_cons, Nat.pow_succ, Nat.mul_assoc, Nat.mul_comm 16]
  have hAll := hFold digits h 0
  rwa [Nat.zero_add, Nat.one_mul] at hAll

theorem strncmp_swap (n : Nat) (s t : CString) : strncmp n t s = -strncmp n s t := by
  induction n generalizing s t with
  | zero => simp [strncmp]
  | succ n ih =>
      cases s with
      | nil => cases t <;> simp [strncmp]
      | cons a s =>
          cases t with
          | nil => simp [strncmp]
          | cons b t =>
              rw [strncmp, strncmp, ih s t]
              by_cases hLt : a < b
              · rw [if_pos hLt, if_neg (UInt8.lt_asymm hLt), if_pos hLt]
                rfl
              · rw [if_neg hLt, if_neg hLt]
                by_cases hGt : b < a
                · rw [if_pos hGt, if_pos hGt]
                · rw [if_neg hGt, if_neg hGt]

theorem strncmp_eq_zero_iff {n : Nat} {s t : CString} : strncmp n s t = 0 ↔ s.take n = t.take n := by
  induction n generalizing s t with
  | zero => simp [strncmp]
  | succ n ih =>
      cases s with
      | nil => cases t <;> simp [strncmp]
      | cons a s =>
          cases t with
          | nil => simp [strncmp]
          | cons b t =>
              rw [strncmp, List.take_succ_cons, List.take_succ_cons, List.cons.injEq, ← ih]
              by_cases hEq : a = b
              · subst hEq
                simp
              · rcases UInt8.lt_or_lt_of_ne hEq with hLt | hGt
                · simp [hEq, hLt]
                · simp [hEq, UInt8.lt_asymm hGt, hGt]

theorem strcmp_swap (s t : CString) : strcmp t s = -strcmp s t := by
  rw [strcmp, strcmp, Nat.max_comm, strncmp_swap]

theorem strcmp_eq_zero_iff {s t : CString} : strcmp s t = 0 ↔ s = t := by
  rw [strcmp, strncmp_eq_zero_iff, List.take_of_length_le (Nat.le_max_left _ _),
    List.take_of_length_le (Nat.le_max_right _ _)]

theorem strcmpLe_total (s t : CString) : strcmpLe s t = true ∨ strcmpLe t s = true := by
  induction s generalizing t with
  | nil => exact .inl rfl
  | cons a s ih =>
      cases t with
      | nil => exact .inr rfl
      | cons b t =>
          simp only [strcmpLe, Bool.or_eq_true, Bool.and_eq_true, decide_eq_true_eq]
          by_cases hEq : a = b
          · subst hEq
            exact (ih t).imp (fun h => .inr ⟨rfl, h⟩) (fun h => .inr ⟨rfl, h⟩)
          · exact (UInt8.lt_or_lt_of_ne hEq).imp .inl .inl

theorem strcmpLe_trans {s t u : CString} (hst : strcmpLe s t = true) (htu : strcmpLe t u = true) :
    strcmpLe s u = true := by
  induction s generalizing t u with
  | nil => rfl
  | cons a s ih =>
      cases t with
      | nil => simp [strcmpLe] at hst
      | cons b t =>
          cases u with
          | nil => simp [strcmpLe] at htu
          | cons c u =>
              simp only [strcmpLe, Bool.or_eq_true, Bool.and_eq_true, decide_eq_true_eq] at *
              rcases hst with hab | ⟨rfl, hst⟩
              · rcases htu with hbc | ⟨rfl, -⟩
                · exact .inl (UInt8.lt_trans hab hbc)
                · exact .inl hab
              · exact htu.imp id fun h => ⟨h.1, ih hst h.2⟩

theorem strcmpLe_antisymm {s t : CString} (hst : strcmpLe s t = true) (hts : strcmpLe t s = true) :
    s = t := by
  induction s generalizing t with
  | nil =>
      cases t with
      | nil => rfl
      | cons b t => simp [strcmpLe] at hts
  | cons a s ih =>
      cases t with
      | nil => simp [strcmpLe] at hst
      | cons b t =>
          simp only [strcmpLe, Bool.or_eq_true, Bool.and_eq_true, decide_eq_true_eq] at *
          rcases hst with hab | ⟨rfl, hst⟩
          · rcases hts with hba | ⟨rfl, -⟩
            · exact absurd hba (UInt8.lt_asymm hab)
            · exact absurd hab (UInt8.lt_irrefl b)
          · rcases hts with hba | ⟨-, hts⟩
            · exact absurd hba (UInt8.lt_irrefl a)
            · rw [ih hst hts]

/-! White space at the ends. -/

/-- A text is its stripped text with white space around it. -/
theorem exists_gStrstrip (s : CString) :
    ∃ trail, s = s.takeWhile gAsciiIsspace ++ (gStrstrip s ++ trail) ∧
      ∀ c ∈ trail, gAsciiIsspace c = true := by
  let body := s.dropWhile gAsciiIsspace
  refine ⟨(body.reverse.takeWhile gAsciiIsspace).reverse, ?_, fun c hc => ?_⟩
  · have hBody : gStrstrip s ++ (body.reverse.takeWhile gAsciiIsspace).reverse = body := by
      rw [gStrstrip, ← List.reverse_append, List.takeWhile_append_dropWhile, List.reverse_reverse]
    rw [hBody]
    exact List.takeWhile_append_dropWhile.symm
  · exact List.mem_takeWhile_imp (List.mem_reverse.mp hc)

theorem gStrstrip_spec (s : CString) :
    ∃ lead trail, s = lead ++ gStrstrip s ++ trail ∧ (∀ c ∈ lead, gAsciiIsspace c = true) ∧
      ∀ c ∈ trail, gAsciiIsspace c = true := by
  obtain ⟨trail, hText, hTrail⟩ := exists_gStrstrip s
  rw [← List.append_assoc] at hText
  exact ⟨_, trail, hText, fun c hc => List.mem_takeWhile_imp hc, hTrail⟩

/-- White space at the ends is stripped. -/
theorem gStrstrip_pad {lead trail : CString} (hLead : ∀ c ∈ lead, gAsciiIsspace c = true)
    (hTrail : ∀ c ∈ trail, gAsciiIsspace c = true) (s : CString) :
    gStrstrip (lead ++ s ++ trail) = gStrstrip s := by
  rw [gStrstrip, gStrstrip, List.append_assoc, List.dropWhile_append_of_pos hLead,
    List.dropWhile_append]
  split
  · rename_i hEmpty
    rw [List.isEmpty_iff] at hEmpty
    rw [hEmpty, List.dropWhile_eq_nil_iff.mpr hTrail]
  · rw [List.reverse_append,
      List.dropWhile_append_of_pos fun c hc => hTrail c (List.mem_reverse.mp hc)]

theorem gStrstrip_eq_nil_iff (s : CString) :
    gStrstrip s = [] ↔ ∀ c ∈ s, gAsciiIsspace c = true := by
  constructor
  · intro hNil
    obtain ⟨lead, trail, hText, hLead, hTrail⟩ := gStrstrip_spec s
    rw [hText, hNil, List.append_nil]
    exact fun c hc => (List.mem_append.mp hc).elim (hLead c) (hTrail c)
  · intro hAll
    rw [gStrstrip, List.dropWhile_eq_nil_iff.mpr hAll]
    rfl

end CString
