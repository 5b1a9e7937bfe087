import Mathlib.Data.List.Induction
import OpenVAS.Lib.Bytes
import OpenVAS.Lib.CString

/-! Internet addresses and their texts: the conversions `inet_pton` and
`inet_ntop` of the C library for both address families. -/
namespace Inet

open CString

/-- An IPv6 address: sixteen bytes in network order. -/
structure In6Addr where
  s6Addr : List UInt8
  size : s6Addr.length = 16
deriving DecidableEq

/-- The number an address denotes. -/
def In6Addr.toNat (a : In6Addr) : Nat := Bytes.value a.s6Addr

/-- The address with the given bytes, when there are sixteen. -/
def In6Addr.ofBytes (bytes : List UInt8) : Option In6Addr :=
  if h : bytes.length = 16 then some ⟨bytes, h⟩ else none

/-- The address after this one; the carry is dropped at the highest one. -/
def In6Addr.next (a : In6Addr) : In6Addr where
  s6Addr := (Bytes.increment a.s6Addr).1
  size := (Bytes.length_increment a.s6Addr).trans a.size

/-- The address before this one; the borrow is dropped at the lowest one. -/
def In6Addr.previous (a : In6Addr) : In6Addr where
  s6Addr := (Bytes.decrement a.s6Addr).1
  size := (Bytes.length_decrement a.s6Addr).trans a.size

/-- The address with its last bytes overwritten and the byte in front of them edited. -/
def In6Addr.overwriteTail (a : In6Addr) (tail : Fin 16) (fill : UInt8) (edit : UInt8 → UInt8) :
    In6Addr where
  s6Addr := Bytes.overwriteTail tail fill edit a.s6Addr
  size := (Bytes.length_overwriteTail (by rw [a.size]; exact tail.isLt.le) fill edit).trans a.size

/-- Whether `memcmp` does not put the first address behind the second. -/
def In6Addr.notAfter (a b : In6Addr) : Bool := Bytes.memcmp a.s6Addr b.s6Addr ≠ .gt

/-- One number of a dotted quad: at most 255, without a leading zero. -/
def octet (s : CString) : Option UInt8 :=
  if s ≠ [] ∧ s.all isdigit ∧ (s.head? = some (ch '0') → s.length = 1) ∧ digitsValue s ≤ 255 then
    some (UInt8.ofNat (digitsValue s))
  else none

/-- The four bytes that a dotted quad writes. -/
def quad (s : CString) : Option (List UInt8) := do
  let bytes ← (s.splitOn (ch '.')).mapM octet
  if bytes.length = 4 then some bytes else none

/-- `inet_pton (AF_INET, …)`; the address in host byte order. -/
def inetPton4 (s : CString) : Option UInt32 :=
  (quad s).map fun bytes => UInt32.ofNat (Bytes.value bytes)

def dotted (bytes : List UInt8) : CString :=
  [ch '.'].intercalate (bytes.map fun b => showNat b.toNat)

/-- `inet_ntop (AF_INET, …)` of an address in host byte order. -/
def inetNtop4 (a : UInt32) : CString := dotted (Bytes.ofValue 4 a.toNat)

/-- The two bytes of a group of one to four hexadecimal digits. -/
def group (s : CString) : Option (List UInt8) :=
  if s ≠ [] ∧ s.length ≤ 4 ∧ s.all isxdigit then some (Bytes.ofValue 2 (xdigitsValue s)) else none

/-- The bytes of the groups in front of a `::`. -/
def groups (s : CString) : Option (List UInt8) :=
  if s = [] then some []
  else ((s.splitOn (ch ':')).mapM group).map List.flatten

/-- The bytes of the groups at the end of a text, where a dotted quad may stand last. -/
def lastGroups (s : CString) : Option (List UInt8) :=
  if s = [] then some []
  else do
    let parts := s.splitOn (ch ':')
    let front ← parts.dropLast.mapM group
    let last ← (group (parts.getLastD [])).or (quad (parts.getLastD []))
    some (front.flatten ++ last)

/-- `inet_pton (AF_INET6, …)`: eight groups, or fewer with one `::` for the
groups of zeros that are left out. -/
def inetPton6 (s : CString) : Option In6Addr :=
  match strstr s (lit "::") with
  | none => do In6Addr.ofBytes (← lastGroups s)
  | some i => do
      let left ← groups (s.take i)
      let right ← lastGroups (s.drop (i + 2))
      if left.length + right.length < 16 then
        In6Addr.ofBytes (left ++ List.replicate (16 - left.length - right.length) 0 ++ right)
      else none

/-- The 16-bit words of a byte string. -/
def words : List UInt8 → List Nat
  | a :: b :: rest => (a.toNat * 256 + b.toNat) :: words rest
  | _ => []

/-- Length of the run of zero words that starts at an index. -/
def zeroRun (ws : List Nat) (i : Nat) : Nat := ((ws.drop i).takeWhile (· = 0)).length

/-- Start and length of the first longest run of at least two zero words. -/
def bestRun (ws : List Nat) : Option (Nat × Nat) :=
  let best := (List.range ws.length).foldl
    (fun best i => if best.2 < zeroRun ws i then (i, zeroRun ws i) else best) (0, 0)
  if best.2 < 2 then none else some best

def colons (ws : List Nat) : CString := [ch ':'].intercalate (ws.map showHex)

/-- `inet_ntop (AF_INET6, …)`: the longest run of zero words is written `::`, and
the addresses that embed an IPv4 one end in a dotted quad. -/
def inetNtop6 (a : In6Addr) : CString :=
  let ws := words a.s6Addr
  match bestRun ws with
  | none => colons ws
  | some (base, len) =>
      if base = 0 ∧ (len = 6 ∨ (len = 5 ∧ ws[5]? = some 0xffff)) then
        lit "::" ++ (if len = 5 then lit "ffff:" else []) ++ dotted (a.s6Addr.drop 12)
      else colons (ws.take base) ++ lit "::" ++ colons (ws.drop (base + len))

/-- The IPv4-mapped IPv6 address `::ffff:a.b.c.d`. -/
def ipv4AsIpv6 (a : UInt32) : In6Addr where
  s6Addr := List.replicate 10 0 ++ [255, 255] ++ Bytes.ofValue 4 a.toNat
  size := by simp [Bytes.length_ofValue]

theorem In6Addr.toNat_injective {a b : In6Addr} (h : a.toNat = b.toNat) : a = b := by
  cases a with
  | mk as hA =>
      cases b with
      | mk bs hB =>
          obtain rfl : as = bs := Bytes.value_injective (hA.trans hB.symm) h
          rfl

theorem In6Addr.toNat_lt (a : In6Addr) : a.toNat < 2 ^ 128 := by
  have h := Bytes.value_lt a.s6Addr
  rw [a.size] at h
  exact h

theorem In6Addr.notAfter_iff (a b : In6Addr) : a.notAfter b = true ↔ a.toNat ≤ b.toNat := by
  rw [In6Addr.notAfter, Bytes.memcmp_eq_compare (a.size.trans b.size.symm), decide_eq_true_eq, ne_eq,
    Nat.compare_eq_gt, Nat.not_lt]
  rfl

/-- Counting up from any address but the highest one. -/
theorem In6Addr.toNat_next (a : In6Addr) : a.next.toNat = (a.toNat + 1) % 2 ^ 128 := by
  have hStep := Bytes.value_increment a.s6Addr
  have hLt := a.next.toNat_lt
  have hBound := a.toNat_lt
  have hPow : 256 ^ a.s6Addr.length = 2 ^ 128 := by rw [a.size]; rfl
  rw [hPow] at hStep
  simp only [In6Addr.toNat, In6Addr.next] at hLt hBound ⊢
  split at hStep
  · rw [← hStep, Nat.add_mod_right, Nat.mod_eq_of_lt hLt]
  · rw [← hStep, Nat.add_zero, Nat.mod_eq_of_lt hLt]

/-- Counting down from any address but the lowest one. -/
theorem In6Addr.toNat_previous {a : In6Addr} (h : 0 < a.toNat) :
    a.previous.toNat = a.toNat - 1 := by
  have hStep := Bytes.value_decrement a.s6Addr
  have hLt := a.previous.toNat_lt
  have hPow : 256 ^ a.s6Addr.length = 2 ^ 128 := by rw [a.size]; rfl
  rw [hPow] at hStep
  simp only [In6Addr.toNat, In6Addr.previous] at hLt h ⊢
  split at hStep <;> omega

theorem In6Addr.ofBytes_s6Addr (a : In6Addr) : In6Addr.ofBytes a.s6Addr = some a := by
  rw [In6Addr.ofBytes, dif_pos a.size]

/-- The bytes of a joined text: separators and bytes of the parts. -/
theorem mem_intercalate {sep b : UInt8} {parts : List CString}
    (h : b ∈ [sep].intercalate parts) : b = sep ∨ ∃ part ∈ parts, b ∈ part := by
  induction parts with
  | nil => simp at h
  | cons part parts ih =>
      cases parts with
      | nil => exact .inr ⟨part, by simp, by simpa using h⟩
      | cons next parts =>
          rw [List.intercalate_cons_cons, List.append_assoc, List.mem_append, List.mem_append] at h
          rcases h with hHead | hSep | hRest
          · exact .inr ⟨part, by simp, hHead⟩
          · exact .inl (by simpa using hSep)
          · rcases ih hRest with hSep | ⟨text, hText, hb⟩
            · exact .inl hSep
            · exact .inr ⟨text, List.mem_cons_of_mem part hText, hb⟩

/-- The bytes of a text in terms of its parts. -/
theorem mem_of_splitOn {sep b : UInt8} {s : CString} (h : b ∈ s) :
    b = sep ∨ ∃ part ∈ s.splitOn sep, b ∈ part := by
  apply mem_intercalate
  rwa [List.intercalate_splitOn]

/-- A conversion that succeeds on a whole list succeeds on its members. -/
theorem isSome_of_mapM {α β : Type} {f : α → Option β} {xs : List α} {ys : List β}
    (h : xs.mapM f = some ys) {x : α} (hx : x ∈ xs) : (f x).isSome = true := by
  induction xs generalizing ys with
  | nil => simp at hx
  | cons y xs ih =>
      rw [List.mapM_cons] at h
      simp only [Option.bind_eq_bind, Option.bind_eq_some_iff] at h
      obtain ⟨z, hz, zs, hzs, _⟩ := h
      rcases List.mem_cons.mp hx with rfl | hTail
      · simp [hz]
      · exact ih hzs hTail

/-! The texts of IPv4 addresses. -/

theorem isdigit_of_octet {s : CString} (h : (octet s).isSome = true) {b : UInt8} (hb : b ∈ s) :
    isdigit b = true := by
  rw [octet] at h
  split at h
  · rename_i hDigits
    exact List.all_eq_true.mp hDigits.2.1 b hb
  · simp at h

theorem mem_of_quad {s : CString} (h : (quad s).isSome = true) {b : UInt8} (hb : b ∈ s) :
    isdigit b = true ∨ b = ch '.' := by
  obtain ⟨bytes, hBytes⟩ := Option.isSome_iff_exists.mp h
  simp only [quad, Option.bind_eq_bind, Option.bind_eq_some_iff] at hBytes
  obtain ⟨octets, hOctets, _⟩ := hBytes
  rcases mem_of_splitOn hb with hDot | ⟨part, hPart, hMem⟩
  · exact .inr hDot
  · exact .inl (isdigit_of_octet (isSome_of_mapM hOctets hPart) hMem)

/-- `inet_pton` accepts only digits and dots as an IPv4 address. -/
theorem mem_of_inetPton4 {s : CString} (h : (inetPton4 s).isSome = true) {b : UInt8} (hb : b ∈ s) :
    isdigit b = true ∨ b = ch '.' :=
  mem_of_quad (by simpa [inetPton4] using h) hb

theorem octet_showNat : ∀ n < 256, octet (showNat n) = some (UInt8.ofNat n) := by
  decide +kernel

theorem quad_dotted {bytes : List UInt8} (h : bytes.length = 4) :
    quad (dotted bytes) = some bytes := by
  have hDots : ∀ part ∈ bytes.map (fun b => showNat b.toNat), ch '.' ∉ part := by
    intro part hPart hDot
    obtain ⟨b, _, rfl⟩ := List.mem_map.mp hPart
    exact absurd (isdigit_of_mem_showNat hDot) (by decide)
  have hParts : bytes.map (fun b => showNat b.toNat) ≠ [] := by
    intro hNil
    simp [List.map_eq_nil_iff.mp hNil] at h
  have hOctets : (bytes.map fun b => showNat b.toNat).mapM octet = some bytes := by
    clear h hDots hParts
    induction bytes with
    | nil => rfl
    | cons b bytes ih => simp [ih, octet_showNat b.toNat b.toNat_lt]
  rw [quad, dotted, List.splitOn_intercalate _ hDots hParts, hOctets]
  simp [h]

/-- Reading back a printed IPv4 address. -/
theorem inetPton4_inetNtop4 (a : UInt32) : inetPton4 (inetNtop4 a) = some a := by
  have hSmall : a.toNat < 256 ^ 4 := a.toNat_lt
  rw [inetPton4, inetNtop4, quad_dotted (Bytes.length_ofValue ..), Option.map_some,
    Bytes.value_ofValue hSmall, UInt32.ofNat_toNat]

/-! The texts of IPv6 addresses. -/

/-- Every colon of the text is followed in it by another byte. -/
def SingleColons : CString → Prop
  | [] => True
  | c :: rest => (c = ch ':' → ∃ d ∈ rest.head?, d ≠ ch ':') ∧ SingleColons rest

theorem strstr_of_singleColons {s : CString} (h : SingleColons s) : strstr s (lit "::") = none := by
  induction s with
  | nil => rfl
  | cons c rest ih =>
      have hNot : (lit "::").isPrefixOf (c :: rest) = false := by
        cases rest with
        | nil => simp [lit, List.isPrefixOf]
        | cons d rest =>
            by_cases hColon : c = ch ':'
            · obtain ⟨d', hd, hNe⟩ := h.1 hColon
              obtain rfl : d = d' := by simpa using hd
              simp [lit, List.isPrefixOf, Ne.symm hNe]
            · simp [lit, List.isPrefixOf, Ne.symm hColon]
      rw [strstr, hNot, ih h.2]
      rfl

theorem strstr_append_of_singleColons {s : CString} (h : SingleColons s) (rest : CString) :
    strstr (s ++ lit "::" ++ rest) (lit "::") = some s.length := by
  induction s with
  | nil => simp [lit, strstr, List.isPrefixOf]
  | cons c s ih =>
      have hNot : (lit "::").isPrefixOf (c :: (s ++ lit "::" ++ rest)) = false := by
        cases s with
        | nil =>
            have hColon : c ≠ ch ':' := by
              intro hc
              obtain ⟨d, hd, _⟩ := h.1 hc
              simp at hd
            simp [lit, List.isPrefixOf, Ne.symm hColon]
        | cons d s =>
            by_cases hColon : c = ch ':'
            · obtain ⟨d', hd, hNe⟩ := h.1 hColon
              obtain rfl : d = d' := by simpa using hd
              simp [lit, List.isPrefixOf, Ne.symm hNe]
            · simp [lit, List.isPrefixOf, Ne.symm hColon]
      rw [List.cons_append, List.cons_append, strstr, hNot, ih h.2]
      rfl

theorem colon_not_mem_showHex (w : Nat) : ch ':' ∉ showHex w := by
  intro h
  obtain ⟨d, hd, hEq⟩ := mem_showHex h
  have hDigit := (digitChar_facts hd).1
  rw [← hEq] at hDigit
  exact absurd hDigit (by decide)

theorem singleColons_of_not_mem {s : CString} (h : ch ':' ∉ s) : SingleColons s := by
  induction s with
  | nil => trivial
  | cons c s ih =>
      simp only [List.mem_cons, not_or] at h
      exact ⟨fun hc => absurd hc.symm h.1, ih h.2⟩

theorem singleColons_append {s rest : CString} (h : ch ':' ∉ s) (hRest : SingleColons rest)
    (hHead : ∃ d ∈ rest.head?, d ≠ ch ':') : SingleColons (s ++ ch ':' :: rest) := by
  induction s with
  | nil => exact ⟨fun _ => hHead, hRest⟩
  | cons c s ih =>
      simp only [List.mem_cons, not_or] at h
      exact ⟨fun hc => absurd hc.symm h.1, ih h.2⟩

theorem singleColons_colons (ws : List Nat) : SingleColons (colons ws) := by
  induction ws with
  | nil => trivial
  | cons w ws ih =>
      cases ws with
      | nil => simpa [colons] using singleColons_of_not_mem (colon_not_mem_showHex w)
      | cons w' ws =>
          have hText : colons (w :: w' :: ws) = showHex w ++ ch ':' :: colons (w' :: ws) := by
            simp [colons, List.intercalate_cons_cons]
          have hHead : ∃ d ∈ (colons (w' :: ws)).head?, d ≠ ch ':' := by
            cases hShow : showHex w' with
            | nil => exact absurd hShow (showHex_ne_nil w')
            | cons d rest =>
                refine ⟨d, ?_, ?_⟩
                · cases ws <;> simp [colons, List.intercalate_cons_cons, hShow]
                · rintro rfl
                  exact colon_not_mem_showHex w' (by simp [hShow])
          rw [hText]
          exact singleColons_append (colon_not_mem_showHex w) ih hHead

theorem group_showHex {w : Nat} (h : w < 65536) : group (showHex w) = some (Bytes.ofValue 2 w) := by
  have hDigits : (showHex w).all isxdigit = true := by
    rw [List.all_eq_true]
    intro b hb
    obtain ⟨d, hd, rfl⟩ := mem_showHex hb
    exact (digitChar_facts hd).1
  rw [group, if_pos ⟨showHex_ne_nil w, length_showHex_le h, hDigits⟩, xdigitsValue_showHex]

theorem mapM_group {ws : List Nat} (h : ∀ w ∈ ws, w < 65536) :
    (ws.map showHex).mapM group = some (ws.map (Bytes.ofValue 2)) := by
  induction ws with
  | nil => rfl
  | cons w ws ih =>
      have hTail := ih fun w' hw => h w' (List.mem_cons_of_mem w hw)
      simp [hTail, group_showHex (h w (by simp))]

theorem colons_ne_nil {ws : List Nat} (h : ws ≠ []) : colons ws ≠ [] := by
  cases ws with
  | nil => exact absurd rfl h
  | cons w ws => cases ws <;> simp [colons, List.intercalate_cons_cons, showHex_ne_nil]

theorem groups_colons {ws : List Nat} (h : ∀ w ∈ ws, w < 65536) :
    groups (colons ws) = some (ws.flatMap (Bytes.ofValue 2)) := by
  by_cases hNil : ws = []
  · subst hNil
    rfl
  · have hParts : ∀ part ∈ ws.map showHex, ch ':' ∉ part := by
      intro part hPart
      obtain ⟨w, _, rfl⟩ := List.mem_map.mp hPart
      exact colon_not_mem_showHex w
    rw [groups, if_neg (colons_ne_nil hNil), colons,
      List.splitOn_intercalate _ hParts (by simpa using hNil), mapM_group h]
    simp [List.flatMap]

/-- Groups followed by a last part that is a group or a dotted quad. -/
theorem lastGroups_append (ws : List Nat) (h : ∀ w ∈ ws, w < 65536) {part : CString}
    {bytes : List UInt8} (hColon : ch ':' ∉ part) (hNe : part ≠ [])
    (hPart : (group part).or (quad part) = some bytes) :
    lastGroups ([ch ':'].intercalate (ws.map showHex ++ [part])) =
      some (ws.flatMap (Bytes.ofValue 2) ++ bytes) := by
  have hParts : ∀ text ∈ ws.map showHex ++ [part], ch ':' ∉ text := by
    intro text hText
    rcases List.mem_append.mp hText with hFront | hLast
    · obtain ⟨w, _, rfl⟩ := List.mem_map.mp hFront
      exact colon_not_mem_showHex w
    · rwa [List.mem_singleton.mp hLast]
  have hText : [ch ':'].intercalate (ws.map showHex ++ [part]) ≠ [] := by
    cases ws with
    | nil => simpa using hNe
    | cons w ws => cases ws <;> simp [List.intercalate_cons_cons]
  rw [lastGroups, if_neg hText, List.splitOn_intercalate _ hParts (by simp)]
  simp [mapM_group h, hPart, List.flatMap]

theorem lastGroups_colons {ws : List Nat} (h : ∀ w ∈ ws, w < 65536) :
    lastGroups (colons ws) = some (ws.flatMap (Bytes.ofValue 2)) := by
  induction ws using List.reverseRecOn with
  | nil => rfl
  | append_singleton ws w _ =>
      have hGroup := group_showHex (h w (by simp))
      have hFront : ∀ w' ∈ ws, w' < 65536 := fun w' hw => h w' (by simp [hw])
      have hAll := lastGroups_append ws hFront (colon_not_mem_showHex w) (showHex_ne_nil w)
        (by rw [hGroup]; rfl)
      simpa [colons] using hAll

/-! Words and the run of zeros that is left out. -/

theorem words_lt {bs : List UInt8} {w : Nat} (h : w ∈ words bs) : w < 65536 := by
  induction bs using words.induct with
  | case1 a b rest ih =>
      rw [words, List.mem_cons] at h
      have hA := a.toNat_lt
      have hB := b.toNat_lt
      rcases h with rfl | hRest
      · omega
      · exact ih hRest
  | case2 bs hShort =>
      rw [words] at h
      · simp at h
      · exact hShort

theorem flatMap_words {bs : List UInt8} (h : bs.length % 2 = 0) :
    (words bs).flatMap (Bytes.ofValue 2) = bs := by
  induction bs using words.induct with
  | case1 a b rest ih =>
      have hPair : Bytes.ofValue 2 (a.toNat * 256 + b.toNat) = [a, b] := by
        have hValue : Bytes.value [a, b] = a.toNat * 256 + b.toNat := by simp [Bytes.value]
        rw [← hValue]
        exact Bytes.ofValue_value [a, b]
      rw [words, List.flatMap_cons, hPair, ih (by simp only [List.length_cons] at h; omega)]
      rfl
  | case2 bs hShort =>
      rcases bs with _ | ⟨a, _ | ⟨b, rest⟩⟩
      · rfl
      · simp at h
      · exact absurd rfl (hShort a b rest)

theorem length_words {bs : List UInt8} : (words bs).length = bs.length / 2 := by
  induction bs using words.induct with
  | case1 a b rest ih =>
      rw [words, List.length_cons, ih]
      simp only [List.length_cons]
      omega
  | case2 bs hShort =>
      match bs, hShort with
      | [], _ => rfl
      | [_], _ => simp [words]
      | a :: b :: rest, hShort => exact absurd rfl (hShort a b rest)

theorem bestRun_spec {ws : List Nat} {base len : Nat} (h : bestRun ws = some (base, len)) :
    2 ≤ len ∧ ws = ws.take base ++ List.replicate len 0 ++ ws.drop (base + len) := by
  have hInv : ∀ (indices : List Nat) (best : Nat × Nat),
      best.2 = 0 ∨ best.2 = zeroRun ws best.1 →
      let last := indices.foldl
        (fun best i => if best.2 < zeroRun ws i then (i, zeroRun ws i) else best) best
      last.2 = 0 ∨ last.2 = zeroRun ws last.1 := by
    intro indices
    induction indices with
    | nil => exact fun best hBest => hBest
    | cons i indices ih =>
        intro best hBest
        apply ih
        simp only
        split
        · exact .inr rfl
        · exact hBest
  have hLast := hInv (List.range ws.length) (0, 0) (.inl rfl)
  rw [bestRun] at h
  simp only at h hLast
  split at h
  · simp at h
  · rename_i hLong
    have hPair := Option.some.inj h
    rw [hPair] at hLong hLast
    simp only at hLong hLast
    have hRun : len = zeroRun ws base := hLast.resolve_left (by omega)
    refine ⟨by omega, ?_⟩
    have hZeros : (ws.drop base).takeWhile (· = 0) = List.replicate len 0 := by
      rw [List.eq_replicate_iff]
      refine ⟨hRun.symm, fun w hw => ?_⟩
      simpa using List.mem_takeWhile_imp hw
    have hSplit : ws.drop base = List.replicate len 0 ++ ws.drop (base + len) := by
      have hWhole := List.takeWhile_append_dropWhile (p := (· = 0)) (l := ws.drop base)
      have hDrop : (ws.drop base).drop len = (ws.drop base).dropWhile (· = 0) := by
        rw [← hWhole, List.drop_left' (by rw [hZeros, List.length_replicate]), hWhole]
      rw [← List.drop_drop, hDrop, ← hZeros, hWhole]
    rw [List.append_assoc, ← hSplit, List.take_append_drop]

theorem flatMap_replicate_zero (n : Nat) :
    (List.replicate n 0).flatMap (Bytes.ofValue 2) = List.replicate (2 * n) 0 := by
  induction n with
  | zero => rfl
  | succ n ih =>
      rw [List.replicate_succ, List.flatMap_cons, ih]
      rfl

theorem mem_dotted {bytes : List UInt8} {b : UInt8} (h : b ∈ dotted bytes) :
    isdigit b = true ∨ b = ch '.' := by
  rcases mem_intercalate h with rfl | ⟨part, hPart, hb⟩
  · exact .inr rfl
  · obtain ⟨x, _, rfl⟩ := List.mem_map.mp hPart
    exact .inl (isdigit_of_mem_showNat hb)

theorem dot_mem_dotted (x y : UInt8) (bytes : List UInt8) : ch '.' ∈ dotted (x :: y :: bytes) := by
  simp [dotted, List.intercalate_cons_cons]

theorem colon_not_mem_dotted (bytes : List UInt8) : ch ':' ∉ dotted bytes := by
  intro h
  rcases mem_dotted h with hDigit | hDot
  · exact absurd hDigit (by decide)
  · exact absurd hDot (by decide)

/-- A dotted quad is read as one, not as a group. -/
theorem group_or_quad_dotted {bytes : List UInt8} (h : bytes.length = 4) :
    (group (dotted bytes)).or (quad (dotted bytes)) = some bytes := by
  have hGroup : group (dotted bytes) = none := by
    match bytes, h with
    | [w, x, y, z], _ =>
        rw [group, if_neg]
        rintro ⟨_, _, hAll⟩
        have hDot := List.all_eq_true.mp hAll _ (dot_mem_dotted w x [y, z])
        exact absurd hDot (by decide)
  rw [hGroup, Option.none_or, quad_dotted h]

/-- Reading a text with a `::` in it. -/
theorem inetPton6_elided (left : CString) {right : CString} {l r : List UInt8} {n : Nat} {a : In6Addr}
    (hLeft : SingleColons left) (hL : groups left = some l) (hR : lastGroups right = some r)
    (hPos : 0 < n) (hBytes : l ++ List.replicate n 0 ++ r = a.s6Addr) :
    inetPton6 (left ++ lit "::" ++ right) = some a := by
  have hLength : l.length + n + r.length = 16 := by
    have hSize := a.size
    rw [← hBytes] at hSize
    simpa [Nat.add_assoc] using hSize
  have hTake : (left ++ lit "::" ++ right).take left.length = left := by
    rw [List.append_assoc, List.take_left]
  have hDrop : (left ++ lit "::" ++ right).drop (left.length + 2) = right := by
    rw [List.drop_left' (by simp [lit])]
  have hPad : 16 - l.length - r.length = n := by omega
  rw [inetPton6, strstr_append_of_singleColons hLeft right]
  simp only [hTake, hDrop, hL, hR, hPad, hBytes, Option.bind_eq_bind, Option.bind_some,
    In6Addr.ofBytes_s6Addr]
  rw [if_pos (by omega)]

/-- Reading back a printed IPv6 address. -/
theorem inetPton6_inetNtop6 (a : In6Addr) : inetPton6 (inetNtop6 a) = some a := by
  have hWords : ∀ w ∈ words a.s6Addr, w < 65536 := fun w => words_lt
  have hBytes : (words a.s6Addr).flatMap (Bytes.ofValue 2) = a.s6Addr :=
    flatMap_words (by rw [a.size])
  rw [inetNtop6]
  cases hRun : bestRun (words a.s6Addr) with
  | none =>
      simp only [inetPton6, strstr_of_singleColons (singleColons_colons _),
        lastGroups_colons hWords, hBytes, Option.bind_eq_bind, Option.bind_some,
        In6Addr.ofBytes_s6Addr]
  | some run =>
      obtain ⟨base, len⟩ := run
      obtain ⟨hLong, hSplit⟩ := bestRun_spec hRun
      have hParts : ((words a.s6Addr).take base).flatMap (Bytes.ofValue 2) ++
          List.replicate (2 * len) 0 ++
            ((words a.s6Addr).drop (base + len)).flatMap (Bytes.ofValue 2) = a.s6Addr := by
        rw [← flatMap_replicate_zero, ← List.flatMap_append, ← List.flatMap_append, ← hSplit, hBytes]
      have hQuad : (a.s6Addr.drop 12).length = 4 := by rw [List.length_drop, a.size]
      have hPart := group_or_quad_dotted hQuad
      have hNe : dotted (a.s6Addr.drop 12) ≠ [] := by
        intro hNil
        rw [hNil] at hPart
        simp [group, quad, octet] at hPart
      simp only
      split
      · rename_i hEmbed
        obtain ⟨rfl, hLen⟩ := hEmbed
        rw [List.take_zero, List.flatMap_nil, List.nil_append, Nat.zero_add] at hParts
        rcases hLen with rfl | ⟨rfl, hWord⟩
        · have hRight := lastGroups_append [] (by simp) (colon_not_mem_dotted _) hNe hPart
          simp only [List.map_nil, List.nil_append, List.intercalate_singleton, List.flatMap_nil]
            at hRight
          refine inetPton6_elided [] trivial rfl hRight (n := 12) (by decide) ?_
          nth_rewrite 1 [← hParts]
          rw [List.drop_left' (by simp)]
          exact hParts
        · have hDrop : (words a.s6Addr).drop 5 = 0xffff :: (words a.s6Addr).drop 6 := by
            obtain ⟨hIndex, hGet⟩ := List.getElem?_eq_some_iff.mp hWord
            rw [List.drop_eq_getElem_cons hIndex, hGet]
          have hRight := lastGroups_append [0xffff] (by simp) (colon_not_mem_dotted _) hNe
            hPart
          have hText : [ch ':'].intercalate ([0xffff].map showHex ++ [dotted (a.s6Addr.drop 12)]) =
              lit "ffff:" ++ dotted (a.s6Addr.drop 12) := by
            have hMapped : showHex 0xffff ++ [ch ':'] = lit "ffff:" := by decide
            rw [← hMapped]
            simp [List.intercalate_cons_cons]
          rw [hText] at hRight
          rw [hDrop, List.flatMap_cons, ← List.append_assoc] at hParts
          rw [if_pos rfl, List.append_assoc]
          refine inetPton6_elided [] trivial rfl hRight (n := 10) (by decide) ?_
          rw [List.nil_append, ← List.append_assoc]
          nth_rewrite 1 [← hParts]
          rw [List.drop_left' (by simp [Bytes.length_ofValue])]
          exact hParts
      · exact inetPton6_elided _ (singleColons_colons _)
          (groups_colons fun w hw => hWords w (List.mem_of_mem_take hw))
          (lastGroups_colons fun w hw => hWords w (List.mem_of_mem_drop hw)) (by omega) hParts

theorem isxdigit_of_isdigit {b : UInt8} (h : isdigit b = true) : isxdigit b = true := by
  simp [isxdigit, h]

theorem isxdigit_of_group {s : CString} (h : (group s).isSome = true) {b : UInt8} (hb : b ∈ s) :
    isxdigit b = true := by
  rw [group] at h
  split at h
  · rename_i hDigits
    exact List.all_eq_true.mp hDigits.2.2 b hb
  · simp at h

theorem mem_of_groups {s : CString} (h : (groups s).isSome = true) {b : UInt8} (hb : b ∈ s) :
    isxdigit b = true ∨ b = ch ':' ∨ b = ch '.' := by
  rw [groups, if_neg (List.ne_nil_of_mem hb), Option.isSome_map] at h
  obtain ⟨parts, hParts⟩ := Option.isSome_iff_exists.mp h
  rcases mem_of_splitOn hb with hColon | ⟨part, hPart, hMem⟩
  · exact .inr (.inl hColon)
  · exact .inl (isxdigit_of_group (isSome_of_mapM hParts hPart) hMem)

theorem mem_of_lastGroups {s : CString} (h : (lastGroups s).isSome = true) {b : UInt8}
    (hb : b ∈ s) : isxdigit b = true ∨ b = ch ':' ∨ b = ch '.' := by
  obtain ⟨bytes, hBytes⟩ := Option.isSome_iff_exists.mp h
  rw [lastGroups, if_neg (List.ne_nil_of_mem hb)] at hBytes
  simp only [Option.bind_eq_bind, Option.bind_eq_some_iff] at hBytes
  obtain ⟨front, hFront, last, hLast, _⟩ := hBytes
  rcases mem_of_splitOn hb with hColon | ⟨part, hPart, hMem⟩
  · exact .inr (.inl hColon)
  · have hNe : s.splitOn (ch ':') ≠ [] := List.ne_nil_of_mem hPart
    rw [← List.dropLast_concat_getLast hNe] at hPart
    rcases List.mem_append.mp hPart with hInit | hEnd
    · exact .inl (isxdigit_of_group (isSome_of_mapM hFront hInit) hMem)
    · have hEq : part = (s.splitOn (ch ':')).getLastD [] := by
        rw [List.mem_singleton.mp hEnd, List.getLastD_eq_getLast?, List.getLast?_eq_some_getLast hNe]
        rfl
      rw [← hEq] at hLast
      cases hGroup : group part with
      | some _ => exact .inl (isxdigit_of_group (by rw [hGroup]; rfl) hMem)
      | none =>
          rw [hGroup, Option.none_or] at hLast
          rcases mem_of_quad (by rw [hLast]; rfl) hMem with hDigit | hDot
          · exact .inl (isxdigit_of_isdigit hDigit)
          · exact .inr (.inr hDot)

/-- `inet_pton` accepts only hexadecimal digits, colons and dots as an IPv6 address. -/
theorem mem_of_inetPton6 {s : CString} (h : (inetPton6 s).isSome = true) {b : UInt8} (hb : b ∈ s) :
    isxdigit b = true ∨ b = ch ':' ∨ b = ch '.' := by
  obtain ⟨a, ha⟩ := Option.isSome_iff_exists.mp h
  rw [inetPton6] at ha
  split at ha
  · simp only [Option.bind_eq_bind, Option.bind_eq_some_iff] at ha
    obtain ⟨bytes, hBytes, _⟩ := ha
    exact mem_of_lastGroups (by rw [hBytes]; rfl) hb
  · rename_i i hFind
    simp only [Option.bind_eq_bind, Option.bind_eq_some_iff] at ha
    obtain ⟨left, hLeft, right, hRight, _⟩ := ha
    rw [strstr_split hFind, List.mem_append, List.mem_append] at hb
    rcases hb with (hFront | hColons) | hBack
    · exact mem_of_groups (by rw [hLeft]; rfl) hFront
    · exact .inr (.inl (by simpa [lit] using hColons))
    · have hRest : b ∈ s.drop (i + 2) := hBack
      exact mem_of_lastGroups (by rw [hRight]; rfl) hRest

theorem tolower_of_isdigit {b : UInt8} (h : isdigit b = true) : tolower b = b := by
  simp only [isdigit, Bool.and_eq_true, decide_eq_true_eq, UInt8.le_iff_toNat_le] at h
  have hDigit : b.toNat ≤ 57 := h.2
  have hSmall : ¬ ch 'A' ≤ b := by
    rw [UInt8.le_iff_toNat_le]
    change ¬ 65 ≤ b.toNat
    omega
  simp [tolower, hSmall]

theorem tolower_of_mem_dotted {bytes : List UInt8} {b : UInt8} (h : b ∈ dotted bytes) :
    tolower b = b := by
  rcases mem_dotted h with hDigit | rfl
  · exact tolower_of_isdigit hDigit
  · decide

theorem tolower_of_mem_colons {ws : List Nat} {b : UInt8} (h : b ∈ colons ws) : tolower b = b := by
  rcases mem_intercalate h with rfl | ⟨part, hPart, hb⟩
  · decide
  · obtain ⟨w, _, rfl⟩ := List.mem_map.mp hPart
    obtain ⟨d, hd, rfl⟩ := mem_showHex hb
    exact (digitChar_facts hd).2.1

/-- Printed addresses have no capital letters. -/
theorem map_tolower_inetNtop4 (a : UInt32) : (inetNtop4 a).map tolower = inetNtop4 a := by
  conv_rhs => rw [← List.map_id (inetNtop4 a)]
  exact List.map_congr_left fun b hb => tolower_of_mem_dotted hb

theorem map_tolower_inetNtop6 (a : In6Addr) : (inetNtop6 a).map tolower = inetNtop6 a := by
  conv_rhs => rw [← List.map_id (inetNtop6 a)]
  apply List.map_congr_left
  intro b hb
  have hColons : ∀ c ∈ lit "::", tolower c = c := by decide +kernel
  have hMapped : ∀ c ∈ lit "ffff:", tolower c = c := by decide +kernel
  simp only [inetNtop6] at hb
  split at hb
  · exact tolower_of_mem_colons hb
  · split at hb
    · rw [List.mem_append, List.mem_append] at hb
      rcases hb with (hFront | hWord) | hQuad
      · exact hColons b hFront
      · split at hWord
        · exact hMapped b hWord
        · simp at hWord
      · exact tolower_of_mem_dotted hQuad
    · rw [List.mem_append, List.mem_append] at hb
      rcases hb with (hLeft | hMiddle) | hRight
      · exact tolower_of_mem_colons hLeft
      · exact hColons b hMiddle
      · exact tolower_of_mem_colons hRight

theorem colon_mem_inetNtop6 (a : In6Addr) : ch ':' ∈ inetNtop6 a := by
  have hColons : ch ':' ∈ lit "::" := by decide
  simp only [inetNtop6]
  split
  · have hLength : (words a.s6Addr).length = 8 := by rw [length_words, a.size]
    match words a.s6Addr, hLength with
    | w :: w' :: ws, _ => simp [colons, List.intercalate_cons_cons]
  · split
    · simp only [List.mem_append]
      exact .inl (.inl hColons)
    · simp only [List.mem_append]
      exact .inl (.inr hColons)

theorem colon_not_mem_inetNtop4 (a : UInt32) : ch ':' ∉ inetNtop4 a := colon_not_mem_dotted _

theorem inetNtop4_injective {a b : UInt32} (h : inetNtop4 a = inetNtop4 b) : a = b := by
  have hRead := inetPton4_inetNtop4 a
  rw [h, inetPton4_inetNtop4] at hRead
  exact (Option.some.inj hRead).symm

theorem inetNtop6_injective {a b : In6Addr} (h : inetNtop6 a = inetNtop6 b) : a = b := by
  have hRead := inetPton6_inetNtop6 a
  rw [h, inetPton6_inetNtop6] at hRead
  exact (Option.some.inj hRead).symm

/-! The conversions `inet_aton` and `inet_ntoa`. -/

/-- `strtoul` with base 0 on a text that starts with a digit: the number and the text behind it. -/
def strtoulAuto (s : CString) : Nat × CString :=
  let (base, digits) := autoBase s
  (digits.foldl (fun value c => value * base + xdigitValue c) 0,
    s.drop ((if base = 16 then 2 else 0) + digits.length))

/-- The numbers behind the first `bytes` of an address. The last number fills the bytes that
are left; white space may follow it. -/
def inetAtonFrom : Nat → List UInt8 → CString → Option (List UInt8)
  | left, bytes, s =>
      if s.head?.any isdigit then
        let (val, endp) := strtoulAuto s
        if 0xffffffff < val then none
        else if endp.head? = some (ch '.') then
          match left with
          | 0 => none
          | left + 1 =>
              if 0xff < val then none
              else inetAtonFrom left (bytes ++ [UInt8.ofNat val]) (endp.drop 1)
        else if endp.head?.all isspace ∧ val < 256 ^ (left + 1) then
          some (bytes ++ Bytes.ofValue (left + 1) val)
        else none
      else none

/-- `inet_aton`; the four bytes of the address in network order. -/
def inetAton (s : CString) : Option (List UInt8) := inetAtonFrom 3 [] s

/-- `inet_ntoa`. -/
def inetNtoa (bytes : List UInt8) : CString := dotted bytes

theorem length_inetAtonFrom {left : Nat} {bytes address : List UInt8} {s : CString}
    (h : inetAtonFrom left bytes s = some address) : address.length = bytes.length + left + 1 := by
  induction left generalizing bytes s with
  | zero =>
      unfold inetAtonFrom at h
      split at h
      · dsimp only at h
        split at h
        · cases h
        · split at h
          · cases h
          · split at h
            · obtain rfl := Option.some.inj h
              rw [List.length_append, Bytes.length_ofValue]
            · cases h
      · cases h
  | succ left ih =>
      unfold inetAtonFrom at h
      split at h
      · dsimp only at h
        split at h
        · cases h
        · split at h
          · split at h
            · cases h
            · rw [ih h, List.length_append, List.length_singleton]
              omega
          · split at h
            · obtain rfl := Option.some.inj h
              rw [List.length_append, Bytes.length_ofValue]
              omega
            · cases h
      · cases h

theorem length_inetAton {address : List UInt8} {s : CString} (h : inetAton s = some address) :
    address.length = 4 := length_inetAtonFrom h

theorem length_inetNtoa (a b c d : UInt8) : (inetNtoa [a, b, c, d]).length ≤ 15 := by
  have hByte : ∀ n < 256, (showNat n).length ≤ 3 := by decide +kernel
  have ha := hByte a.toNat a.toNat_lt
  have hb := hByte b.toNat b.toNat_lt
  have hc := hByte c.toNat c.toNat_lt
  have hd := hByte d.toNat d.toNat_lt
  simp only [inetNtoa, dotted, List.intercalate, List.map_cons, List.map_nil, List.intersperse,
    List.flatten_cons, List.flatten_nil, List.length_append, List.length_cons, List.length_nil]
  omega

end Inet
