import OpenVAS.Text.Basic

/-! `split`. The places are numbers without an upper end, where the source has `int`. -/
namespace Text

open CString Packets

/-- The elements from the place `i` on. -/
def sepLoop (str sep : CString) (keep : Int32) : Nat → Nat → Option (List CString)
  | 0, _ => none
  | fuel + 1, i =>
      match memmem (str.drop i) sep with
      | none => some [str.drop i]
      | some l =>
          let piece := (str.drop i).take (if keep ≠ 0 then l + sep.length else l)
          let i := i + l + sep.length
          if i ≥ str.length then some [piece]
          else (sepLoop str sep keep fuel i).map (piece :: ·)

/-- The elements from the place `i0` on, of which the text up to `i` has been seen. -/
def lineLoop (str : CString) (len : Nat) (keep : Int32) : Nat → Nat → Nat → Option (List CString)
  | 0, _, _ => none
  | fuel + 1, i0, i =>
      if i < len then
        if byteAt str i = ch '\r' ∧ byteAt str (i + 1) = ch '\n' then
          let i := i + 1
          let piece := (str.drop i0).take (if keep ≠ 0 then i - i0 + 1 else i - i0 - 1)
          (lineLoop str len keep fuel (i + 1) (i + 1)).map (piece :: ·)
        else if byteAt str i = ch '\n' then
          let piece := (str.drop i0).take (if keep ≠ 0 then i - i0 + 1 else i - i0)
          (lineLoop str len keep fuel (i + 1) (i + 1)).map (piece :: ·)
        else lineLoop str len keep fuel i0 (i + 1)
      else if i > i0 then some [(str.drop i0).take (i - i0)]
      else some []

/-- The elements of the array; `some none` is NULL. -/
def naslSplit (lexic : Lexic) : Option (Option (List CString)) :=
  match getStrVarByNum lexic 0 with
  | none => some none
  | some str =>
      let len := sizeOr str (getVarSizeByNum lexic 0)
      if len = 0 then some none
      else
        let keep := getIntLocalVarByName lexic "keep" 1
        match getStrLocalVarByName lexic "sep" with
        | some sep =>
            let sepLen := sizeOr sep (getLocalVarSizeByName lexic "sep")
            if sepLen = 0 then some none
            else (sepLoop (str.take len) (sep.take sepLen) keep (len + 1) 0).map some
        | none => (lineLoop str len keep (len + 1) 0 0).map some

/-! What is to come out. -/

/-- None of these stands in the text but at its end. -/
def OnlyAtEnd (ends : List CString) (piece : CString) : Prop :=
  ∀ sep ∈ ends, ∀ before after, piece = before ++ sep ++ after → after = []

/-- The text ends in one of these, and there is none before. -/
structure EndsIn (ends : List CString) (piece : CString) : Prop where
  last : ∃ sep ∈ ends, sep <:+ piece
  only : OnlyAtEnd ends piece

/-- The text without the first of these that it ends in. -/
def withoutEnd (ends : List CString) (piece : CString) : CString :=
  match ends.find? (·.isSuffixOf piece) with
  | some sep => piece.take (piece.length - sep.length)
  | none => piece

def lineEnds : List CString := [lit "\r\n", lit "\n"]

/-- The texts where a piece ends; without a separator these are the line ends. -/
def endsOf (sep : Option CString) : List CString := sep.elim lineEnds fun sep => [sep]

/-- The pieces make up the text, and each but the last one ends where it should; the last one has
an end nowhere else either. -/
structure Pieces (ends : List CString) (text : CString) (pieces : List CString) : Prop where
  flatten : pieces.flatten = text
  ended : ∀ piece ∈ pieces.dropLast, EndsIn ends piece
  last : ∀ piece ∈ pieces.getLast?, OnlyAtEnd ends piece

theorem Pieces.cons {ends : List CString} {piece text : CString} {pieces : List CString}
    (hPiece : EndsIn ends piece) (h : Pieces ends text pieces) :
    Pieces ends (piece ++ text) (piece :: pieces) := by
  refine ⟨by rw [List.flatten_cons, h.flatten], fun p hMem => ?_, fun p hMem => ?_⟩
  · cases pieces with
    | nil => cases hMem
    | cons next pieces =>
        rw [List.dropLast_cons_cons] at hMem
        rcases List.mem_cons.mp hMem with rfl | hTail
        · exact hPiece
        · exact h.ended p hTail
  · cases pieces with
    | nil =>
        obtain rfl : piece = p := by simpa using hMem
        exact hPiece.only
    | cons next pieces =>
        rw [List.getLast?_cons_cons] at hMem
        exact h.last p hMem

theorem Pieces.singleton {ends : List CString} {text : CString} (h : OnlyAtEnd ends text) :
    Pieces ends text [text] := by
  refine ⟨by simp, (fun _ hMem => nomatch hMem), fun piece hMem => ?_⟩
  obtain rfl : text = piece := by simpa using hMem
  exact h

theorem Pieces.nil (ends : List CString) : Pieces ends [] [] :=
  ⟨rfl, (fun _ hMem => nomatch hMem), fun _ hMem => nomatch hMem⟩

/-- What comes back with and without the ends. -/
def kept (ends : List CString) (keep : Int32) (pieces : List CString) : List CString :=
  if keep ≠ 0 then pieces else pieces.map (withoutEnd ends)

theorem kept_cons (ends : List CString) (keep : Int32) (piece : CString) (pieces : List CString) :
    kept ends keep (piece :: pieces) =
      (if keep ≠ 0 then piece else withoutEnd ends piece) :: kept ends keep pieces := by
  unfold kept
  split <;> rfl

/-! A separator. -/

theorem withoutEnd_append (front sep : CString) (ends : List CString) :
    withoutEnd (sep :: ends) (front ++ sep) = front := by
  have hSuffix : sep.isSuffixOf (front ++ sep) = true :=
    List.isSuffixOf_iff_suffix.mpr (List.suffix_append front sep)
  simp [withoutEnd, hSuffix]

theorem withoutEnd_skip {sep piece : CString} (h : ¬ sep <:+ piece) (ends : List CString) :
    withoutEnd (sep :: ends) piece = withoutEnd ends piece := by
  have hNot : ¬ sep.isSuffixOf piece = true := fun hSuffix => h (List.isSuffixOf_iff_suffix.mp hSuffix)
  simp [withoutEnd, hNot]

theorem withoutEnd_of_none {ends : List CString} {piece : CString} (h : ∀ sep ∈ ends, ¬ sep <:+ piece) :
    withoutEnd ends piece = piece := by
  have hNone : ends.find? (·.isSuffixOf piece) = none := by
    rw [List.find?_eq_none]
    intro sep hMem
    rw [List.isSuffixOf_iff_suffix]
    exact h sep hMem
  rw [withoutEnd, hNone]

/-- Up to the first occurrence. -/
theorem endsIn_first {text sep : CString} {l : Nat} (h : memmem text sep = some l) :
    EndsIn [sep] (text.take l ++ sep) := by
  constructor
  · exact ⟨sep, List.mem_singleton_self sep, List.suffix_append _ _⟩
  · intro sep' hSep before after hPiece
    rw [List.mem_singleton] at hSep
    subst hSep
    have hText := strstr_split h
    rw [hPiece, List.append_assoc (before ++ sep')] at hText
    rw [hText] at h
    have hLe := memmem_le h
    have hInside := strstr_end h
    have hLength := congrArg List.length hPiece
    rw [List.length_append, List.length_append, List.length_append, List.length_take] at hLength
    rw [List.length_append, List.length_append, List.length_append] at hInside
    exact List.eq_nil_of_length_eq_zero (by omega)

theorem sepLoop_pieces {str sep : CString} (hSep : sep ≠ []) {fuel i : Nat}
    (hFuel : str.length - i < fuel) :
    ∃ pieces, Pieces [sep] (str.drop i) pieces ∧
      ∀ keep, sepLoop str sep keep fuel i = some (kept [sep] keep pieces) := by
  induction fuel generalizing i with
  | zero => omega
  | succ fuel ih =>
      simp only [sepLoop]
      cases hFirst : memmem (str.drop i) sep with
      | none =>
          have hNone : ∀ s ∈ [sep], ¬ s <:+: str.drop i := by
            intro s hMem hInfix
            rw [List.mem_singleton.mp hMem] at hInfix
            have hSome := strstr_isSome_iff.mpr hInfix
            rw [memmem] at hFirst
            rw [hFirst] at hSome
            cases hSome
          have hOnly : OnlyAtEnd [sep] (str.drop i) := fun s hMem before after hText =>
            absurd ⟨before, after, hText.symm⟩ (hNone s hMem)
          refine ⟨[str.drop i], Pieces.singleton hOnly, fun keep => ?_⟩
          rw [kept_cons, withoutEnd_of_none fun s hMem hSuffix => hNone s hMem hSuffix.isInfix, ite_self]
          simp [kept]
      | some l =>
          have hSplit := strstr_split hFirst
          have hEnds := endsIn_first hFirst
          have hInside := strstr_end hFirst
          have hLength := List.length_pos_iff.mpr hSep
          rw [List.length_drop] at hInside
          rw [List.drop_drop, ← Nat.add_assoc] at hSplit
          have hCut : ((str.drop i).take l ++ sep).length = l + sep.length := by
            rw [List.length_append, List.length_take, List.length_drop]
            omega
          generalize hTake : (str.drop i).take l = front at hSplit hEnds hCut ⊢
          have hFront : (str.drop i).take (l + sep.length) = front ++ sep := by
            rw [hSplit, ← hCut, List.take_left]
          have hPiece : ∀ keep : Int32, (str.drop i).take (if keep ≠ 0 then l + sep.length else l) =
              if keep ≠ 0 then front ++ sep else withoutEnd [sep] (front ++ sep) := by
            intro keep
            rw [withoutEnd_append]
            split
            · exact hFront
            · exact hTake
          simp only [hPiece]
          split
          · rename_i hEnd
            rw [List.drop_of_length_le hEnd, List.append_nil] at hSplit
            refine ⟨[str.drop i], Pieces.singleton (hSplit ▸ hEnds.only), fun keep => ?_⟩
            rw [kept_cons, ← hSplit]
            simp [kept]
          · obtain ⟨pieces, hPieces, hLoop⟩ := @ih (i + l + sep.length) (by omega)
            refine ⟨(front ++ sep) :: pieces, ?_, fun keep => ?_⟩
            · rw [hSplit]
              exact hPieces.cons hEnds
            · rw [hLoop keep, kept_cons]
              rfl

/-! Lines. -/

theorem mem_lineEnds {sep : CString} (h : sep ∈ lineEnds) : ∃ front, sep = front ++ lit "\n" := by
  rcases List.mem_cons.mp h with rfl | hSecond
  · exact ⟨lit "\r", rfl⟩
  · exact ⟨[], List.mem_singleton.mp hSecond⟩

/-- A line is what comes up to the first line feed. -/
theorem endsIn_line {front : CString} (h : ch '\n' ∉ front) : EndsIn lineEnds (front ++ lit "\n") := by
  constructor
  · exact ⟨lit "\n", List.mem_cons_of_mem _ List.mem_cons_self, List.suffix_append _ _⟩
  · intro sep hMem before after hPiece
    obtain ⟨sep, rfl⟩ := mem_lineEnds hMem
    rcases List.eq_nil_or_concat after with rfl | ⟨after, last, rfl⟩
    · rfl
    · rw [List.concat_eq_append, ← List.append_assoc] at hPiece
      have hFront := (List.append_inj' hPiece rfl).1
      exact absurd (by rw [hFront]; simp [lit]) h

theorem withoutEnd_crlf (front : CString) : withoutEnd lineEnds (front ++ lit "\r\n") = front :=
  withoutEnd_append front _ _

theorem withoutEnd_lf {front : CString} (h : front.getLast? ≠ some (ch '\r')) :
    withoutEnd lineEnds (front ++ lit "\n") = front := by
  have hNot : ¬ lit "\r\n" <:+ front ++ lit "\n" := by
    rintro ⟨before, hBefore⟩
    have hSame : before ++ lit "\r" ++ lit "\n" = front ++ lit "\n" := by rw [← hBefore, List.append_assoc]; rfl
    have hFront := (List.append_inj' hSame rfl).1
    exact h (by rw [← hFront]; simp [lit])
  rw [lineEnds, withoutEnd_skip hNot]
  exact withoutEnd_append front _ _

theorem withoutEnd_open {front : CString} (h : ch '\n' ∉ front) : withoutEnd lineEnds front = front := by
  refine withoutEnd_of_none fun sep hMem hSuffix => ?_
  obtain ⟨sep, rfl⟩ := mem_lineEnds hMem
  obtain ⟨before, rfl⟩ := hSuffix
  exact h (by simp [lit])

/-- A line without line feed has no end. -/
theorem onlyAtEnd_open {front : CString} (h : ch '\n' ∉ front) : OnlyAtEnd lineEnds front := by
  intro sep hMem before after hText
  obtain ⟨sep, rfl⟩ := mem_lineEnds hMem
  exact absurd (by rw [hText]; simp [lit]) h

theorem byteAt_append (before rest : CString) (i : Nat) :
    byteAt (before ++ rest) (before.length + i) = byteAt rest i := by
  rw [byteAt, byteAt, List.getD_eq_getElem?_getD, List.getD_eq_getElem?_getD,
    List.getElem?_append_right (Nat.le_add_right _ _), Nat.add_sub_cancel_left]

/-- A piece of a text between two places. -/
theorem slice_append (before piece rest : CString) {n : Nat} (h : n = piece.length) :
    ((before ++ (piece ++ rest)).drop before.length).take n = piece := by
  rw [List.drop_left, h, List.take_left]

/-- The line up to a line feed has been seen in part; the return of a line end not alone. -/
structure Seen (str before front rest : CString) : Prop where
  text : str = before ++ (front ++ rest)
  line : ch '\n' ∉ front
  whole : front.getLast? = some (ch '\r') → rest.head? ≠ some (ch '\n')

theorem Seen.byteAt {str before front rest : CString} (h : Seen str before front rest) (i : Nat) :
    Text.byteAt str (before.length + front.length + i) = Text.byteAt rest i := by
  rw [h.text, ← List.append_assoc, ← List.length_append, byteAt_append]

/-- Behind a line a new one starts. -/
theorem Seen.start {str before piece rest : CString} (h : str = before ++ (piece ++ rest)) :
    Seen str (before ++ piece) [] rest :=
  ⟨by rw [h, List.nil_append, List.append_assoc], List.not_mem_nil, fun hNone => nomatch hNone⟩

theorem Seen.length {str before front rest : CString} (h : Seen str before front rest) :
    str.length = before.length + front.length + rest.length := by
  rw [h.text, List.length_append, List.length_append, Nat.add_assoc]

/-! What a round does with the byte that comes next. -/

theorem lineLoop_end {str before front : CString} (h : Seen str before front []) (keep : Int32) (fuel : Nat) :
    lineLoop str str.length keep (fuel + 1) before.length (before.length + front.length) =
      some (if front = [] then [] else [front]) := by
  have hLength := h.length
  rw [List.length_nil] at hLength
  rw [lineLoop, if_neg (by omega)]
  cases front with
  | nil => rw [List.length_nil, if_neg (by omega), if_pos rfl]
  | cons c front =>
      have hPiece := slice_append before (c :: front) [] (Nat.add_sub_cancel_left before.length (c :: front).length)
      rw [if_pos (by rw [List.length_cons]; omega), h.text, hPiece, if_neg (List.cons_ne_nil _ _)]

/-- A line that ends with `\r\n`. -/
theorem lineLoop_crlf {str before front rest : CString}
    (h : Seen str before front (ch '\r' :: ch '\n' :: rest)) (keep : Int32) (fuel : Nat) :
    lineLoop str str.length keep (fuel + 1) before.length (before.length + front.length) =
      (lineLoop str str.length keep fuel (before ++ (front ++ lit "\r\n")).length
        ((before ++ (front ++ lit "\r\n")).length + 0)).map
          ((if keep ≠ 0 then front ++ lit "\r\n" else front) :: ·) := by
  have hLength := h.length
  have hHere := h.byteAt 0
  have hNext := h.byteAt 1
  have hEnd : (before ++ (front ++ lit "\r\n")).length = before.length + front.length + 1 + 1 := by
    rw [List.length_append, List.length_append]
    rfl
  have hPiece : (str.drop before.length).take (if keep ≠ 0 then before.length + front.length + 1 -
      before.length + 1 else before.length + front.length + 1 - before.length - 1) =
        if keep ≠ 0 then front ++ lit "\r\n" else front := by
    rw [h.text]
    split
    · have hText : before ++ (front ++ ch '\r' :: ch '\n' :: rest) =
          before ++ (front ++ lit "\r\n" ++ rest) := by
        rw [List.append_assoc front]
        rfl
      rw [hText]
      refine slice_append before _ rest ?_
      rw [List.length_append]
      change _ = front.length + 2
      omega
    · exact slice_append before front _ (by omega)
  rw [List.length_cons] at hLength
  rw [lineLoop, if_pos (by omega), if_pos ⟨hHere, hNext⟩]
  simp only [hPiece, hEnd, Nat.add_zero]

/-- A line that ends with `\n` alone. -/
theorem lineLoop_lf {str before front rest : CString} (h : Seen str before front (ch '\n' :: rest))
    (keep : Int32) (fuel : Nat) :
    lineLoop str str.length keep (fuel + 1) before.length (before.length + front.length) =
      (lineLoop str str.length keep fuel (before ++ (front ++ lit "\n")).length
        ((before ++ (front ++ lit "\n")).length + 0)).map
          ((if keep ≠ 0 then front ++ lit "\n" else front) :: ·) := by
  have hLength := h.length
  have hHere := h.byteAt 0
  rw [Nat.add_zero, byteAt_cons_zero] at hHere
  have hEnd : (before ++ (front ++ lit "\n")).length = before.length + front.length + 1 := by
    rw [List.length_append, List.length_append]
    rfl
  have hPiece : (str.drop before.length).take (if keep ≠ 0 then before.length + front.length -
      before.length + 1 else before.length + front.length - before.length) =
        if keep ≠ 0 then front ++ lit "\n" else front := by
    rw [h.text]
    split
    · have hText : before ++ (front ++ ch '\n' :: rest) = before ++ (front ++ lit "\n" ++ rest) := by
        rw [List.append_assoc front]
        rfl
      rw [hText]
      refine slice_append before _ rest ?_
      rw [List.length_append]
      change _ = front.length + 1
      omega
    · exact slice_append before front _ (by omega)
  rw [List.length_cons] at hLength
  rw [lineLoop, if_pos (by omega), if_neg (by rw [hHere]; exact fun hBoth => absurd hBoth.1 (by decide)),
    if_pos hHere]
  simp only [hPiece, hEnd, Nat.add_zero]

/-- A byte of a line. -/
theorem lineLoop_byte {str before front rest : CString} {c : UInt8} (h : Seen str before front (c :: rest))
    (hReturn : ¬ (c = ch '\r' ∧ byteAt rest 0 = ch '\n')) (hFeed : c ≠ ch '\n') (keep : Int32) (fuel : Nat) :
    lineLoop str str.length keep (fuel + 1) before.length (before.length + front.length) =
      lineLoop str str.length keep fuel before.length (before.length + (front ++ [c]).length) := by
  have hLength := h.length
  have hHere := h.byteAt 0
  have hNext := h.byteAt 1
  rw [Nat.add_zero, byteAt_cons_zero] at hHere
  rw [byteAt_cons_succ] at hNext
  rw [List.length_cons] at hLength
  rw [lineLoop, if_pos (by omega), hHere, hNext, if_neg hReturn, if_neg hFeed, List.length_append]
  rfl

theorem lineLoop_pieces {str : CString} {fuel : Nat} {before front rest : CString}
    (h : Seen str before front rest) (hFuel : rest.length < fuel) :
    ∃ pieces, Pieces lineEnds (front ++ rest) pieces ∧
      ∀ keep, lineLoop str str.length keep fuel before.length (before.length + front.length) =
        some (kept lineEnds keep pieces) := by
  induction fuel generalizing before front rest with
  | zero => omega
  | succ fuel ih =>
      cases rest with
      | nil =>
          rw [List.append_nil]
          cases front with
          | nil =>
              refine ⟨[], Pieces.nil _, fun keep => ?_⟩
              rw [lineLoop_end h]
              simp [kept]
          | cons c front =>
              refine ⟨[c :: front], Pieces.singleton (onlyAtEnd_open h.line), fun keep => ?_⟩
              rw [lineLoop_end h, kept_cons, withoutEnd_open h.line, ite_self]
              simp [kept]
      | cons c rest =>
          rw [List.length_cons] at hFuel
          by_cases hReturn : c = ch '\r' ∧ byteAt rest 0 = ch '\n'
          · obtain ⟨rfl, hFeed⟩ := hReturn
            cases rest with
            | nil => exact absurd hFeed (by decide)
            | cons d rest =>
                rw [byteAt_cons_zero] at hFeed
                subst hFeed
                rw [List.length_cons] at hFuel
                obtain ⟨pieces, hPieces, hLoop⟩ := @ih (before ++ (front ++ lit "\r\n")) [] rest
                  (Seen.start (by rw [h.text, List.append_assoc]; rfl)) (by omega)
                have hEnds : EndsIn lineEnds (front ++ lit "\r\n") := by
                  have hLine := @endsIn_line (front ++ lit "\r") (by
                    intro hMem
                    rcases List.mem_append.mp hMem with hFront | hLast
                    · exact h.line hFront
                    · revert hLast
                      decide)
                  rw [List.append_assoc] at hLine
                  exact hLine
                refine ⟨(front ++ lit "\r\n") :: pieces, ?_, fun keep => ?_⟩
                · have hAll := hPieces.cons hEnds
                  rw [List.nil_append, List.append_assoc] at hAll
                  exact hAll
                · rw [lineLoop_crlf h, ← List.length_nil, hLoop, kept_cons, withoutEnd_crlf]
                  rfl
          by_cases hFeed : c = ch '\n'
          · subst hFeed
            obtain ⟨pieces, hPieces, hLoop⟩ := @ih (before ++ (front ++ lit "\n")) [] rest
              (Seen.start (by rw [h.text, List.append_assoc]; rfl)) (by omega)
            refine ⟨(front ++ lit "\n") :: pieces, ?_, fun keep => ?_⟩
            · have hAll := hPieces.cons (endsIn_line h.line)
              rw [List.nil_append, List.append_assoc] at hAll
              exact hAll
            · have hAlone : front.getLast? ≠ some (ch '\r') := fun hLast => h.whole hLast rfl
              rw [lineLoop_lf h, ← List.length_nil, hLoop, kept_cons, withoutEnd_lf hAlone]
              rfl
          · have hSeen : Seen str before (front ++ [c]) rest := by
              refine ⟨by rw [h.text, List.append_assoc]; rfl, ?_, fun hLast hHead => hReturn ?_⟩
              · intro hMem
                rcases List.mem_append.mp hMem with hFront | hLast
                · exact h.line hFront
                · exact hFeed (List.mem_singleton.mp hLast).symm
              · rw [List.getLast?_append, List.getLast?_singleton] at hLast
                cases rest with
                | nil => cases hHead
                | cons d rest => exact ⟨Option.some.inj hLast, Option.some.inj hHead⟩
            obtain ⟨pieces, hPieces, hLoop⟩ := ih hSeen (by omega)
            refine ⟨pieces, ?_, fun keep => ?_⟩
            · rw [List.append_assoc] at hPieces
              exact hPieces
            · rw [lineLoop_byte h hReturn hFeed, hLoop]

/-- The pieces with their ends make up the text, and without them they are the same ones. -/
theorem naslSplit_pieces {str : CString} (hText : str ≠ []) {sep : Option CString} (hSep : sep ≠ some []) :
    ∃ pieces, Pieces (endsOf sep) str pieces ∧
      ∀ lexic, lexic.byNum 0 = some (.str str) → lexic.byName "sep" = sep.map Argument.str →
        naslSplit lexic = some (some (kept (endsOf sep) (getIntLocalVarByName lexic "keep" 1) pieces)) := by
  have hLength : str.length ≠ 0 := fun hZero => hText (List.eq_nil_of_length_eq_zero hZero)
  cases sep with
  | none =>
      obtain ⟨pieces, hPieces, hLoop⟩ := @lineLoop_pieces str (str.length + 1) [] [] str
        ⟨rfl, List.not_mem_nil, fun hNone => nomatch hNone⟩ (Nat.lt_succ_self _)
      refine ⟨pieces, hPieces, fun lexic hStr hNone => ?_⟩
      have hRun := hLoop (getIntLocalVarByName lexic "keep" 1)
      rw [List.length_nil] at hRun
      simp only [naslSplit, getStrVarByNum, getVarSizeByNum, getStrLocalVarByName, hStr, hNone,
        Option.map_none, var2str, getVarSize, sizeOr_length, if_neg hLength, hRun, Option.map_some, endsOf,
        Option.elim_none]
  | some sep =>
      have hNonempty : sep ≠ [] := fun hNil => hSep (congrArg some hNil)
      have hSepLength : sep.length ≠ 0 := fun hZero => hNonempty (List.eq_nil_of_length_eq_zero hZero)
      obtain ⟨pieces, hPieces, hLoop⟩ := @sepLoop_pieces str sep hNonempty (str.length + 1) 0 (by omega)
      rw [List.drop_zero] at hPieces
      refine ⟨pieces, hPieces, fun lexic hStr hSome => ?_⟩
      have hRun := hLoop (getIntLocalVarByName lexic "keep" 1)
      simp only [naslSplit, getStrVarByNum, getVarSizeByNum, getStrLocalVarByName, getLocalVarSizeByName,
        hStr, hSome, Option.map_some, var2str, getVarSize, sizeOr_length, if_neg hLength,
        if_neg hSepLength, List.take_length, hRun, endsOf, Option.elim_some]

/-- `split (text, keep: 0)`. -/
def splitLines (text : CString) : Lexic where
  ctxVars := [some (.data text)]
  named name := if name = "keep" then some (.int 0) else none

theorem naslSplit_pieces_lines :
    ∃ pieces, Pieces lineEnds (lit "a\r\nb\n\nc") pieces ∧
      naslSplit (splitLines (lit "a\r\nb\n\nc")) = some (some (pieces.map (withoutEnd lineEnds))) := by
  obtain ⟨pieces, hPieces, hSplit⟩ :=
    @naslSplit_pieces (lit "a\r\nb\n\nc") (by decide) none (fun hNone => nomatch hNone)
  exact ⟨pieces, hPieces, hSplit (splitLines (lit "a\r\nb\n\nc")) rfl rfl⟩

example : naslSplit (splitLines (lit "a\r\nb\n\nc")) =
    some (some [lit "a", lit "b", lit "", lit "c"]) := by decide +kernel

end Text
