import OpenVAS.Lib.CString

/-! Texts made of terminated lines. A text is compared with the list of its lines,
so that an edit of the text is an edit of that list. -/
namespace Lines

variable {α : Type*} (nl : α)

/-- The text of a list of lines, each one terminated. -/
def unlines (ls : List (List α)) : List α := ls.flatMap (· ++ [nl])

variable {nl}

@[simp] theorem unlines_nil : unlines nl [] = [] := rfl

theorem unlines_cons (l : List α) (ls : List (List α)) :
    unlines nl (l :: ls) = l ++ nl :: unlines nl ls := by
  simp [unlines]

theorem unlines_append (ls ms : List (List α)) :
    unlines nl (ls ++ ms) = unlines nl ls ++ unlines nl ms := by
  simp [unlines]

/-- Every terminated text is the text of its lines. -/
theorem exists_unlines (text : List α) :
    ∃ ls : List (List α), (∀ l ∈ ls, nl ∉ l) ∧ text ++ [nl] = unlines nl ls := by
  induction text with
  | nil => exact ⟨[[]], by simp, by simp [unlines]⟩
  | cons c text ih =>
      obtain ⟨ls, hFree, hText⟩ := ih
      rcases eq_or_ne c nl with rfl | hc
      · exact ⟨[] :: ls, by simpa using hFree, by simp [unlines_cons, hText]⟩
      · cases ls with
        | nil => simp at hText
        | cons l ls =>
            refine ⟨(c :: l) :: ls, ?_, ?_⟩
            · intro m hm
              rcases List.mem_cons.mp hm with rfl | hm
              · simpa [Ne.symm hc] using hFree l (by simp)
              · exact hFree m (List.mem_cons_of_mem l hm)
            · rw [List.cons_append, hText, unlines_cons, unlines_cons]
              rfl

/-- A shorter list keeps what a predicate selects exactly when it selects the same
from both. -/
theorem filter_sublist_iff {p : α → Bool} {ls ls' : List α} (h : ls'.Sublist ls) :
    (ls.filter p).Sublist ls' ↔ ls'.filter p = ls.filter p := by
  constructor
  · intro hKept
    have hFilter : (ls.filter p).Sublist (ls'.filter p) := by
      simpa [List.filter_filter] using hKept.filter p
    exact (h.filter p).eq_of_length_le hFilter.length_le
  · intro hEq
    rw [← hEq]
    exact List.filter_sublist

/-- Erasing one element keeps what a predicate selects exactly when it does not
select that element. -/
theorem filter_eraseIdx_iff {p : α → Bool} {ls : List α} {i : Nat} :
    (ls.eraseIdx i).filter p = ls.filter p ↔ ∀ l ∈ ls[i]?, p l = false := by
  induction ls generalizing i with
  | nil => simp
  | cons l ls ih =>
      cases i with
      | zero =>
          cases hp : p l with
          | false => simp [hp]
          | true =>
              refine iff_of_false (fun hEq => ?_) (by simp [hp])
              have hLength := congrArg List.length hEq
              simp [hp] at hLength
      | succ i =>
          rw [List.eraseIdx_cons_succ, List.getElem?_cons_succ, ← ih]
          cases hp : p l <;> simp [hp]

/-- Erasing the first match is filtering when the first match is the only element
that the filter drops. -/
theorem eraseP_eq_filter {p q : α → Bool} {ls : List α} (hFirst : ∀ l ∈ ls.find? p, q l = true)
    (hFound : ∀ l ∈ ls, q l = true → p l = true)
    (hOnly : ls.Pairwise fun l m => ¬ (q l = true ∧ q m = true)) :
    ls.eraseP p = ls.filter fun l => !q l := by
  induction ls with
  | nil => rfl
  | cons l ls ih =>
      obtain ⟨hHead, hTail⟩ := List.pairwise_cons.mp hOnly
      cases hp : p l with
      | true =>
          have hq : q l = true := hFirst l (by simp [hp])
          have hRest : ls.filter (fun m => !q m) = ls :=
            List.filter_eq_self.mpr fun m hm => by simpa [hq] using hHead m hm
          simp [hp, hq, hRest]
      | false =>
          have hq : q l = false := by
            by_contra hq
            simp [hFound l (by simp) (by simpa using hq)] at hp
          have hRest := ih (fun m hm => hFirst m (by simpa [hp] using hm))
            (fun m hm => hFound m (List.mem_cons_of_mem l hm)) hTail
          simp [hp, hq, hRest]

/-- The same for two steps, each of which only takes elements away. -/
theorem filter_eq_trans_iff {p : α → Bool} {ls mid last : List α} (hMid : mid.Sublist ls)
    (hLast : last.Sublist mid) :
    last.filter p = ls.filter p ↔ mid.filter p = ls.filter p ∧ last.filter p = mid.filter p := by
  constructor
  · intro hEq
    have hSame : mid.filter p = ls.filter p := by
      refine (hMid.filter p).eq_of_length_le ?_
      rw [← hEq]
      exact (hLast.filter p).length_le
    exact ⟨hSame, hEq.trans hSame.symm⟩
  · rintro ⟨hFirst, hSecond⟩
    exact hSecond.trans hFirst

variable [DecidableEq α] (nl)

/-- The terminated lines of a text, behind the start of a line. -/
def linesFrom (line : List α) : List α → List (List α)
  | [] => []
  | c :: rest => if c = nl then line.reverse :: linesFrom [] rest else linesFrom (c :: line) rest

/-- The terminated lines of a text. -/
def lines (text : List α) : List (List α) := linesFrom nl [] text

/-- Index of the line that holds a position, counting a terminator to the line
that it opens. -/
def lineIndex (text : List α) (t : Nat) : Nat := (text.take (t + 1)).count nl

variable {nl}

theorem linesFrom_append (line : List α) {l : List α} (h : nl ∉ l) (rest : List α) :
    linesFrom nl line (l ++ nl :: rest) = (line.reverse ++ l) :: lines nl rest := by
  induction l generalizing line with
  | nil => simp [linesFrom, lines]
  | cons c l ih =>
      have hc : c ≠ nl := fun he => h (he ▸ List.mem_cons_self ..)
      rw [List.cons_append, linesFrom, if_neg hc, ih _ fun hl => h (List.mem_cons_of_mem c hl)]
      simp

theorem lines_unlines {ls : List (List α)} (h : ∀ l ∈ ls, nl ∉ l) : lines nl (unlines nl ls) = ls := by
  induction ls with
  | nil => rfl
  | cons l ls ih =>
      rw [unlines_cons, lines, linesFrom_append [] (h l (by simp)),
        ih fun m hm => h m (List.mem_cons_of_mem l hm)]
      rfl

theorem lineIndex_inside {l : List α} (h : nl ∉ l) (rest : List α) {t : Nat} (ht : t < l.length) :
    lineIndex nl (l ++ nl :: rest) t = 0 := by
  rw [lineIndex, List.take_append_of_le_length (by omega), List.count_eq_zero]
  exact fun hMem => h (List.mem_of_mem_take hMem)

theorem lineIndex_terminator {l : List α} (h : nl ∉ l) (rest : List α) :
    lineIndex nl (l ++ nl :: rest) l.length = 1 := by
  rw [lineIndex, List.take_length_add_append]
  simp [List.count_eq_zero.mpr h]

theorem lineIndex_behind {l : List α} (h : nl ∉ l) (rest : List α) (t : Nat) :
    lineIndex nl (l ++ nl :: rest) (l.length + 1 + t) = lineIndex nl rest t + 1 := by
  rw [lineIndex, show l.length + 1 + t + 1 = l.length + (t + 2) by omega,
    List.take_length_add_append, lineIndex]
  simp [List.count_eq_zero.mpr h]

end Lines
