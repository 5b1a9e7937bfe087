import Mathlib.Data.List.TakeWhile

/-! Lists cut at a separator: how `List.splitOn` goes together with appending,
dropping and filtering. -/
namespace Split

variable {α : Type*} [DecidableEq α] {c : α}

theorem not_mem_of_mem_splitOn {s part : List α} (h : part ∈ s.splitOn c) : c ∉ part := by
  induction s generalizing part with
  | nil =>
      obtain rfl : part = [] := by simpa using h
      simp
  | cons x s ih =>
      rw [List.splitOn_cons_eq_if_modifyHead] at h
      split at h
      · rcases List.mem_cons.mp h with rfl | hRest
        · simp
        · exact ih hRest
      · rename_i hx
        obtain ⟨first, rest, hSplit⟩ := List.exists_cons_of_ne_nil (List.splitOn_ne_nil c s)
        rw [hSplit, List.modifyHead_cons] at h
        have hNe : c ≠ x := fun he => hx (by simp [he])
        rcases List.mem_cons.mp h with rfl | hRest
        · have hFirst : c ∉ first := ih (by simp [hSplit])
          simp [hNe, hFirst]
        · exact ih (by simp [hSplit, hRest])

theorem mem_of_mem_splitOn {s part : List α} (h : part ∈ s.splitOn c) {x : α} (hx : x ∈ part) :
    x ∈ s := by
  induction s generalizing part with
  | nil =>
      obtain rfl : part = [] := by simpa using h
      simp at hx
  | cons y s ih =>
      rw [List.splitOn_cons_eq_if_modifyHead] at h
      split at h
      · rcases List.mem_cons.mp h with rfl | hRest
        · simp at hx
        · exact List.mem_cons_of_mem y (ih hRest hx)
      · obtain ⟨first, rest, hSplit⟩ := List.exists_cons_of_ne_nil (List.splitOn_ne_nil c s)
        rw [hSplit, List.modifyHead_cons] at h
        rcases List.mem_cons.mp h with rfl | hRest
        · rcases List.mem_cons.mp hx with rfl | hFirst
          · exact List.mem_cons_self ..
          · exact List.mem_cons_of_mem y (ih (by simp [hSplit]) hFirst)
        · exact List.mem_cons_of_mem y (ih (by simp [hSplit, hRest]) hx)

/-- A text in front without the separator belongs to the first part. -/
theorem splitOn_append {front : List α} (h : c ∉ front) (s : List α) :
    (front ++ s).splitOn c = (s.splitOn c).modifyHead (front ++ ·) := by
  induction front with
  | nil =>
      obtain ⟨first, rest, hSplit⟩ := List.exists_cons_of_ne_nil (List.splitOn_ne_nil c s)
      simp [hSplit]
  | cons x front ih =>
      obtain ⟨hx, hFront⟩ : c ≠ x ∧ c ∉ front := by simpa using h
      obtain ⟨first, rest, hSplit⟩ := List.exists_cons_of_ne_nil (List.splitOn_ne_nil c s)
      rw [List.cons_append, List.splitOn_cons_eq_if_modifyHead, if_neg (by simpa using hx.symm),
        ih hFront, hSplit]
      rfl

/-- Where two lists meet, their parts grow together. -/
theorem exists_splitOn_append (s t : List α) :
    ∃ init last first rest, s.splitOn c = init ++ [last] ∧ t.splitOn c = first :: rest ∧
      (s ++ t).splitOn c = init ++ (last ++ first) :: rest := by
  induction s with
  | nil =>
      obtain ⟨first, rest, hSplit⟩ := List.exists_cons_of_ne_nil (List.splitOn_ne_nil c t)
      exact ⟨[], [], first, rest, rfl, hSplit, hSplit⟩
  | cons x s ih =>
      obtain ⟨init, last, first, rest, hFront, hBack, hBoth⟩ := ih
      rw [List.cons_append, List.splitOn_cons_eq_if_modifyHead, List.splitOn_cons_eq_if_modifyHead,
        hFront, hBoth]
      by_cases hx : x = c
      · exact ⟨[] :: init, last, first, rest, by simp [hx], hBack, by simp [hx]⟩
      · cases init with
        | nil => exact ⟨[], x :: last, first, rest, by simp [hx], hBack, by simp [hx]⟩
        | cons part init =>
            exact ⟨(x :: part) :: init, last, first, rest, by simp [hx], hBack, by simp [hx]⟩

theorem splitOn_dropWhile {p : α → Bool} (hc : p c = false) (s : List α) :
    (s.dropWhile p).splitOn c = (s.splitOn c).modifyHead (List.dropWhile p) := by
  induction s with
  | nil => simp
  | cons x s ih =>
      obtain ⟨first, rest, hSplit⟩ := List.exists_cons_of_ne_nil (List.splitOn_ne_nil c s)
      rw [List.splitOn_cons_eq_if_modifyHead]
      by_cases hx : x = c
      · subst hx
        rw [List.dropWhile_cons_of_neg (by simpa using hc), List.splitOn_cons_eq_if_modifyHead]
        simp
      · rw [if_neg (by simpa using hx), hSplit]
        by_cases hp : p x = true
        · rw [List.dropWhile_cons_of_pos hp, ih, hSplit]
          simp [hp]
        · rw [List.dropWhile_cons_of_neg hp, List.splitOn_cons_eq_if_modifyHead,
            if_neg (by simpa using hx), hSplit]
          simp [hp]

theorem splitOn_filter {p : α → Bool} (hc : p c = true) (s : List α) :
    (s.filter p).splitOn c = (s.splitOn c).map (List.filter p) := by
  induction s with
  | nil => simp
  | cons x s ih =>
      obtain ⟨first, rest, hSplit⟩ := List.exists_cons_of_ne_nil (List.splitOn_ne_nil c s)
      rw [List.splitOn_cons_eq_if_modifyHead]
      by_cases hx : x = c
      · subst hx
        rw [List.filter_cons_of_pos hc, List.splitOn_cons_eq_if_modifyHead, ih]
        simp
      · rw [if_neg (by simpa using hx), hSplit]
        by_cases hp : p x = true
        · rw [List.filter_cons_of_pos hp, List.splitOn_cons_eq_if_modifyHead,
            if_neg (by simpa using hx), ih, hSplit]
          simp [hp]
        · rw [List.filter_cons_of_neg hp, ih, hSplit]
          simp [hp]

/-- What is no separator lies in one of the parts. -/
theorem exists_mem_splitOn {s : List α} {x : α} (h : x ∈ s) (hx : x ≠ c) :
    ∃ part ∈ s.splitOn c, x ∈ part := by
  induction s with
  | nil => simp at h
  | cons y s ih =>
      obtain ⟨first, rest, hSplit⟩ := List.exists_cons_of_ne_nil (List.splitOn_ne_nil c s)
      rw [List.splitOn_cons_eq_if_modifyHead]
      rcases List.mem_cons.mp h with rfl | hLater
      · rw [if_neg (by simpa using hx), hSplit]
        exact ⟨_, List.mem_cons_self .., List.mem_cons_self ..⟩
      · obtain ⟨part, hPart, hMem⟩ := ih hLater
        split
        · exact ⟨part, List.mem_cons_of_mem _ hPart, hMem⟩
        · rw [hSplit] at hPart ⊢
          rcases List.mem_cons.mp hPart with rfl | hRest
          · exact ⟨y :: part, List.mem_cons_self .., List.mem_cons_of_mem _ hMem⟩
          · exact ⟨part, List.mem_cons_of_mem _ hRest, hMem⟩

end Split
