import OpenVAS.KnowledgeBase.Refinement

/-! When the knowledge base holds an item twice. Adding never does it: the walk
looks at every item of the name first. Setting stops at the first item of the
name, so a value that sits behind it is stored a second time. -/
namespace KnowledgeBase

open CString ChainTable

/-- No two items of the whole knowledge base have the same name, type and value. -/
def NoDuplicates (kb : Kb) : Prop := ((List.finRange hashMax).flatMap kb).Nodup

/-- A set finds its value in front of the name's list, or nowhere in it. -/
def SetSafe (kb : Kb) : KbOp → Prop
  | .set name value => (kb.items name).head? = some value ∨ value ∉ kb.items name
  | _ => True

theorem Kb.items_nodup_iff (kb : Kb) (name : CString) :
    (kb.items name).Nodup ↔ (entries mkkey KbItem.name kb name).Nodup := by
  refine ⟨List.Nodup.of_map _, List.Nodup.map_on ?_⟩
  intro first hFirst second hSecond hValue
  obtain ⟨_, hFirst⟩ := mem_atKey.mp hFirst
  obtain ⟨_, hSecond⟩ := mem_atKey.mp hSecond
  cases first
  cases second
  simp_all

theorem noDuplicates_iff {kb : Kb} (h : kb.Placed) :
    NoDuplicates kb ↔ ∀ name, (kb.items name).Nodup := by
  have hDisjoint : (List.finRange hashMax).Pairwise fun i j => (kb i).Disjoint (kb j) := by
    refine (List.nodup_finRange hashMax).imp ?_
    intro i j hij item hi hj
    exact hij ((h i item hi).symm.trans (h j item hj))
  rw [NoDuplicates, List.nodup_flatMap]
  simp only [List.mem_finRange, forall_const, Kb.items_nodup_iff]
  rw [← h.nodup_iff]
  exact ⟨fun hAll => hAll.1, fun hAll => ⟨hAll, hDisjoint⟩⟩

/-- The state that the runs below carry: placed and free of duplicates. -/
def Clean (kb : Kb) : Prop := kb.Placed ∧ ∀ name, (kb.items name).Nodup

theorem clean_iff {kb : Kb} (h : kb.Placed) : Clean kb ↔ NoDuplicates kb := by
  rw [noDuplicates_iff h]
  exact ⟨fun hClean => hClean.2, fun hAll => ⟨h, hAll⟩⟩

/-- Overwriting the first value repeats none exactly when the new value was
that first value or was not there. -/
theorem nodup_cons_tail_iff {values : List KbValue} (h : values.Nodup) (value : KbValue) :
    (value :: values.tail).Nodup ↔ values.head? = some value ∨ value ∉ values := by
  cases values with
  | nil => simp
  | cons first rest =>
      have hRest : first ∉ rest ∧ rest.Nodup := List.nodup_cons.mp h
      by_cases hFirst : first = value
      · subst hFirst
        simp [hRest]
      · simp [hRest, hFirst, Ne.symm hFirst]

/-- One operation on a clean knowledge base leaves it clean exactly when it is
no set of a value that sits behind another one. -/
theorem clean_step {kb : Kb} (op : KbOp) (h : Clean kb) :
    Clean (op.apply kb) ↔ SetSafe kb op := by
  have hPlaced := KbOp.apply_placed h.1 op
  rw [Clean, and_iff_right hPlaced, KbOp.apply_items]
  have hReduce : (∀ name, (op.applyMap kb.items name).Nodup) ↔
      (op.applyMap kb.items op.name).Nodup := by
    refine ⟨fun hAll => hAll _, fun hName name => ?_⟩
    by_cases hm : name = op.name
    · exact hm ▸ hName
    · rw [KbOp.applyMap_other _ op name hm]
      exact h.2 name
  rw [hReduce]
  cases op with
  | add name value =>
      refine ⟨fun _ => trivial, fun _ => ?_⟩
      change (kb.items.add name value name).Nodup
      rw [ItemMap.add]
      split
      · exact h.2 name
      · rename_i hMem
        rw [Function.update_self]
        exact List.nodup_cons.mpr ⟨hMem, h.2 name⟩
  | set name value =>
      change (kb.items.set name value name).Nodup ↔ _
      rw [ItemMap.set, Function.update_self]
      exact nodup_cons_tail_iff (h.2 name) value
  | rmAll name =>
      refine ⟨fun _ => trivial, fun _ => ?_⟩
      change (kb.items.rmAll name name).Nodup
      rw [ItemMap.rmAll, Function.update_self]
      exact List.nodup_nil

theorem kbNew_clean : Clean kbNew := ⟨kbNew_placed, fun _ => List.nodup_nil⟩

/-- The knowledge base stays free of duplicates through a history exactly when
every set of the history is of a value that is in front of its name's list
or not in that list. -/
theorem noDuplicates_along_iff (history : List KbOp) :
    Run.AllStates KbOp.apply NoDuplicates kbNew history ↔
      Run.AllSteps KbOp.apply SetSafe kbNew history := by
  have hStates : Run.AllStates KbOp.apply NoDuplicates kbNew history ↔
      Run.AllStates KbOp.apply Clean kbNew history :=
    Run.AllStates.congr Kb.Placed (fun _ op h => KbOp.apply_placed h op)
      (fun _ h => (clean_iff h).symm) kbNew_placed history
  rw [hStates]
  exact Run.allStates_iff_allSteps (fun _ op h => clean_step op h) kbNew_clean history

/-- Two adds under one name and a set back to the first value store it twice. -/
theorem set_behind_first_duplicates :
    ¬ NoDuplicates (kbAfter [.add (lit "a") (.int 1), .add (lit "a") (.int 2),
      .set (lit "a") (.int 1)]) := by
  rw [noDuplicates_iff (kbAfter_placed _)]
  intro h
  have hName := h (lit "a")
  rw [kbAfter, foldl_apply_items] at hName
  exact absurd hName (by decide)

end KnowledgeBase
