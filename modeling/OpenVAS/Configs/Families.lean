import OpenVAS.Configs.Selection

/-! `manage_set_config_families` sets each family as the command says, apart from the families
for which it forgets to remove an exclude. -/
namespace Configs

open CString Choices Transaction

/-! The rows that stand for a choice. -/

/-- The NVTs that are listed for a choice: the excluded ones of a growing family, and the
included ones of a static family. -/
def listing (items : Finset CString) (choice : Choice CString) (exclude : Bool) : Finset CString :=
  if exclude = choice.growing then
    if choice.growing then items \ choice.chosen else choice.chosen
  else ∅

/-- The rows of a family stand for a choice. -/
structure Tidy (db : Database) (selector : CString) (constraining : Bool) (family : CString)
    (choice : Choice CString) : Prop where
  within : choice.chosen ⊆ items db family
  shape : Shape db selector constraining family choice.growing (listing (items db family) choice)

section Tidy

variable {db after : Database} {selector family family' : CString} {constraining : Bool}
  {choice : Choice CString} {items' : Finset CString}

/-- The rows of a choice stand for it. -/
theorem chosenOf_listing (hWithin : choice.chosen ⊆ items') :
    chosenOf items' choice.growing (listing items' choice) = choice.chosen := by
  obtain ⟨growing, chosen⟩ := choice
  cases growing with
  | true => simpa [chosenOf, listing] using hWithin
  | false => simp [chosenOf, listing]

/-- The answer of `nvt_selector_nvt_count` is the number of the chosen NVTs. -/
theorem Tidy.nvtCount (h : Tidy db selector constraining family choice)
    (hDistinct : DistinctOids db) :
    nvtSelectorNvtCount db selector family choice.growing = choice.chosen.card := by
  rw [h.shape.nvtCount hDistinct]
  have hWithin := h.within
  obtain ⟨growing, chosen⟩ := choice
  cases growing with
  | true =>
      simp only [listing, if_true]
      rw [Finset.card_sdiff_of_subset hWithin]
      have hLe := Finset.card_le_card hWithin
      dsimp only at hLe ⊢
      omega
  | false => simp [listing]

/-- A family is tidy as before when another one has changed. -/
theorem ChangesOnly.tidy (h : ChangesOnly selector family' db after) (hOther : family ≠ family')
    (hTidy : Tidy db selector constraining family choice) :
    Tidy after selector constraining family choice := by
  constructor
  · rw [h.items_eq]
    exact hTidy.within
  · rw [h.items_eq]
    exact h.shape hOther hTidy.shape

theorem Tidy.updateConfig (h : Tidy db selector constraining family choice) (config : Nat)
    (f : Config → Config) : Tidy (updateConfig config f db) selector constraining family choice :=
  ⟨h.within, h.shape.updateConfig config f⟩

end Tidy

/-! What the command says of a family. -/

def FamilySelection.setting (chosen : FamilySelection) (family : CString) : Setting :=
  if member chosen.growingAll family then .all true
  else if member chosen.staticAll family then .all false
  else .kept (member chosen.growing family)

/-- The family is in one list at most that asks for all NVTs, as the code asserts. -/
def FamilySelection.Apart (chosen : FamilySelection) (family : CString) : Prop :=
  ¬(member chosen.growingAll family = true ∧ member chosen.staticAll family = true)

/-- A static family with some of its NVTs is to grow, where families without a selector grow. -/
def Stuck (constraining : Bool) (items : Finset CString) (choice : Choice CString)
    (setting : Setting) : Prop :=
  constraining = true ∧ setting = .kept true ∧ choice.growing = false ∧ choice.chosen ≠ items

instance (constraining : Bool) (items : Finset CString) (choice : Choice CString)
    (setting : Setting) : Decidable (Stuck constraining items choice setting) :=
  inferInstanceAs (Decidable (_ ∧ _ ∧ _ ∧ _))

/-! What the step does to the configs. -/

/-- The config is the same but for what is counted and found out. -/
def Config.Like (row row' : Config) : Prop :=
  row' = { row with
    familyCount := row'.familyCount
    nvtCount := row'.nvtCount
    nvtsGrowing := row'.nvtsGrowing
    modificationTime := row'.modificationTime }

/-- The config has another number of NVTs, and what it says of their growth is kept where
nothing changes, or true, or found out again. -/
structure Recounts (config : Nat) (selector : CString) (row : Config) (nvtCount : Int)
    (db after : Database) : Prop where
  row : ∃ row', (config, row') ∈ after.configs.rows ∧ row.Like row' ∧ row'.nvtCount = nvtCount ∧
    (after = db ∧ row' = row ∨ row'.nvtsGrowing = true ∨
      row'.nvtsGrowing = nvtSelectorNvtsGrowing2 after selector row.familiesGrowing)
  others : ∀ number ≠ config, ∀ other,
    (number, other) ∈ after.configs.rows ↔ (number, other) ∈ db.configs.rows

section Recounting

variable {db middle : Database} {config : Nat} {selector : CString} {row : Config}

end Recounting

/-! The branches. -/

section Branches

variable {db after : Database} {selector family : CString} {constraining growing : Bool}
  {listed : Bool → Finset CString}

/-- A family without a mark grows as the selector has it for all. -/
theorem shape_unmarked (hMarks : marks db selector family = [])
    (hLists : ∀ exclude, Lists db selector family exclude (listed exclude)) :
    Shape db selector constraining family constraining listed := by
  constructor
  · rw [hMarks]
    simp
  · simp [hMarks]
  · exact hLists

/-- The shape of a family is told from its marks and its rows. -/
theorem Shape.congr (h : Shape db selector constraining family growing listed)
    (hMarks : marks after selector family = marks db selector family)
    {listed' : Bool → Finset CString}
    (hLists : ∀ exclude, Lists after selector family exclude (listed' exclude)) :
    Shape after selector constraining family growing listed' := by
  constructor
  · rw [hMarks]
    exact h.mark
  · rw [hMarks]
    exact h.marked
  · exact hLists

end Branches

/-! What a step does with a family. -/

/-- The rows of the family that the step leaves, and the number of NVTs that it counts. -/
structure Family where
  growing : Bool
  listed : Bool → Finset CString
  counted : Finset CString

/-- The family as the choice in it. -/
def settled (items : Finset CString) (choice : Choice CString) : Family where
  growing := choice.growing
  listed := listing items choice
  counted := choice.chosen

/-- The family keeps its exclude and loses its NVTs, which are still counted. -/
def stuck (items : Finset CString) (choice : Choice CString) : Family where
  growing := false
  listed exclude := if exclude then items \ choice.chosen else ∅
  counted := choice.chosen

/-- The step turns a choice into a family. -/
structure Settles (config : Nat) (selector : CString) (family : CString) (row : Config)
    (choice : Choice CString) (result : Family) (db after : Database) : Prop where
  changes : ChangesOnly selector family db after
  placed : Placed after selector row.familiesGrowing
  shape : Shape after selector row.familiesGrowing family result.growing result.listed
  recounts : Recounts config selector row
    (row.nvtCount - choice.chosen.card + result.counted.card) db after

section Steps

variable {db : Database} {now : Int} {config : Nat} {selector family : CString} {row : Config}
  {choice : Choice CString}

theorem Edits.of_eq {before middle after : Database} {constraining : Bool}
    (h : Edits selector family constraining before middle)
    (h' : EditsNvts selector family constraining middle after) :
    Edits selector family constraining before after := h.trans h'.toEdits

/-- What the step makes of the family. -/
def outcome (constraining : Bool) (items : Finset CString) (choice : Choice CString)
    (setting : Setting) : Family :=
  if Stuck constraining items choice setting then stuck items choice
  else settled items (choice.set items setting)

end Steps

/-! What the config says of the growth of its NVTs. -/

/-- The rows of a selector, with any choices in the families. -/
structure Formed (db : Database) (selector : CString) (constraining : Bool) : Prop where
  placed : Placed db selector constraining
  shape : ∀ family ∈ families db, ∃ growing listed,
    Shape db selector constraining family growing listed

/-- No family grows when the config says that the number of its NVTs does not. -/
def Informed (db : Database) (selector : CString) (row : Config) : Prop :=
  row.nvtsGrowing = false → ∀ family ∈ families db,
    nvtSelectorFamilyGrowing db selector family row.familiesGrowing = false

section Growth

variable {db after : Database} {config : Nat} {selector family : CString} {constraining : Bool}
  {row row' : Config} {choice : Choice CString} {result : Family}

theorem Formed.familyIncludes_eq (h : Formed db selector true) : familyIncludes db selector = 0 := by
  have hNone : (selectorsWhere db selector fun row => row.type = .family && !row.exclude) = [] := by
    apply List.eq_nil_iff_forall_not_mem.mpr
    intro row hRow
    obtain ⟨hMem, hName, hMeets⟩ := mem_selectorsWhere.mp hRow
    simp only [Bool.and_eq_true, decide_eq_true_eq, Bool.not_eq_true'] at hMeets
    obtain ⟨family, hFamily, hNamed⟩ := h.placed.family row
      (mem_selectorsWhere.mpr ⟨hMem, hName, decide_eq_true hMeets.1⟩)
    obtain ⟨growing, listed, hShape⟩ := h.shape family hFamily
    have hExclude := hShape.mark row
      (mem_selectorsWhere.mpr ⟨hMem, hName, by simp [Selector.isFamily, hMeets.1, hNamed]⟩)
    rw [hMeets.2] at hExclude
    cases hExclude
  rw [familyIncludes, hNone]
  rfl

/-- The answer of `nvt_selector_nvts_growing_2`, where there is a family. -/
theorem Formed.nvtsGrowing (h : Formed db selector constraining) (hFamily : family ∈ families db)
    (hStatic : nvtSelectorNvtsGrowing2 db selector constraining = false) :
    ∀ family ∈ families db, nvtSelectorFamilyGrowing db selector family constraining = false := by
  unfold nvtSelectorNvtsGrowing2 at hStatic
  cases constraining with
  | true =>
      rw [if_pos rfl, h.familyIncludes_eq, familyCount] at hStatic
      have hSome := List.length_pos_of_mem hFamily
      have hNot := of_decide_eq_false hStatic
      omega
  | false =>
      rw [if_neg Bool.false_ne_true] at hStatic
      have hNone := not_not.mp (of_decide_eq_false hStatic)
      intro other _
      rw [nvtSelectorFamilyGrowing, if_neg Bool.false_ne_true]
      apply decide_eq_false
      apply not_not.mpr
      apply List.eq_nil_iff_forall_not_mem.mpr
      intro row hRow
      obtain ⟨hMem, hName, hMeets⟩ := mem_selectorsWhere.mp hRow
      simp only [Selector.isFamily, Bool.and_eq_true, decide_eq_true_eq] at hMeets
      have hInclude : row ∈ selectorsWhere db selector fun row => row.type = .family && !row.exclude :=
        mem_selectorsWhere.mpr ⟨hMem, hName, by simp [hMeets.1.1, hMeets.2]⟩
      rw [hNone] at hInclude
      cases hInclude

/-- A family that is settled leaves the selector well formed. -/
theorem Settles.formed (h : Settles config selector family row choice result db after)
    (hFormed : Formed db selector row.familiesGrowing) :
    Formed after selector row.familiesGrowing := by
  constructor
  · exact h.placed
  · intro other hOther
    by_cases hSame : other = family
    · subst hSame
      exact ⟨_, _, h.shape⟩
    · rw [h.changes.families_eq] at hOther
      obtain ⟨growing, listed, hShape⟩ := hFormed.shape other hOther
      exact ⟨growing, listed, h.changes.shape hSame hShape⟩

theorem Config.Like.familiesGrowing (h : row.Like row') :
    row'.familiesGrowing = row.familiesGrowing := by
  rw [Config.Like] at h
  rw [h]

theorem Config.Like.nvtSelector (h : row.Like row') : row'.nvtSelector = row.nvtSelector := by
  rw [Config.Like] at h
  rw [h]

theorem Config.Like.name (h : row.Like row') : row'.name = row.name := by
  rw [Config.Like] at h
  rw [h]

theorem Config.Like.trans {row'' : Config} (h : row.Like row') (h' : row'.Like row'') :
    row.Like row'' := by
  obtain ⟨⟩ := row
  obtain ⟨⟩ := row'
  obtain ⟨⟩ := row''
  simp only [Config.Like, Config.mk.injEq] at h h' ⊢
  simp_all

/-- A step keeps the config informed. -/
theorem Settles.informed (h : Settles config selector family row choice result db after)
    (hFormed : Formed db selector row.familiesGrowing) (hFamily : family ∈ families db)
    (hInformed : Informed db selector row) :
    ∃ row', (config, row') ∈ after.configs.rows ∧ row.Like row' ∧
      row'.nvtCount = row.nvtCount - choice.chosen.card + result.counted.card ∧
      Informed after selector row' := by
  obtain ⟨row', hRow', hLike, hCount, hNvts⟩ := h.recounts.row
  refine ⟨row', hRow', hLike, hCount, fun hStatic => ?_⟩
  rw [hLike.familiesGrowing]
  rcases hNvts with ⟨rfl, rfl⟩ | hTrue | hAgain
  · exact hInformed hStatic
  · rw [hStatic] at hTrue
    cases hTrue
  · rw [hStatic] at hAgain
    exact (h.formed hFormed).nvtsGrowing (h.changes.families_eq.symm ▸ hFamily) hAgain.symm

end Growth

/-! The loop. -/

/-- What the loop leaves of the families that it has been through, and of the rest. -/
structure Settled (config : Nat) (selector : CString) (row : Config) (todo : List CString)
    (choice : CString → Choice CString) (result : CString → Family) (db after : Database) : Prop
    extends SameRest db after where
  elsewhere : ∀ name ≠ selector, ∀ p, selectorsWhere after name p = selectorsWhere db name p
  formed : Formed after selector row.familiesGrowing
  rest : ∀ family ∉ todo, ∀ growing listed,
    Shape db selector row.familiesGrowing family growing listed →
      Shape after selector row.familiesGrowing family growing listed
  shape : ∀ family ∈ todo,
    Shape after selector row.familiesGrowing family (result family).growing (result family).listed
  row : ∃ row', (config, row') ∈ after.configs.rows ∧ row.Like row' ∧
    row'.nvtCount = row.nvtCount +
      (todo.map fun family =>
        ((result family).counted.card : Int) - (choice family).chosen.card).sum ∧
    Informed after selector row'
  others : ∀ number ≠ config, ∀ other,
    (number, other) ∈ after.configs.rows ↔ (number, other) ∈ db.configs.rows

end Configs
