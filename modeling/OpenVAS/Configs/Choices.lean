import Mathlib.Data.Finset.Lattice.Basic
import Mathlib.Data.Finset.SDiff
import Mathlib.Logic.Function.Basic

/-! Choices of items that come in families. A choice in a family takes what comes later, or it
does not; a selection also says whether families that come later are taken. Nothing is said
here of how a selection is stored. -/
namespace Choices

/-- A choice in one family. -/
structure Choice (Item : Type*) where
  growing : Bool
  chosen : Finset Item
  deriving DecidableEq

/-- What a family is set to: all of the items that there are, or what was chosen of them. -/
inductive Setting where
  | all (growing : Bool)
  | kept (growing : Bool)
  deriving DecidableEq

section Choice

variable {Item : Type*} [DecidableEq Item]

/-- The choice in a family that is not known yet. -/
def Choice.fresh (growing : Bool) : Choice Item := ⟨growing, ∅⟩

/-- Choosing some of the items is to give up the choice of all of them. -/
def Choice.set (items : Finset Item) (choice : Choice Item) : Setting → Choice Item
  | .all growing => ⟨growing, items⟩
  | .kept growing => ⟨growing, if choice.chosen = items then ∅ else choice.chosen⟩

/-- Choosing the items that are selected. -/
def Choice.pick (items selected : Finset Item) (choice : Choice Item) : Choice Item :=
  { choice with chosen := items ∩ selected }

/-- More items come into the family. -/
def Choice.extend (items later : Finset Item) (choice : Choice Item) : Choice Item :=
  { choice with
    chosen := if choice.growing then choice.chosen ∪ (later \ items) else choice.chosen }

variable {items later last selected : Finset Item} {choice : Choice Item}

/-- A setting chooses among the NVTs of the family. -/
theorem Choice.set_within (h : choice.chosen ⊆ items) (setting : Setting) :
    (choice.set items setting).chosen ⊆ items := by
  cases setting with
  | all growing => exact subset_rfl
  | kept growing =>
      rw [Choice.set]
      split
      · exact Finset.empty_subset _
      · exact h

theorem Choice.pick_within : (choice.pick items selected).chosen ⊆ items := Finset.inter_subset_left

/-- So does a family that has got more NVTs. -/
theorem Choice.extend_within (h : choice.chosen ⊆ items) (hMore : items ⊆ later) :
    (choice.extend items later).chosen ⊆ later := by
  rw [Choice.extend]
  split
  · exact Finset.union_subset (h.trans hMore) Finset.sdiff_subset
  · exact h.trans hMore

/-- A growing choice leaves out what it left out before, and nothing that came later. -/
theorem Choice.sdiff_extend (h : choice.chosen ⊆ items) (hMore : items ⊆ later)
    (hGrowing : choice.growing = true) :
    later \ (choice.extend items later).chosen = items \ choice.chosen := by
  rw [Choice.extend, if_pos hGrowing]
  ext item
  have hIn := @h item
  have hLater := @hMore item
  simp only [Finset.mem_sdiff, Finset.mem_union, not_or, not_and, not_not]
  tauto

/-- Items that come in two steps are taken as if they had come in one. -/
theorem Choice.extend_extend (hMore : items ⊆ later) (hLater : later ⊆ last) :
    (choice.extend items later).extend later last = choice.extend items last := by
  obtain ⟨growing, chosen⟩ := choice
  cases growing with
  | false => rfl
  | true =>
      have hUnion : chosen ∪ (later \ items) ∪ (last \ later) = chosen ∪ (last \ items) := by
        ext item
        have hOne := @hMore item
        have hTwo := @hLater item
        simp only [Finset.mem_union, Finset.mem_sdiff]
        tauto
      simp only [Choice.extend, if_true, hUnion]

theorem Choice.extend_self (items : Finset Item) (choice : Choice Item) :
    choice.extend items items = choice := by
  obtain ⟨growing, chosen⟩ := choice
  cases growing <;> simp [Choice.extend]

/-- A family that does not grow stays as it is chosen. -/
theorem Choice.extend_static (hStatic : choice.growing = false) :
    choice.extend items later = choice := by
  obtain ⟨growing, chosen⟩ := choice
  obtain rfl : growing = false := hStatic
  rfl

end Choice

/-! Many selections from the same items. -/

/-- A choice in each family; `growing` is for the families that are not known yet. -/
structure Selection (Family Item : Type*) where
  growing : Bool
  choice : Family → Choice Item

/-- Selections under keys. A key that is in use keeps its selection. -/
structure World (Key Family Item : Type*) where
  items : Family → Finset Item
  inUse : Key → Bool
  selection : Key → Selection Family Item

section World

variable {Key Family Item : Type*} [DecidableEq Key]

/-- Another selection for a key that is not in use. -/
def World.change (world : World Key Family Item) (key : Key)
    (f : Selection Family Item → Selection Family Item) : World Key Family Item :=
  if world.inUse key then world
  else { world with selection := Function.update world.selection key (f (world.selection key)) }

/-- A config that is not in use is changed. -/
theorem World.change_free {world : World Key Family Item} {key : Key}
    {f : Selection Family Item → Selection Family Item} (hFree : world.inUse key = false) :
    world.change key f =
      { world with selection := Function.update world.selection key (f (world.selection key)) } :=
  if_neg (by simp [hFree])

variable [DecidableEq Family] [DecidableEq Item]

/-- The NVTs of a family are picked one by one. -/
def World.pick (world : World Key Family Item) (key : Key) (family : Family)
    (selected : Finset Item) : World Key Family Item :=
  world.change key fun selection => { selection with
    choice := Function.update selection.choice family
      ((selection.choice family).pick (world.items family) selected) }

/-- The families that have items are set, and the rest is told whether it is going to grow. -/
def World.set (world : World Key Family Item) (key : Key)
    (setting : Family → Setting) (growing : Bool → Bool) : World Key Family Item :=
  world.change key fun selection => {
    growing := growing selection.growing
    choice := fun family =>
      if (world.items family).Nonempty then
        (selection.choice family).set (world.items family) (setting family)
      else .fresh (growing selection.growing) }

/-- The families get other NVTs, and those that grow follow them. -/
def World.extend (world : World Key Family Item) (later : Family → Finset Item) :
    World Key Family Item where
  items := later
  inUse := world.inUse
  selection key :=
    let selection := world.selection key
    { selection with
      choice := fun family => (selection.choice family).extend (world.items family) (later family) }

end World

end Choices
