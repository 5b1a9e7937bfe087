import OpenVAS.Configs.Nvts
import OpenVAS.Configs.Switching

/-! Each command on a config does to the choices in its families what it is there for, and the
number of NVTs in the config stays the number of the chosen ones. -/
namespace Configs

open CString Choices Transaction

/-- The items of the families that a config can choose from. -/
def known (db : Database) (family : CString) : Finset CString :=
  if family = lit "Credentials" then ∅ else items db family

/-- The rows of the selector of a config stand for a selection. -/
structure Represents (db : Database) (config : Nat) (row : Config) (selector : CString)
    (selection : Selection CString CString) : Prop where
  stored : (config, row) ∈ db.configs.rows
  named : row.nvtSelector = some selector
  growing : row.familiesGrowing = selection.growing
  placed : Placed db selector row.familiesGrowing
  tidy : ∀ family ∈ families db,
    Tidy db selector row.familiesGrowing family (selection.choice family)
  fresh : ∀ family ∉ families db, selection.choice family = .fresh selection.growing
  informed : Informed db selector row
  counted : row.nvtCount =
    ((families db).map fun family => ((selection.choice family).chosen.card : Int)).sum

section Represents

variable {db after : Database} {config : Nat} {row : Config} {selector family : CString}
  {selection : Selection CString CString}

theorem known_eq (h : family ∈ families db) : known db family = items db family :=
  if_neg (mem_families.mp h).1

theorem mem_families_iff_known : family ∈ families db ↔ (known db family).Nonempty := by
  constructor
  · intro h
    rw [known_eq h]
    exact items_nonempty h
  · intro h
    unfold known at h
    split at h
    · exact absurd h Finset.not_nonempty_empty
    · rename_i hName
      obtain ⟨oid, hOid⟩ := h
      obtain ⟨nvt, hRow, hFamily, -⟩ := mem_items.mp hOid
      exact mem_families.mpr ⟨hName, nvt, hRow, hFamily⟩

/-- A selector that represents a selection is well formed. -/
theorem Represents.formed (h : Represents db config row selector selection) :
    Formed db selector row.familiesGrowing :=
  ⟨h.placed, fun family hFamily => ⟨_, _, (h.tidy family hFamily).shape⟩⟩

/-- What the code makes of a family is the choice in it. -/
theorem Represents.choiceOf_eq (h : Represents db config row selector selection)
    (hDistinct : DistinctOids db) (hFamily : family ∈ families db) :
    choiceOf db config family = selection.choice family := by
  have hTidy := h.tidy family hFamily
  rw [hTidy.shape.choiceOf_eq h.placed hDistinct h.stored h.named, chosenOf_listing hTidy.within]
  intro hStatic
  rw [← hTidy.shape.familyGrowing]
  exact h.informed hStatic family hFamily

/-- The NVTs that are listed for a family are those that are chosen. -/
theorem Represents.perm (h : Represents db config row selector selection)
    (hDistinct : DistinctOids db) (hFamily : family ∈ families db) :
    ((selectConfigNvts db config family).map (·.oid)).Perm
      (selection.choice family).chosen.toList := by
  have hTidy := h.tidy family hFamily
  have hPerm := hTidy.shape.selectConfigNvts h.placed hDistinct h.stored h.named fun hStatic => by
    rw [← hTidy.shape.familyGrowing]
    exact h.informed hStatic family hFamily
  rwa [chosenOf_listing hTidy.within] at hPerm

/-- The config scans with each chosen NVT once. -/
theorem Represents.scanned (h : Represents db config row selector selection)
    (hDistinct : DistinctOids db) :
    (scannedOids db config).Nodup ∧
      ∀ oid, oid ∈ scannedOids db config ↔
        ∃ family ∈ families db, oid ∈ (selection.choice family).chosen := by
  have hMem : ∀ family ∈ families db, ∀ oid,
      oid ∈ (selectConfigNvts db config family).map (·.oid) ↔
        oid ∈ (selection.choice family).chosen := by
    intro family hFamily oid
    rw [(h.perm hDistinct hFamily).mem_iff, Finset.mem_toList]
  constructor
  · apply List.nodup_flatMap.mpr
    constructor
    · intro family hFamily
      exact (h.perm hDistinct hFamily).nodup_iff.mpr (Finset.nodup_toList _)
    · apply (nodup_families db).imp_of_mem
      intro one two hOne hTwo hApart oid hHere hThere
      have hFirst := (h.tidy one hOne).within ((hMem one hOne oid).mp hHere)
      have hSecond := (h.tidy two hTwo).within ((hMem two hTwo oid).mp hThere)
      exact hApart (hDistinct.family_eq hFirst hSecond)
  · intro oid
    rw [scannedOids, List.mem_flatMap]
    constructor
    · rintro ⟨family, hFamily, hOid⟩
      exact ⟨family, hFamily, (hMem family hFamily oid).mp hOid⟩
    · rintro ⟨family, hFamily, hOid⟩
      exact ⟨family, hFamily, (hMem family hFamily oid).mpr hOid⟩

/-- The scanner is sent each chosen NVT once, and the settings, chosen or not, once more. -/
theorem Represents.sent (h : Represents db config row selector selection)
    (hDistinct : DistinctOids db) (oid : CString) :
    (pluginOids db config).count oid =
      (if ∃ family ∈ families db, oid ∈ (selection.choice family).chosen then 1 else 0) +
        if oid ∈ categoryOids db 2 then 1 else 0 := by
  obtain ⟨hOnce, hMem⟩ := h.scanned hDistinct
  have hSettings : (categoryOids db 2).Nodup := hDistinct.nodup_sortedNvts _
  have hChosen : (oid ∈ scannedOids db config) =
      ∃ family ∈ families db, oid ∈ (selection.choice family).chosen := propext (hMem oid)
  rw [pluginOids, List.count_append, hOnce.count, hSettings.count]
  simp only [hChosen]

/-- Semicolons tell the OIDs apart that the scanner is sent. -/
theorem splitOn_nvtSelectorPlugins (hOids : ∀ oid ∈ pluginOids db config, ch ';' ∉ oid)
    (hSome : pluginOids db config ≠ []) :
    (nvtSelectorPlugins db config).splitOn (ch ';') = pluginOids db config :=
  List.splitOn_intercalate (ch ';') hOids hSome

end Represents

/-! Rows that another config has. -/

/-- The rows of a selector, the NVTs and a config are as they were. -/
structure Untouched (config : Nat) (selector : CString) (db after : Database) : Prop
    extends SameRest db after where
  rows : ∀ p, selectorsWhere after selector p = selectorsWhere db selector p
  row : ∀ row, (config, row) ∈ after.configs.rows ↔ (config, row) ∈ db.configs.rows

section Untouched

variable {db after : Database} {config : Nat} {row : Config} {selector family : CString}
  {selection : Selection CString CString} {constraining growing : Bool}
  {listed : Bool → Finset CString}

theorem Untouched.families_eq (h : Untouched config selector db after) :
    families after = families db :=
  families_congr h.nvts

theorem Untouched.items_eq (h : Untouched config selector db after) : items after = items db :=
  items_congr h.nvts

theorem Untouched.placed (h : Untouched config selector db after)
    (hPlaced : Placed db selector constraining) : Placed after selector constraining := by
  constructor
  · rw [h.rows]
    exact hPlaced.all
  · rw [h.rows, h.families_eq]
    exact hPlaced.family
  · rw [h.rows, h.families_eq, h.items_eq]
    exact hPlaced.nvt

theorem Untouched.shape (h : Untouched config selector db after)
    (hShape : Shape db selector constraining family growing listed) :
    Shape after selector constraining family growing listed :=
  hShape.congr (h.rows _) fun exclude => (hShape.lists exclude).congr (h.rows _)

/-- A config that is not touched represents the selection as before. -/
theorem Untouched.represents (h : Untouched config selector db after)
    (hRepresents : Represents db config row selector selection) :
    Represents after config row selector selection := by
  constructor
  · exact (h.row row).mpr hRepresents.stored
  · exact hRepresents.named
  · exact hRepresents.growing
  · exact h.placed hRepresents.placed
  · rw [h.families_eq]
    intro family hFamily
    have hTidy := hRepresents.tidy family hFamily
    constructor
    · rw [h.items_eq]
      exact hTidy.within
    · rw [h.items_eq]
      exact h.shape hTidy.shape
  · rw [h.families_eq]
    exact hRepresents.fresh
  · intro hStatic
    rw [h.families_eq]
    intro family hFamily
    rw [(h.shape (hRepresents.tidy family hFamily).shape).familyGrowing,
      ← (hRepresents.tidy family hFamily).shape.familyGrowing]
    exact hRepresents.informed hStatic family hFamily
  · rw [h.families_eq]
    exact hRepresents.counted

end Untouched

/-! Numbers of NVTs. -/

/-- A sum in which one summand changes. -/
theorem sum_update {Index : Type*} [DecidableEq Index] {indices : List Index} {index : Index}
    {f g : Index → Int} (hNodup : indices.Nodup) (hMem : index ∈ indices)
    (hSame : ∀ other ∈ indices, other ≠ index → g other = f other) :
    (indices.map g).sum = (indices.map f).sum - f index + g index := by
  induction indices with
  | nil => cases hMem
  | cons first rest ih =>
      obtain ⟨hAbsent, hRest⟩ := List.nodup_cons.mp hNodup
      rw [List.map_cons, List.sum_cons, List.map_cons, List.sum_cons]
      by_cases hFirst : first = index
      · subst hFirst
        have hTail : rest.map g = rest.map f := by
          apply List.map_congr_left
          intro other hOther
          exact hSame other (List.mem_cons_of_mem _ hOther) fun h => hAbsent (h ▸ hOther)
        rw [hTail]
        omega
      · have hLater := ih hRest ((List.mem_cons.mp hMem).resolve_left fun h => hFirst h.symm)
          fun other hOther => hSame other (List.mem_cons_of_mem _ hOther)
        rw [hLater, hSame first List.mem_cons_self hFirst]
        omega

section Nvts

variable {db after : Database} {config : Nat} {row : Config} {selector family : CString}
  {selection : Selection CString CString} {selected : Finset CString}

/-- A config whose NVTs have been picked represents the picked selection. -/
theorem Picks.represents
    (h : Picks config selector family row (selection.choice family) selected db after)
    (hRepresents : Represents db config row selector selection) (hFamily : family ∈ families db) :
    ∃ row', row.Like row' ∧ Represents after config row' selector { selection with
      choice := Function.update selection.choice family
        ((selection.choice family).pick (known db family) selected) } := by
  obtain ⟨row', hRow', hLike, hNvts, hCount⟩ := h.row
  have hTidy : ∀ other ∈ families after, Tidy after selector row.familiesGrowing other
      (Function.update selection.choice family
        ((selection.choice family).pick (known db family) selected) other) := by
    intro other hOther
    rw [h.changes.families_eq] at hOther
    rw [known_eq hFamily]
    by_cases hSame : other = family
    · subst hSame
      rw [Function.update_self]
      constructor
      · rw [h.changes.items_eq]
        exact Choice.pick_within
      · rw [h.changes.items_eq]
        exact h.shape
    · rw [Function.update_of_ne hSame]
      exact h.changes.tidy hSame (hRepresents.tidy other hOther)
  refine ⟨row', hLike, ?_⟩
  constructor
  · exact hRow'
  · rw [hLike.nvtSelector]
    exact hRepresents.named
  · rw [hLike.familiesGrowing]
    exact hRepresents.growing
  · rw [hLike.familiesGrowing]
    exact h.placed
  · rw [hLike.familiesGrowing]
    exact hTidy
  · rw [h.changes.families_eq]
    intro other hOther
    have hApart : other ≠ family := by
      rintro rfl
      exact hOther hFamily
    exact (Function.update_of_ne hApart _ _).trans (hRepresents.fresh other hOther)
  · rw [Informed, hNvts, hLike.familiesGrowing]
    intro hStatic other hOther
    have hBefore := hRepresents.informed hStatic other (h.changes.families_eq ▸ hOther)
    rw [(hRepresents.tidy other (h.changes.families_eq ▸ hOther)).shape.familyGrowing] at hBefore
    rw [(hTidy other hOther).shape.familyGrowing]
    by_cases hSame : other = family
    · subst hSame
      rw [Function.update_self]
      exact hBefore
    · rw [Function.update_of_ne hSame]
      exact hBefore
  · rw [hCount, hRepresents.counted, h.changes.families_eq]
    have hSum := sum_update (f := fun other => ((selection.choice other).chosen.card : Int))
      (g := fun other => ((Function.update selection.choice family
        ((selection.choice family).pick (known db family) selected) other).chosen.card : Int))
      (nodup_families db) hFamily fun other _ hOther => by rw [Function.update_of_ne hOther]
    rw [Function.update_self, known_eq hFamily] at hSum
    rw [known_eq hFamily]
    exact hSum.symm

end Nvts

/-! `manage_set_config_families`. -/

/-- Whether new families are going to grow: a value other than 0 and 1 changes nothing. -/
def growth (growFamilies : Int) (growing : Bool) : Bool :=
  if (if growing then 1 else 0) + growFamilies = 1 then !growing else growing

section Families

variable {db after : Database} {now : Int} {config : Nat} {row : Config} {selector family : CString}
  {selection : Selection CString CString}

/-- What the command leaves of the config and its selector. -/
structure Sets (config : Nat) (selector : CString) (row : Config)
    (selection : Selection CString CString) (chosen : FamilySelection) (growing : Bool)
    (db after : Database) : Prop extends SameRest db after where
  elsewhere : ∀ name ≠ selector, ∀ p, selectorsWhere after name p = selectorsWhere db name p
  formed : Formed after selector growing
  shape : ∀ family ∈ families db, Shape after selector growing family
    (outcome growing (items db family) (selection.choice family) (chosen.setting family)).growing
    (outcome growing (items db family) (selection.choice family) (chosen.setting family)).listed
  row : ∃ row', (config, row') ∈ after.configs.rows ∧ row'.nvtSelector = some selector ∧
    row'.name = row.name ∧ row'.familiesGrowing = growing ∧ Informed after selector row' ∧
    row'.nvtCount = ((families db).map fun family =>
      ((outcome growing (items db family) (selection.choice family)
        (chosen.setting family)).counted.card : Int)).sum
  others : ∀ number ≠ config, ∀ other,
    (number, other) ∈ after.configs.rows ↔ (number, other) ∈ db.configs.rows

/-- The choice in a family after the command. -/
theorem Sets.choiceOf_eq {chosen : FamilySelection} {growing : Bool}
    (h : Sets config selector row selection chosen growing db after) (hDistinct : DistinctOids db)
    (hFamily : family ∈ families db) (hWithin : (selection.choice family).chosen ⊆ items db family) :
    choiceOf after config family =
      if Stuck growing (items db family) (selection.choice family) (chosen.setting family) then
        .fresh false
      else (selection.choice family).set (items db family) (chosen.setting family) := by
  have hItems := congrFun (items_congr h.nvts) family
  have hFamilies := families_congr h.nvts
  have hDistinct' := hDistinct.congr h.nvts
  obtain ⟨row', hRow', hNamed, -, rfl, hInformed, -⟩ := h.row
  have hShape := h.shape family hFamily
  rw [hShape.choiceOf_eq h.formed.placed hDistinct' hRow' hNamed, hItems]
  · unfold outcome
    split
    · rfl
    · rw [settled, chosenOf_listing (Choice.set_within hWithin _)]
  · intro hStatic
    rw [← hShape.familyGrowing]
    exact hInformed hStatic family (hFamilies.symm ▸ hFamily)

/-- Unless a family is stuck, the rows stand for what is asked for. -/
theorem Sets.represents {chosen : FamilySelection} {growing : Bool}
    (h : Sets config selector row selection chosen growing db after)
    (hWithin : ∀ family ∈ families db, (selection.choice family).chosen ⊆ items db family)
    (hFree : ∀ family ∈ families db,
      ¬Stuck growing (items db family) (selection.choice family) (chosen.setting family)) :
    ∃ row', row'.name = row.name ∧ Represents after config row' selector {
      growing := growing
      choice := fun family => if (known db family).Nonempty then
          (selection.choice family).set (known db family) (chosen.setting family)
        else .fresh growing } := by
  have hItems := items_congr h.nvts
  have hFamilies := families_congr h.nvts
  obtain ⟨row', hRow', hNamed, hName, rfl, hInformed, hCount⟩ := h.row
  refine ⟨row', hName, hRow', hNamed, rfl, h.formed.placed, ?_, ?_, hInformed, ?_⟩
  · intro family hFamily
    rw [hFamilies] at hFamily
    have hShape := h.shape family hFamily
    rw [outcome, if_neg (hFree family hFamily)] at hShape
    dsimp only
    rw [if_pos (mem_families_iff_known.mp hFamily), known_eq hFamily]
    constructor
    · rw [hItems]
      exact Choice.set_within (hWithin family hFamily) _
    · rw [hItems]
      exact hShape
  · intro family hFamily
    rw [hFamilies] at hFamily
    exact if_neg fun hKnown => hFamily (mem_families_iff_known.mpr hKnown)
  · rw [hCount, hFamilies]
    apply congrArg List.sum
    apply List.map_congr_left
    intro family hFamily
    dsimp only
    rw [outcome, if_neg (hFree family hFamily), if_pos (mem_families_iff_known.mp hFamily),
      known_eq hFamily]
    rfl

end Families

end Configs
