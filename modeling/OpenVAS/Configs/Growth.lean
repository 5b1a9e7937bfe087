import OpenVAS.Configs.Runs

/-! What becomes of the NVTs that a config scans with: when it is decided otherwise whether new
families grow, when a family is stuck, and when more NVTs come. -/
namespace Configs

open CString Choices Transaction

/-! The other representation. -/

section Switch

variable {db : Database} {config : Nat} {row : Config} {selector : CString}

end Switch

/-! A family that is stuck. -/

section Stuck

variable {db after : Database} {now : Int} {config : Nat} {row : Config} {selector : CString}
  {selection : Selection CString CString}

end Stuck

/-! More NVTs. -/

section Updates

variable {db : Database} {world : World Nat CString CString}

/-- An update keeps the numbers of the configs. -/
theorem numbers_rebuild (h : Tracks db world) {nvts : List Nvt} (number : Nat) :
    (∃ row, (number, row) ∈ (step db (.rebuild nvts)).configs.rows) ↔
      ∃ row, (number, row) ∈ db.configs.rows := by
  rw [step_rebuild_eq h]
  constructor
  · rintro ⟨row, hRow⟩
    obtain ⟨old, hOld, -⟩ := Table.mem_update.mp hRow
    exact ⟨old, hOld⟩
  · rintro ⟨row, hRow⟩
    exact ⟨_, Table.mem_update.mpr ⟨row, hRow, rfl⟩⟩

/-- What holds after some updates of the NVTs. -/
structure Updated (db : Database) (world : World Nat CString CString) (state : State) : Prop where
  tracks : Tracks state.1 state.2
  more : ∀ family, known db family ⊆ known state.1 family
  numbers : ∀ number, (∃ row, (number, row) ∈ state.1.configs.rows) ↔
    ∃ row, (number, row) ∈ db.configs.rows
  selection : ∀ number, (state.2.selection number).growing = (world.selection number).growing ∧
    ∀ family, (state.2.selection number).choice family =
      ((world.selection number).choice family).extend (known db family) (known state.1 family)

/-- Nothing has happened yet. -/
theorem Updated.refl (h : Tracks db world) : Updated db world (db, world) := by
  constructor
  · exact h
  · exact fun family => Finset.Subset.refl _
  · exact fun number => Iff.rfl
  · exact fun number => ⟨rfl, fun family => (Choice.extend_self _ _).symm⟩

/-- One more update of the NVTs. -/
theorem Updated.rebuild {state : State} (h : Updated db world state) {nvts : List Nvt}
    (hFits : Fits state.1 (.rebuild nvts)) : Updated db world (stepBoth state (.rebuild nvts)) := by
  have hTracks : Tracks (step state.1 (.rebuild nvts)) (follow state.2 (.rebuild nvts)) :=
    step_rebuild h.tracks hFits
  have hKnown : ∀ family, known (step state.1 (.rebuild nvts)) family =
      if family = lit "Credentials" then ∅
      else ((nvts.filter (·.family = family)).map (·.oid)).toFinset :=
    fun family => (hTracks.items family).symm
  have hMore : ∀ family, known state.1 family ⊆ known (step state.1 (.rebuild nvts)) family := by
    intro family
    rw [hKnown, known]
    split
    · exact Finset.Subset.refl _
    · exact hFits.2 family
  constructor
  · exact hTracks
  · exact fun family => (h.more family).trans (hMore family)
  · exact fun number => (numbers_rebuild h.tracks number).trans (h.numbers number)
  · intro number
    obtain ⟨hGrowing, hChoice⟩ := h.selection number
    constructor
    · exact hGrowing
    · intro family
      have hFollow : ((stepBoth state (.rebuild nvts)).2.selection number).choice family =
          ((state.2.selection number).choice family).extend (state.2.items family)
            (known (step state.1 (.rebuild nvts)) family) := by
        rw [hKnown]
        rfl
      rw [hFollow, hChoice, h.tracks.items]
      exact Choice.extend_extend (h.more family) (hMore family)

end Updates

end Configs
