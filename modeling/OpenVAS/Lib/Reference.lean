import OpenVAS.Lib.Table

/-! Rows that refer to a row of another table, which is moved from one place to another
and gets another number there. -/

/-- How a row refers to a number in a place, and what else it says. -/
structure Reference (Row Place : Type*) where
  refers : Nat → Place → Row → Prop
  same : Row → Row → Prop
  refl : ∀ row, same row row
  trans : ∀ one two three, same one two → same two three → same one three

namespace Reference

variable {Row Place : Type*} (reference : Reference Row Place)

/-- The rows that refer to a number in a place refer to another one later, and say the
same otherwise. -/
def Follows (before after : Table Row) (number : Nat) (place : Place) (number' : Nat)
    (place' : Place) : Prop :=
  ∀ n row, (n, row) ∈ before.rows → reference.refers number place row →
    ∃ row', (n, row') ∈ after.rows ∧ reference.refers number' place' row' ∧ reference.same row row'

variable {reference} {one two three : Table Row} {number number' number'' : Nat}
  {place place' place'' : Place}

namespace Follows

theorem refl (table : Table Row) (number : Nat) (place : Place) :
    reference.Follows table table number place number place :=
  fun _ row hRow hRefers => ⟨row, hRow, hRefers, reference.refl row⟩

theorem trans (h : reference.Follows one two number place number' place')
    (h' : reference.Follows two three number' place' number'' place'') :
    reference.Follows one three number place number'' place'' := by
  intro n row hRow hRefers
  obtain ⟨row', hRow', hRefers', hSame⟩ := h n row hRow hRefers
  obtain ⟨row'', hRow'', hRefers'', hSame'⟩ := h' n row' hRow' hRefers'
  exact ⟨row'', hRow'', hRefers'', reference.trans _ _ _ hSame hSame'⟩

theorem update {f : Row → Row} (h : ∀ row, reference.refers number place row →
    reference.refers number' place' (f row) ∧ reference.same row (f row)) :
    reference.Follows one (one.update f) number place number' place' := by
  intro n row hRow hRefers
  obtain ⟨hRefers', hSame⟩ := h row hRefers
  exact ⟨f row, Table.mem_update.mpr ⟨row, hRow, rfl⟩, hRefers', hSame⟩

/-- An update that leaves the referring rows alone. -/
theorem keep {f : Row → Row} (h : ∀ row, reference.refers number place row → f row = row) :
    reference.Follows one (one.update f) number place number place := by
  apply update
  intro row hRefers
  rw [h row hRefers]
  exact ⟨hRefers, reference.refl row⟩

theorem delete {gone : Row → Bool} (h : ∀ row, reference.refers number place row →
    gone row = false) :
    reference.Follows one (one.delete fun _ row => gone row) number place number place := by
  intro n row hRow hRefers
  exact ⟨row, Table.mem_delete.mpr ⟨hRow, h row hRefers⟩, hRefers, reference.refl row⟩

/-- A row that refers to the new number does so at the end of the way. -/
theorem refers (h : reference.Follows one two number place number' place') {n : Nat} {row row' : Row}
    (hRow : (n, row) ∈ one.rows) (hRefers : reference.refers number place row)
    (hRow' : (n, row') ∈ two.rows) : reference.refers number' place' row' := by
  obtain ⟨found, hFound, hRefers', -⟩ := h n row hRow hRefers
  rwa [Table.row_eq hRow' hFound]

end Follows

end Reference
