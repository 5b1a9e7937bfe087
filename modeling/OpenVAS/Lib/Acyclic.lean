import Mathlib.Data.Fintype.Card
import Mathlib.Logic.Relation

/-! Relations without cycles on a finite type: a recursion along such a relation
ends, and along a relation with a cycle some recursion never leaves the cycle. -/
namespace Acyclic

open Relation

variable {α : Type*} {r : α → α → Prop}

/-- A recursion that goes from an element to those it is related to ends. -/
theorem wellFounded [Finite α] (h : ∀ a, ¬ TransGen r a a) :
    WellFounded (fun d p => r p d) := by
  have hTrans : IsTrans α fun d p => TransGen r p d := ⟨fun _ _ _ hba hcb => hcb.trans hba⟩
  have hIrrefl : Std.Irrefl fun d p => TransGen r p d := ⟨h⟩
  have hWf : WellFounded fun d p => TransGen r p d := Finite.wellFounded_of_trans_of_irrefl _
  exact Subrelation.wf (fun h => TransGen.single h) hWf

/-- A rank that falls along each step falls along each path. -/
theorem rank_lt (rank : α → Nat) (h : ∀ a b, r a b → rank b < rank a) {a b : α}
    (hab : TransGen r a b) : rank b < rank a := by
  induction hab with
  | single hEdge => exact h _ _ hEdge
  | tail _ hEdge ih => exact (h _ _ hEdge).trans ih

theorem of_rank (rank : α → Nat) (h : ∀ a b, r a b → rank b < rank a) (a : α) :
    ¬ TransGen r a a :=
  fun hCycle => absurd (rank_lt rank h hCycle) (lt_irrefl _)

/-- The elements on a common cycle with `p`, and `p` itself. -/
def OnCycle (r : α → α → Prop) (p q : α) : Prop := ReflTransGen r p q ∧ ReflTransGen r q p

/-- An element on a cycle has a successor on it. -/
theorem OnCycle.next {p q : α} (hCycle : TransGen r p p) (h : OnCycle r p q) :
    ∃ d, r q d ∧ OnCycle r p d := by
  have hBack : TransGen r q p := TransGen.trans_right h.2 hCycle
  obtain ⟨d, hEdge, hRest⟩ := TransGen.head'_iff.mp hBack
  exact ⟨d, hEdge, h.1.tail hEdge, hRest⟩

end Acyclic
