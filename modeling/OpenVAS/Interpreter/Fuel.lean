import OpenVAS.Interpreter.Related

/-! What the interpreter returns with some fuel it returns with more. -/
namespace Interpreter

open StateComp

variable {B : Base} {exec exec' : Tree B → M B (Option B.Cell)}

section Calls

variable (hExec : ∀ t, Le (exec t) (exec' t))

include hExec

theorem callBlock_le (f : NaslFunc B) : Le (callBlock exec f) (callBlock exec' f) := by
  unfold callBlock
  cases f.block with
  | doExit | internal => exact Le.refl _
  | tree block => exact Le.bind (Le.refl _) fun _ => Le.bind (hExec block) fun _ => Le.refl _

/-- More fuel changes nothing in a call that returns. -/
theorem naslFuncCall_le {fuel fuel' : Nat} (hFuel : fuel ≤ fuel') (f : NaslFunc B)
    (argList : List (Option String × Tree B)) :
    Le (naslFuncCall exec fuel f argList) (naslFuncCall exec' fuel' f argList) := by
  unfold naslFuncCall
  split
  · exact Le.refl _
  · apply Le.bind (Le.refl _)
    intro _
    apply Le.bind (addArgs_related le_framed (fun c => hExec (.cell c)) hFuel (fun t _ => hExec t) _ _)
    intro frame
    apply Le.bind (Le.refl _)
    intro _
    cases frame with
    | none => exact Le.refl _
    | some frame =>
        apply Le.bind (Le.refl _)
        intro _
        exact Le.bind (callBlock_le hExec f) fun retc => Le.refl _

end Calls

/-- More fuel changes nothing in a run that returns. -/
theorem naslExec_le {fuel fuel' : Nat} (hFuel : fuel ≤ fuel') (st : Tree B) :
    Le (naslExec fuel st) (naslExec fuel' st) := by
  induction fuel generalizing fuel' st with
  | zero => exact Le.stuck _
  | succ fuel ih =>
      obtain ⟨fuel', rfl⟩ := Nat.exists_eq_succ_of_ne_zero (Nat.ne_zero_of_lt hFuel)
      have hRest := Nat.le_of_succ_le_succ hFuel
      have hExec : ∀ t : Tree B, Le (naslExec fuel t) (naslExec fuel' t) := fun t => ih hRest t
      have hCells : ∀ c : Option B.Cell, Le (naslExec fuel (.cell c)) (naslExec fuel' (.cell c)) :=
        fun c => hExec (.cell c)
      unfold naslExec
      apply Le.bind (Le.refl _)
      intro σ
      split
      · exact Le.refl _
      · split
        · exact Le.refl _
        · split
          · exact Le.refl _
          · exact Le.refl _
          · apply Le.bind (Le.refl _)
            intro _
            cases hKind : st.isSimple with
            | false =>
                exact execControl_related le_framed hCells hRest le_flagged hKind (fun c _ => hExec c)
                  fun retv => naslReturn_related le_framed hCells hRest fun _ => Le.refl _
            | true =>
                apply execSimple_related le_framed hCells hRest (fun op c c' => hExec _)
                  (fun name block => Le.refl _) hKind (fun c _ => hExec c)
                rintro name args rfl
                apply Le.bind (Le.refl _)
                intro σ
                split
                · exact Le.refl _
                · exact naslFuncCall_le hExec hRest _ args

end Interpreter
