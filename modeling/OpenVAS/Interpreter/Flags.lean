import Mathlib.Data.List.Forall2
import OpenVAS.Interpreter.Related

/-! What a tree leaves alone: the flags of the contexts above its own and, where it is an expression, those
of its own context. A return value that it sets can be tested without executing anything. -/
namespace Interpreter

open StateComp

variable {B : Base}

/-- A cell that conversions take as it is. -/
def Cell.isAtom {Value Ref : Type} : Cell Value Ref → Bool
  | .refVar _ => false
  | _ => true

/-- A context gets no return value but an atom. -/
def Returns (c d : Ctxt B) : Prop :=
  d.retVal = c.retVal ∨ ∃ v, d.retVal = some v ∧ v.isAtom = true

/-- The flags of a context are as they were, and it can only have got a return value. -/
structure Keeps (c d : Ctxt B) : Prop where
  breakFlag : d.breakFlag = c.breakFlag
  contFlag : d.contFlag = c.contFlag
  returns : Returns c d

/-- The contexts above keep their flags, and of its own context `P` says what becomes of it. -/
structure Keeping (P : Ctxt B → Ctxt B → Prop) (σ τ : State B) : Prop where
  lexic : P σ.lexic τ.lexic
  up : List.Forall₂ Keeps σ.up τ.up

theorem Returns.refl (c : Ctxt B) : Returns c c := Or.inl rfl

theorem Returns.trans {c d e : Ctxt B} (h : Returns c d) (h' : Returns d e) : Returns c e := by
  cases h' with
  | inl hSame =>
      rw [Returns, hSame]
      exact h
  | inr hAtom => exact Or.inr hAtom

theorem Keeps.refl (c : Ctxt B) : Keeps c c := ⟨rfl, rfl, Returns.refl c⟩

theorem Keeps.trans {c d e : Ctxt B} (h : Keeps c d) (h' : Keeps d e) : Keeps c e :=
  ⟨h'.breakFlag.trans h.breakFlag, h'.contFlag.trans h.contFlag, h.returns.trans h'.returns⟩

theorem keeps_setRetVal {retv : B.Cell} (h : retv.isAtom = true) (c : Ctxt B) : Keeps c (setRetVal retv c) :=
  ⟨rfl, rfl, Or.inr ⟨retv, rfl, h⟩⟩

theorem keeps_all (up : List (Ctxt B)) : List.Forall₂ Keeps up up :=
  List.forall₂_same.mpr fun c _ => Keeps.refl c

theorem forall₂_keeps_trans {cs ds es : List (Ctxt B)} (h : List.Forall₂ Keeps cs ds)
    (h' : List.Forall₂ Keeps ds es) : List.Forall₂ Keeps cs es := by
  induction h generalizing es with
  | nil => exact h'
  | cons hFirst _ ih =>
      cases h' with
      | cons hFirst' hRest' => exact List.Forall₂.cons (hFirst.trans hFirst') (ih hRest')

/-- What may become of the own context: more than what an expression does. -/
structure Admits (P : Ctxt B → Ctxt B → Prop) : Prop where
  keeps : ∀ {c d}, Keeps c d → P c d
  trans : ∀ {c d e}, P c d → P d e → P c e

theorem admits_keeps : Admits (B := B) Keeps := ⟨id, Keeps.trans⟩

theorem admits_returns : Admits (B := B) Returns := ⟨Keeps.returns, Returns.trans⟩

section Keeping

variable {P : Ctxt B → Ctxt B → Prop} (hP : Admits P)

include hP

theorem keeping_refl (σ : State B) : Keeping P σ σ := ⟨hP.keeps (Keeps.refl _), keeps_all _⟩

/-- How a computation ends that does not return is of no interest. -/
theorem keeping_chained : Chained (Keeping P) fun _ _ => True where
  refl σ := keeping_refl hP σ
  weaken _ _ _ := trivial
  trans _ _ _ h h' := ⟨hP.trans h.lexic h'.lexic, forall₂_keeps_trans h.up h'.up⟩
  transQ _ _ _ _ _ := trivial

/-- What only reads and writes the world keeps the flags. -/
theorem keeping_framed : Framed (B := B) fun _ m _ => Ensures (Keeping P) (fun _ _ => True) m :=
  ensures_framed (keeping_chained hP) fun σ _ => ⟨hP.keeps (Keeps.refl _), keeps_all σ.up⟩

/-- A declaration keeps the flags. -/
theorem declNaslFunc_keeping (name : String) (block : Tree B) :
    Ensures (Keeping P) (fun _ _ => True) (declNaslFunc name block : M B (Option B.Cell)) := by
  apply (keeping_chained hP).bind (keeping_chained hP).get
  intro σ
  split
  · exact (keeping_chained hP).pure _
  · apply (keeping_chained hP).bind
    · apply Ensures.modify
      intro σ
      exact ⟨hP.keeps ⟨rfl, rfl, Or.inl rfl⟩, keeps_all σ.up⟩
    · exact fun _ => (keeping_chained hP).pure _

/-- An exit keeps the flags. -/
theorem naslDoExit_keeping : Ensures (Keeping P) (fun _ _ => True) (naslDoExit : M B (Option B.Cell)) := by
  apply (keeping_chained hP).bind ((keeping_framed hP).askWorld _)
  intro retcode
  apply (keeping_chained hP).bind ((keeping_framed hP).onWorld _)
  intro _
  apply (keeping_chained hP).bind
  · apply Ensures.modify
    intro σ
    refine ⟨hP.keeps (keeps_setRetVal rfl _), ?_⟩
    rw [List.forall₂_map_right_iff]
    exact List.forall₂_same.mpr fun c _ => keeps_setRetVal rfl c
  · exact fun _ => (keeping_chained hP).pure _

omit hP in
theorem setRetValUp_keeps {retv : B.Cell} (h : retv.isAtom = true) (up : List (Ctxt B)) :
    List.Forall₂ Keeps up (setRetValUp retv up) := by
  induction up with
  | nil => exact List.Forall₂.nil
  | cons c up ih =>
      rw [setRetValUp]
      apply List.Forall₂.cons (keeps_setRetVal h c)
      split
      · exact keeps_all up
      · exact ih

/-- A return with an atom keeps the flags. -/
theorem leave_keeping {retv : B.Cell} (h : retv.isAtom = true) (σ : State B) : Keeping P σ (σ.leave retv) := by
  refine ⟨hP.keeps (keeps_setRetVal h _), ?_⟩
  change List.Forall₂ Keeps σ.up (if σ.lexic.fctCtxt then σ.up else setRetValUp retv σ.up)
  split
  · exact keeps_all σ.up
  · exact setRetValUp_keeps h σ.up

variable {exec : Tree B → M B (Option B.Cell)}

omit hP in
/-- What `cell2atom` gives is an atom. -/
theorem cell2atom_isAtom {fuel : Nat} {t : Tree B} {σ τ : State B} {c : B.Cell}
    (h : cell2atom exec fuel t σ = (some (some c), τ)) : c.isAtom = true := by
  fun_induction cell2atom exec fuel t generalizing σ with
  | case1 => cases h
  | case2 | case3 =>
      cases h
      rfl
  | case4 => cases h
  | case5 fuel t hNone hFake hLeaf ih =>
      obtain ⟨c2, σ₁, _, hRest⟩ := bind_eq_some.mp h
      exact ih c2 hRest

/-- The cell that `return` makes of a value. -/
def retCell (retv : Option B.Cell) (world : B.World) : B.Cell :=
  match retv with
  | none => .fake
  | some (.leaf v) => .leaf (B.copyRefArray v world)
  | some c => c

omit hP in
theorem retCell_isAtom {retv : Option B.Cell} (h : ∀ c, retv = some c → c.isAtom = true) (world : B.World) :
    (retCell retv world).isAtom = true := by
  match retv with
  | none | some .fake | some (.leaf v) => rfl
  | some (.refVar v) => exact h (.refVar v) rfl

omit hP in
theorem naslReturn_eq (fuel : Nat) (retv : Tree B) :
    naslReturn exec fuel retv = (do
      let retv ← cell2atom exec fuel retv
      let σ ← get
      modify (State.leave (retCell retv σ.world))
      return some .fake) := rfl

/-- A return keeps the flags if its value does. -/
theorem naslReturn_keeping (hCells : ∀ c, Ensures (Keeping P) (fun _ _ => True) (exec (.cell c))) (fuel : Nat)
    {retv : Tree B} (hRetv : Ensures (Keeping P) (fun _ _ => True) (exec retv)) :
    Ensures (Keeping P) (fun _ _ => True) (naslReturn exec fuel retv) := by
  intro σ
  rw [naslReturn_eq]
  apply (keeping_chained hP).bindAt
    (cell2atom_ensures (keeping_framed hP) hCells fuel hRetv σ)
  intro retc τ hAtom
  rw [bind_of_some (get_apply τ), bind_of_some (modify_apply _ τ)]
  apply leave_keeping hP
  apply retCell_isAtom
  rintro c rfl
  exact cell2atom_isAtom hAtom

/-! Calls. -/

variable (hExec : ∀ t, Ensures (Keeping Returns) (fun _ _ => True) (exec t))

include hExec

omit hP in
/-- The block of a function can set the flags of its own context only, which the call gives up.
-/
theorem callBlock_keeping (f : NaslFunc B) : Ensures (Keeping Returns) (fun _ _ => True) (callBlock exec f) := by
  have hChained := keeping_chained (B := B) admits_returns
  have hNote : ∀ e : Event B, Ensures (Keeping Returns) (fun _ _ => True) (modify (State.note · e)) :=
    fun e => Ensures.modify fun σ => ⟨Returns.refl σ.lexic, keeps_all σ.up⟩
  unfold callBlock
  cases f.block with
  | doExit => exact hChained.bind (hNote _) fun _ => naslDoExit_keeping admits_returns
  | internal pf2 =>
      apply hChained.bind (hNote _)
      intro _
      apply hChained.bind ((keeping_framed admits_returns).askWorld _)
      intro result
      exact hChained.bind ((keeping_framed admits_returns).orStuck _) fun _ =>
        (keeping_framed admits_returns).onWorld _
  | tree block =>
      apply hChained.bind (hNote _)
      intro _
      exact hChained.bind (hExec block) fun _ => hChained.pure _

/-- The context of a call is gone at its end, and its block is the only thing that runs in it. -/
theorem startBlock_keeping (f : NaslFunc B) (frame : B.Frame) :
    Ensures (Keeping P) (fun _ _ => True) (do
      pushCtxt frame
      let retc ← callBlock exec f
      let σ ← get
      popCtxt
      return fixRetVal retc σ.lexic.retVal : M B (Option B.Cell)) := by
  intro σ
  unfold pushCtxt
  rw [bind_of_some (modify_apply _ σ)]
  have hBlock := callBlock_keeping hExec f
    { σ with world := B.chain frame σ.world, lexic := ⟨none, true, false, false, []⟩, up := σ.lexic :: σ.up }
  rcases hRun : callBlock exec f
      { σ with world := B.chain frame σ.world, lexic := ⟨none, true, false, false, []⟩, up := σ.lexic :: σ.up }
      with ⟨_ | retc, τ⟩
  · rw [bind_of_none hRun]
    trivial
  · rw [hRun] at hBlock
    rw [bind_of_some hRun, bind_of_some (get_apply τ)]
    have hUp := hBlock.up
    unfold popCtxt
    generalize hAbove : τ.up = up at hUp
    cases hUp with
    | cons hOwn hRest =>
        rw [bind_of_some (a := ()) (t := _) (by rw [bind_of_some (get_apply τ), hAbove]; rfl)]
        exact ⟨hP.keeps hOwn, hRest⟩

/-- A call keeps the flags if its arguments do. -/
theorem naslFuncCall_keeping (hCells : ∀ c, Ensures (Keeping P) (fun _ _ => True) (exec (.cell c))) (fuel : Nat)
    (f : NaslFunc B) {argList : List (Option String × Tree B)}
    (hArgs : ∀ t ∈ argList.map Prod.snd, Ensures (Keeping P) (fun _ _ => True) (exec t)) :
    Ensures (Keeping P) (fun _ _ => True) (naslFuncCall exec fuel f argList) := by
  have hChained := keeping_chained hP
  have hStack : ∀ g : State B → List (List (Option String)), Ensures (Keeping P) (fun _ _ => True)
      (modify fun σ => { σ with calls := g σ } : M B Unit) :=
    fun g => Ensures.modify fun σ => ⟨hP.keeps (Keeps.refl _), keeps_all σ.up⟩
  unfold naslFuncCall
  split
  · exact hChained.pure _
  · apply hChained.bind (hStack _)
    intro _
    apply hChained.bind (addArgs_ensures (keeping_framed hP) hCells fuel hArgs _ _)
    intro frame
    apply hChained.bind (hStack _)
    intro _
    cases frame with
    | none => exact hChained.pure _
    | some frame => exact startBlock_keeping hP hExec f frame

end Keeping

/-! Whole trees. -/

/-- No statement gives its context a return value but an atom, or sets flags of those above. -/
theorem naslExec_returns (fuel : Nat) (st : Tree B) :
    Ensures (Keeping Returns) (fun _ _ => True) (naslExec fuel st) := by
  induction fuel generalizing st with
  | zero => exact (keeping_chained admits_returns).stuck
  | succ fuel ih =>
      have hCells : ∀ c, Ensures (Keeping Returns) (fun _ _ => True) (naslExec fuel (.cell (B := B) c)) :=
        fun c => ih (.cell c)
      have hFlags : Flagged (B := B) fun _ m _ => Ensures (Keeping Returns) (fun _ _ => True) m := {
        breakFlag := fun flag => Ensures.modify fun σ => ⟨Or.inl rfl, keeps_all σ.up⟩
        contFlag := fun flag => Ensures.modify fun σ => ⟨Or.inl rfl, keeps_all σ.up⟩ }
      intro σ
      apply naslExec_outcome (keeping_chained admits_returns)
      intro _
      have hNode : Ensures (Keeping Returns) (fun _ _ => True) (execNode (naslExec fuel) fuel st) := by
        cases hKind : st.isSimple with
        | false =>
            exact execControl_ensures (keeping_framed admits_returns) hCells hFlags fuel hKind (fun c _ => ih c)
              fun retv => naslReturn_keeping admits_returns hCells fuel
        | true =>
            apply execSimple_ensures (keeping_framed admits_returns) hCells (fun op c c' => ih _)
              (declNaslFunc_keeping admits_returns) fuel hKind (fun c _ => ih c)
            rintro name args rfl
            apply (keeping_chained admits_returns).bind (keeping_chained admits_returns).get
            intro σ
            split
            · exact (keeping_chained admits_returns).pure _
            · exact naslFuncCall_keeping admits_returns ih hCells fuel _ fun t _ => ih t
      exact (keeping_chained admits_returns).after (t := σ.note (.node st)) ⟨Returns.refl _, keeps_all _⟩
        (hNode _)

/-- An expression: no statement is in it, apart from those in the functions that it calls. -/
inductive IsExpr : Tree B → Prop where
  | mk {t : Tree B} (simple : t.isSimple = true) (parts : ∀ c ∈ t.parts, IsExpr c) : IsExpr t

theorem IsExpr.isSimple {t : Tree B} (h : IsExpr t) : t.isSimple = true := by
  cases h
  assumption

theorem IsExpr.of_part {t c : Tree B} (h : IsExpr t) (hc : c ∈ t.parts) : IsExpr c := by
  cases h with
  | mk _ hParts => exact hParts c hc

theorem isExpr_cell (c : Option B.Cell) : IsExpr (.cell c) := ⟨rfl, fun _ h => nomatch h⟩

/-- Every expression keeps the flags, by induction on the fuel. -/
theorem naslExec_keeps (fuel : Nat) {e : Tree B} (he : IsExpr e) :
    Ensures (Keeping Keeps) (fun _ _ => True) (naslExec fuel e) := by
  induction fuel generalizing e with
  | zero => exact (keeping_chained admits_keeps).stuck
  | succ fuel ih =>
      obtain ⟨hSimple, hParts⟩ := he
      have hCells : ∀ c, Ensures (Keeping Keeps) (fun _ _ => True) (naslExec fuel (.cell (B := B) c)) :=
        fun c => ih (isExpr_cell c)
      intro σ
      apply naslExec_outcome (keeping_chained admits_keeps)
      intro _
      have hNode : Ensures (Keeping Keeps) (fun _ _ => True) (execNode (naslExec fuel) fuel e) := by
        apply execSimple_ensures (keeping_framed admits_keeps) hCells _
          (declNaslFunc_keeping admits_keeps) fuel hSimple (fun c hc => ih (hParts c hc))
        · rintro name args rfl
          apply (keeping_chained admits_keeps).bind (keeping_chained admits_keeps).get
          intro σ
          split
          · exact (keeping_chained admits_keeps).pure _
          · exact naslFuncCall_keeping admits_keeps (naslExec_returns fuel) hCells fuel _ fun t ht =>
              ih (hParts t ht)
        · intro op c c'
          exact ih ⟨rfl, by simp [Tree.parts, isExpr_cell]⟩
      exact (keeping_chained admits_keeps).after (t := σ.note (.node e)) ⟨Keeps.refl _, keeps_all _⟩ (hNode _)

end Interpreter
