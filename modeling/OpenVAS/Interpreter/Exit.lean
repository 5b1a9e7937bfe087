import Mathlib.Data.List.ReduceOption
import OpenVAS.Interpreter.Related

/-! What runs after `exit`. The return value that `nasl_do_exit` leaves in all contexts stops
`nasl_exec`, but a call whose arguments are being evaluated is not stopped by it. -/
namespace Interpreter

open StateComp

variable {B : Base}

/-- A node, a function body or a built-in function is started. -/
def Event.isStart : Event B → Bool
  | .exit _ => false
  | _ => true

def Exited (trace : List (Event B)) : Prop := ∃ calls, .exit calls ∈ trace

/-- Nothing is started after a call of `exit`; what is latest comes first. -/
def Quiet (trace : List (Event B)) : Prop :=
  ∀ later calls earlier, trace = later ++ .exit calls :: earlier → ∀ e ∈ later, e.isStart = false

/-- A call with these argument names starts its function: none is given twice. -/
def Starts (names : List (Option String)) : Prop := names.reduceOption.Nodup

/-- Wherever `exit` was called, no call that starts its function had its arguments evaluated. -/
def OutsideCalls (trace : List (Event B)) : Prop :=
  ∀ calls, .exit calls ∈ trace → ∀ names ∈ calls, ¬ Starts names

/-- One more event is quiet if it does not start something after an exit. -/
theorem quiet_cons {e : Event B} {trace : List (Event B)} :
    Quiet (e :: trace) ↔ Quiet trace ∧ (e.isStart = true → ¬ Exited trace) := by
  constructor
  · intro h
    constructor
    · intro later calls earlier hTrace e' hLater
      exact h (e :: later) calls earlier (by rw [hTrace, List.cons_append]) e' (by simp [hLater])
    · intro hStart hExited
      obtain ⟨calls, hCalls⟩ := hExited
      obtain ⟨later, earlier, hTrace⟩ := List.append_of_mem hCalls
      have hNot := h (e :: later) calls earlier (by rw [hTrace, List.cons_append]) e (by simp)
      rw [hNot] at hStart
      cases hStart
  · intro ⟨hQuiet, hStart⟩ later calls earlier hTrace e' hLater
    cases later with
    | nil => cases hLater
    | cons e'' later =>
        obtain ⟨rfl, rfl⟩ := List.cons.inj hTrace
        cases hLater with
        | head =>
            cases hIs : e.isStart with
            | false => rfl
            | true => exact absurd ⟨calls, by simp⟩ (hStart hIs)
        | tail _ hLater => exact hQuiet later calls earlier rfl e' hLater

/-- A start after `exit` stays in the trace. -/
theorem Quiet.mono {old new : List (Event B)} (h : old <:+ new) (hNew : Quiet new) : Quiet old := by
  obtain ⟨between, rfl⟩ := h
  induction between with
  | nil => exact hNew
  | cons e between ih => exact ih (quiet_cons.mp hNew).1

theorem OutsideCalls.mono {old new : List (Event B)} (h : old <:+ new) (hNew : OutsideCalls new) :
    OutsideCalls old := fun calls hCalls => hNew calls (h.subset hCalls)

/-! The invariant. -/

/-- Nothing was started after `exit`, and once it was called every context has a return value. -/
structure Stopped (σ : State B) : Prop where
  quiet : Quiet σ.trace
  pending : Exited σ.trace → ∀ c ∈ σ.lexic :: σ.up, c.retVal.isSome = true

/-- What a computation that returns does: it leaves the calls that are pending, each exit in it is inside
of them and, if also inside of a further call that starts, not the end, and it keeps the invariant if no
exit is inside of a call that starts. -/
structure Unwinds (σ τ : State B) : Prop where
  trace : σ.trace <:+ τ.trace
  exits : ∀ calls, .exit calls ∈ τ.trace → .exit calls ∈ σ.trace ∨
    ∃ inner, calls = inner ++ σ.calls ∧ ((∃ names ∈ inner, Starts names) → ¬ Quiet τ.trace)
  calls : τ.calls = σ.calls
  stopped : OutsideCalls τ.trace → Stopped σ → Stopped τ

/-- What one that does not return has done. -/
structure Unfinished (σ τ : State B) : Prop where
  trace : σ.trace <:+ τ.trace
  quiet : OutsideCalls τ.trace → Stopped σ → Quiet τ.trace

/-- A step that starts nothing. -/
theorem Unwinds.of_same {σ τ : State B} (hTrace : τ.trace = σ.trace) (hCalls : τ.calls = σ.calls)
    (hPending : (∀ c ∈ σ.lexic :: σ.up, c.retVal.isSome = true) →
      ∀ c ∈ τ.lexic :: τ.up, c.retVal.isSome = true) : Unwinds σ τ where
  trace := hTrace ▸ List.suffix_rfl
  exits calls hMem := Or.inl (by rwa [hTrace] at hMem)
  calls := hCalls
  stopped _ hStopped := by
    constructor
    · rw [hTrace]
      exact hStopped.quiet
    · rw [hTrace]
      exact fun hExited => hPending (hStopped.pending hExited)

/-- Unwinding is kept from step to step. -/
theorem unwinds_chained : Chained (Unwinds (B := B)) Unfinished where
  refl σ := Unwinds.of_same rfl rfl id
  weaken σ τ h := ⟨h.trace, fun hCalls hStopped => (h.stopped hCalls hStopped).quiet⟩
  trans σ τ υ h h' := {
    trace := h.trace.trans h'.trace
    exits := by
      intro calls hMem
      cases h'.exits calls hMem with
      | inl hMem =>
          apply (h.exits calls hMem).imp_right
          rintro ⟨inner, hInner, hStarts⟩
          exact ⟨inner, hInner, fun hMem hQuiet => hStarts hMem (hQuiet.mono h'.trace)⟩
      | inr hInner =>
          rw [h.calls] at hInner
          exact Or.inr hInner
    calls := h'.calls.trans h.calls
    stopped := fun hCalls hStopped => h'.stopped hCalls (h.stopped (hCalls.mono h'.trace) hStopped) }
  transQ σ τ υ h h' := {
    trace := h.trace.trans h'.trace
    quiet := fun hCalls hStopped => h'.quiet hCalls (h.stopped (hCalls.mono h'.trace) hStopped) }

/-- What only reads and writes the world unwinds. -/
theorem unwinds_framed : Framed (B := B) fun _ m _ => Ensures Unwinds Unfinished m :=
  ensures_framed unwinds_chained fun _ _ => Unwinds.of_same rfl rfl id

theorem setRetValUp_isSome {retv : B.Cell} {up : List (Ctxt B)}
    (h : ∀ c ∈ up, c.retVal.isSome = true) : ∀ c ∈ setRetValUp retv up, c.retVal.isSome = true := by
  induction up with
  | nil => exact h
  | cons c up ih =>
      rw [List.forall_mem_cons] at h
      rw [setRetValUp, List.forall_mem_cons]
      refine ⟨rfl, ?_⟩
      split
      · exact h.2
      · exact ih h.2

/-- What sets flags unwinds. -/
theorem unwinds_flagged : Flagged (B := B) fun _ m _ => Ensures Unwinds Unfinished m where
  breakFlag flag := Ensures.modify fun σ => Unwinds.of_same rfl rfl fun h => by
    simpa [State.setBreak] using h
  contFlag flag := Ensures.modify fun σ => Unwinds.of_same rfl rfl fun h => by
    simpa [State.setCont] using h

/-- A return unwinds. -/
theorem leave_unwinds (retv : B.Cell) : Ensures Unwinds Unfinished (modify (State.leave retv) : M B Unit) := by
  apply Ensures.modify
  intro σ
  refine Unwinds.of_same rfl rfl fun h => ?_
  rw [List.forall_mem_cons] at h ⊢
  refine ⟨rfl, ?_⟩
  change ∀ c ∈ (if σ.lexic.fctCtxt then σ.up else setRetValUp retv σ.up), _
  split
  · exact h.2
  · exact setRetValUp_isSome h.2

/-- A declaration unwinds. -/
theorem declNaslFunc_unwinds (name : String) (block : Tree B) :
    Ensures Unwinds Unfinished (declNaslFunc name block : M B (Option B.Cell)) := by
  apply unwinds_chained.bind unwinds_chained.get
  intro σ
  split
  · exact unwinds_chained.pure _
  · apply unwinds_chained.bind
    · apply Ensures.modify
      intro σ
      exact Unwinds.of_same rfl rfl fun h => by simpa using h
    · exact fun _ => unwinds_chained.pure _

/-- Something is started where no exit was called before. -/
theorem note_unwinds {σ : State B} {e : Event B} (hStart : e.isStart = true)
    (hNone : σ.lexic.retVal = none) : Unwinds σ (σ.note e) where
  trace := List.suffix_cons e σ.trace
  exits calls hMem := by
    cases hMem with
    | head => cases hStart
    | tail _ hMem => exact Or.inl hMem
  calls := rfl
  stopped _ hStopped := by
    have hFresh : ¬ Exited σ.trace := by
      intro hExited
      have hSome := hStopped.pending hExited σ.lexic (by simp)
      rw [hNone] at hSome
      cases hSome
    constructor
    · exact quiet_cons.mpr ⟨hStopped.quiet, fun _ => hFresh⟩
    · rintro ⟨calls, hMem⟩
      cases hMem with
      | head => cases hStart
      | tail _ hMem => exact absurd ⟨calls, hMem⟩ hFresh

/-- An exit unwinds: it is noted and sets the return values on its way. -/
theorem naslDoExit_unwinds : Ensures Unwinds Unfinished (naslDoExit : M B (Option B.Cell)) := by
  apply unwinds_chained.bind (unwinds_framed.askWorld _)
  intro retcode
  apply unwinds_chained.bind (unwinds_framed.onWorld _)
  intro _
  apply unwinds_chained.bind
  · apply Ensures.modify
    intro σ
    exact {
      trace := List.suffix_cons _ σ.trace
      exits := by
        intro calls hMem
        cases hMem with
        | head => exact Or.inr ⟨[], rfl, fun hStarts => by simp at hStarts⟩
        | tail _ hMem => exact Or.inl hMem
      calls := rfl
      stopped := by
        intro _ hStopped
        constructor
        · exact quiet_cons.mpr ⟨hStopped.quiet, fun hStart => by cases hStart⟩
        · intro _
          simp [setRetVal] }
  · exact fun _ => unwinds_chained.pure _

/-- The end of a call unwinds. -/
theorem popCtxt_unwinds : Ensures Unwinds Unfinished (popCtxt : M B Unit) := by
  intro σ
  unfold popCtxt
  rw [bind_of_some (get_apply σ)]
  cases hUp : σ.up with
  | nil => exact unwinds_chained.stuck σ
  | cons c up =>
      refine Unwinds.of_same rfl rfl fun h => ?_
      rw [hUp, List.forall_mem_cons] at h
      exact h.2

/-! Calls. -/

section Calls

variable {exec : Tree B → M B (Option B.Cell)} (hExec : ∀ t, Ensures Unwinds Unfinished (exec t))

include hExec

/-- The block notes that it is started and then only unwinds. -/
theorem callBlock_eq (f : NaslFunc B) : ∃ (e : Event B) (rest : M B (Option B.Cell)),
    e.isStart = true ∧ Ensures Unwinds Unfinished rest ∧
      ∀ σ, callBlock exec f σ = rest (σ.note e) := by
  unfold callBlock
  cases f.block with
  | doExit => exact ⟨.builtin f.funcName, naslDoExit, rfl, naslDoExit_unwinds, fun σ => rfl⟩
  | internal pf2 =>
      refine ⟨.builtin f.funcName, askWorld (B.internal pf2) >>= fun result => orStuck result >>= fun p =>
        onWorld fun _ => p, rfl, ?_, fun σ => rfl⟩
      apply unwinds_chained.bind (unwinds_framed.askWorld _)
      intro result
      exact unwinds_chained.bind (unwinds_framed.orStuck _) fun _ => unwinds_framed.onWorld _
  | tree block =>
      refine ⟨.body f.funcName, exec block >>= fun _ => pure (some .fake), rfl, ?_, fun σ => rfl⟩
      exact unwinds_chained.bind (hExec block) fun _ => unwinds_chained.pure _

omit hExec in
/-- Exactly a call with different argument names gets a context. -/
theorem addArgs_isSome {fuel : Nat} {args : List (Option String × Tree B)} {frame : B.Frame}
    {frame' : Option B.Frame} {named : List String} {σ τ : State B}
    (h : addArgs exec fuel args frame named σ = (some frame', τ)) :
    frame'.isSome = true ↔
      Starts (args.map Prod.fst) ∧ ∀ name ∈ (args.map Prod.fst).reduceOption, name ∉ named := by
  induction args generalizing frame named σ with
  | nil =>
      cases h
      simp [Starts, List.reduceOption]
  | cons arg next ih =>
      obtain ⟨name, val⟩ := arg
      rw [addArgs] at h
      obtain ⟨pc2, σ₁, _, h⟩ := bind_eq_some.mp h
      cases name with
      | none =>
          obtain ⟨frame₁, σ₂, _, h⟩ := bind_eq_some.mp h
          exact ih h
      | some name =>
          change (if name ∈ named then _ else _ : M B (Option B.Frame)) σ₁ = _ at h
          split at h
          · rename_i hNamed
            cases h
            simp [List.reduceOption, hNamed]
          · rename_i hNew
            obtain ⟨frame₁, σ₂, _, h⟩ := bind_eq_some.mp h
            rw [ih h]
            simp only [Starts, List.map_cons, List.reduceOption_cons_of_some, List.nodup_cons,
              List.mem_cons, forall_eq_or_imp]
            constructor
            · rintro ⟨hNodup, hFresh⟩
              exact ⟨⟨fun hMem => hFresh name hMem (Or.inl rfl), hNodup⟩, hNew,
                fun name' hMem hNamed => hFresh name' hMem (Or.inr hNamed)⟩
            · rintro ⟨⟨hNotMem, hNodup⟩, _, hFresh⟩
              exact ⟨hNodup, fun name' hMem hNamed =>
                hNamed.elim (fun hEq => hNotMem (hEq ▸ hMem)) (hFresh name' hMem)⟩

/-- The block of a call, in a new context, where no exit was called before if none may be inside of a call
that starts its function. -/
theorem startBlock_unwinds (f : NaslFunc B) (frame : B.Frame) {σ τ : State B}
    (hTrace : σ.trace <:+ τ.trace) (hCalls : τ.calls = σ.calls)
    (hExits : ∀ calls, .exit calls ∈ τ.trace → .exit calls ∈ σ.trace ∨ σ.calls <:+ calls)
    (hFresh : OutsideCalls τ.trace → Stopped σ → Quiet τ.trace ∧ ¬ Exited τ.trace) :
    Outcome Unwinds Unfinished σ ((do
      pushCtxt frame
      let retc ← callBlock exec f
      let σ ← get
      popCtxt
      return fixRetVal retc σ.lexic.retVal : M B (Option B.Cell)) τ) := by
  obtain ⟨e, rest, hStart, hRest, hBlock⟩ := callBlock_eq hExec f
  unfold pushCtxt
  rw [bind_of_some (modify_apply _ τ)]
  have hNoted : Unwinds σ (State.note
      { τ with world := B.chain frame τ.world, lexic := ⟨none, true, false, false, []⟩, up := τ.lexic :: τ.up } e) := {
    trace := hTrace.trans (List.suffix_cons e τ.trace)
    exits := by
      intro calls hMem
      cases hMem with
      | head => cases hStart
      | tail _ hMem =>
          apply (hExits calls hMem).imp_right
          rintro ⟨inner, rfl⟩
          exact ⟨inner, rfl, fun _ hQuiet => (quiet_cons.mp hQuiet).2 hStart ⟨_, hMem⟩⟩
    calls := hCalls
    stopped := by
      intro hOutside hStopped
      have hOld := hFresh (hOutside.mono (List.suffix_cons e τ.trace)) hStopped
      constructor
      · exact quiet_cons.mpr ⟨hOld.1, fun _ => hOld.2⟩
      · rintro ⟨calls, hMem⟩
        cases hMem with
        | head => cases hStart
        | tail _ hMem => exact absurd ⟨calls, hMem⟩ hOld.2 }
  apply unwinds_chained.after hNoted
  have hLast : ∀ retc : Option B.Cell, Ensures Unwinds Unfinished (do
      let σ ← get
      popCtxt
      return fixRetVal retc σ.lexic.retVal : M B (Option B.Cell)) := by
    intro retc
    apply unwinds_chained.bind unwinds_chained.get
    intro σ
    exact unwinds_chained.bind popCtxt_unwinds fun _ => unwinds_chained.pure _
  rcases hEnd : rest (State.note
      { τ with world := B.chain frame τ.world, lexic := ⟨none, true, false, false, []⟩, up := τ.lexic :: τ.up } e)
      with ⟨_ | retc, υ⟩
  · rw [bind_of_none ((hBlock _).trans hEnd)]
    exact hRest.of_none hEnd
  · rw [bind_of_some ((hBlock _).trans hEnd)]
    exact unwinds_chained.after (hRest.of_some hEnd) (hLast retc υ)

/-- A call from a context without a return value. -/
theorem naslFuncCall_unwinds (fuel : Nat) (f : NaslFunc B) (argList : List (Option String × Tree B))
    {σ : State B} (hNone : σ.lexic.retVal = none) :
    Outcome Unwinds Unfinished σ (naslFuncCall exec fuel f argList σ) := by
  unfold naslFuncCall
  split
  · exact unwinds_chained.refl σ
  rw [bind_of_some (modify_apply _ σ)]
  have hArgs : Ensures Unwinds Unfinished (addArgs exec fuel argList B.initEmptyLexCtxt []) :=
    addArgs_ensures unwinds_framed (fun c => hExec (.cell c)) fuel (fun t _ => hExec t) _ _
  rcases hFrame : addArgs exec fuel argList B.initEmptyLexCtxt []
      { σ with calls := argList.map Prod.fst :: σ.calls } with ⟨_ | frame, τ⟩
  · have hUnfinished := hArgs.of_none hFrame
    rw [bind_of_none hFrame]
    exact ⟨hUnfinished.trace, fun hCalls hStopped =>
      hUnfinished.quiet hCalls ⟨hStopped.quiet, hStopped.pending⟩⟩
  · have hAdded := hArgs.of_some hFrame
    have hStarts := addArgs_isSome hFrame
    rw [bind_of_some hFrame, bind_of_some (modify_apply _ τ)]
    have hTail : τ.calls.tail = σ.calls := by rw [hAdded.calls, List.tail_cons]
    cases frame with
    | none =>
        exact {
          trace := hAdded.trace
          exits := by
            intro calls hMem
            apply (hAdded.exits calls hMem).imp_right
            rintro ⟨inner, rfl, hInner⟩
            refine ⟨inner ++ [argList.map Prod.fst], by simp, ?_⟩
            rintro ⟨names, hNames, hStart⟩
            rw [List.mem_append, List.mem_singleton] at hNames
            cases hNames with
            | inl hNames => exact hInner ⟨names, hNames, hStart⟩
            | inr hNames =>
                rw [hNames] at hStart
                have hFound := hStarts.mpr ⟨hStart, fun _ _ => List.not_mem_nil⟩
                cases hFound
          calls := hTail
          stopped := by
            intro hCalls hStopped
            have hAfter := hAdded.stopped hCalls ⟨hStopped.quiet, hStopped.pending⟩
            exact ⟨hAfter.quiet, hAfter.pending⟩ }
    | some frame =>
        have hTrace : σ.trace <:+ τ.trace := hAdded.trace
        apply startBlock_unwinds (τ := { τ with calls := τ.calls.tail }) hExec f frame hTrace hTail
        · intro calls hMem
          apply (hAdded.exits calls hMem).imp_right
          rintro ⟨inner, rfl, _⟩
          exact (List.suffix_cons _ _).trans (List.suffix_append _ _)
        · intro hCalls hStopped
          refine ⟨(hAdded.stopped hCalls ⟨hStopped.quiet, hStopped.pending⟩).quiet, ?_⟩
          rintro ⟨calls, hMem⟩
          cases hAdded.exits calls hMem with
          | inl hOld =>
              have hSome := hStopped.pending ⟨calls, hOld⟩ σ.lexic (List.mem_cons_self ..)
              rw [hNone] at hSome
              cases hSome
          | inr hInner =>
              obtain ⟨inner, rfl, _⟩ := hInner
              exact hCalls _ hMem _ (List.mem_append_right _ (List.mem_cons_self ..)) (hStarts.mp rfl).1

end Calls

/-! The whole run. -/

/-- Whatever is executed, with whatever fuel. -/
theorem naslExec_unwinds (fuel : Nat) (st : Tree B) : Ensures Unwinds Unfinished (naslExec fuel st) := by
  induction fuel generalizing st with
  | zero => exact unwinds_chained.stuck
  | succ fuel ih =>
      intro σ
      apply naslExec_outcome unwinds_chained
      intro hNone
      apply unwinds_chained.after (note_unwinds (e := .node st) rfl hNone)
      have hCells : ∀ c : Option B.Cell, Ensures Unwinds Unfinished (naslExec fuel (.cell c)) :=
        fun c => ih (.cell c)
      cases hKind : st.isSimple with
      | false =>
          exact execControl_ensures unwinds_framed hCells unwinds_flagged fuel hKind
            (fun c _ => ih c) (fun retv => naslReturn_ensures unwinds_framed hCells leave_unwinds fuel) _
      | true =>
          by_cases hCall : ∃ name args, st = .nodeFunCall name args
          · obtain ⟨name, args, rfl⟩ := hCall
            rw [execNode, bind_of_some (get_apply _)]
            cases getFunc name (σ.note (.node (.nodeFunCall name args))) with
            | none => exact unwinds_chained.refl _
            | some pf =>
                exact naslFuncCall_unwinds (σ := σ.note (.node (.nodeFunCall name args))) ih fuel pf
                  args hNone
          · exact execSimple_ensures unwinds_framed hCells (fun op c c' => ih _)
              declNaslFunc_unwinds fuel hKind (fun c _ => ih c)
              (fun name args hEq => absurd ⟨name, args, hEq⟩ hCall) _

/-! Scripts. -/

/-- A context with the functions `exit` and `display`, before a script is executed in it. -/
def start : State plainBase where
  world := ()
  lexic := ⟨none, false, false, false, [⟨"exit", false, .doExit⟩, ⟨"display", false, .internal "nasl_display"⟩]⟩
  up := []
  calls := []
  trace := []

def zero : Tree plainBase := .cell (some (.leaf (0 : Int32)))

/-- `display (exit (0))`. -/
def displayExit : Tree plainBase := .nodeFunCall "display" [(none, .nodeFunCall "exit" [(none, zero)])]

/-- `exit (0); display (0)`. -/
def exitDisplay : Tree plainBase :=
  .nodeInstrL (.nodeFunCall "exit" [(none, zero)]) (.nodeFunCall "display" [(none, zero)])

/-- The built-in function `display` is started after `exit`. -/
theorem display_after_exit : ¬ Quiet (naslExec 5 displayExit start).2.trace := by
  intro h
  have hDisplay := h [.builtin "display"] [[none]]
    [.builtin "exit", .node (.nodeFunCall "exit" [(none, zero)]), .node displayExit] rfl
    (.builtin "display") (List.mem_cons_self ..)
  cases hDisplay

/-- If `exit` is never called while the arguments of a call are evaluated that starts its function then
nothing is started after it, as far as the run has come; in a run that returns, not otherwise. -/
theorem exit_stops_iff (fuel : Nat) (script : Tree B) (σ : State B) (hTrace : σ.trace = [])
    (hCalls : σ.calls = []) :
    (OutsideCalls (naslExec fuel script σ).2.trace → Quiet (naslExec fuel script σ).2.trace) ∧
    ((naslExec fuel script σ).1.isSome = true → Quiet (naslExec fuel script σ).2.trace →
      OutsideCalls (naslExec fuel script σ).2.trace) := by
  have hUnwinds := naslExec_unwinds fuel script
  constructor
  · intro hOutside
    apply (hUnwinds.weak unwinds_chained σ).quiet hOutside
    constructor
    · rw [hTrace]
      intro later calls earlier hEmpty
      simp at hEmpty
    · rintro ⟨calls, hMem⟩
      rw [hTrace] at hMem
      cases hMem
  · intro hReturns hQuiet calls hMem names hNames hStarts
    obtain ⟨ret, hRet⟩ := Option.isSome_iff_exists.mp hReturns
    have hRun := hUnwinds.of_some (s := σ) (a := ret) (Prod.ext hRet rfl)
    cases hRun.exits calls hMem with
    | inl hOld =>
        rw [hTrace] at hOld
        cases hOld
    | inr hInner =>
        obtain ⟨inner, rfl, hEnd⟩ := hInner
        rw [hCalls, List.append_nil] at hNames
        exact hEnd ⟨names, hNames, hStarts⟩ hQuiet

theorem exit_stops_iff_display :
    (OutsideCalls (naslExec 5 exitDisplay start).2.trace → Quiet (naslExec 5 exitDisplay start).2.trace) ∧
    ((naslExec 5 exitDisplay start).1.isSome = true → Quiet (naslExec 5 exitDisplay start).2.trace →
      OutsideCalls (naslExec 5 exitDisplay start).2.trace) ∧
    (naslExec 5 exitDisplay start).2.trace =
      [.exit [], .builtin "exit", .node (.nodeFunCall "exit" [(none, zero)]), .node exitDisplay] :=
  ⟨(exit_stops_iff 5 exitDisplay start rfl rfl).1, (exit_stops_iff 5 exitDisplay start rfl rfl).2, rfl⟩

end Interpreter
