import Mathlib.Data.List.Basic
import Mathlib.Tactic.Common

/-! Two processes at the ends of a reliable two-way byte stream. Every call of
`send` or `recv` moves some non-empty part of what was asked for, so a run is
any interleaving of such moves. A result is proved along one convenient order of
whole transfers and then holds of every run. -/
namespace Channel

/-- A process is its next call and what follows each outcome of that call. -/
inductive Proc (α : Type) where
  | ret (result : α)
  | send (bytes : List UInt8) (next : Nat → Proc α)
  | recv (size : Nat) (next : List UInt8 → Proc α)

variable {α β : Type}

def Proc.bind : Proc α → (α → Proc β) → Proc β
  | .ret result, f => f result
  | .send bytes next, f => .send bytes fun count => (next count).bind f
  | .recv size next, f => .recv size fun chunk => (next chunk).bind f

instance : Monad Proc where
  pure := .ret
  bind := .bind

@[simp] theorem Proc.pure_eq (result : α) : (pure result : Proc α) = .ret result := rfl

@[simp] theorem Proc.ret_bind (result : α) (f : α → Proc β) : Proc.ret result >>= f = f result := rfl

@[simp] theorem Proc.send_bind (bytes : List UInt8) (next : Nat → Proc α) (f : α → Proc β) :
    Proc.send bytes next >>= f = .send bytes fun count => next count >>= f := rfl

@[simp] theorem Proc.recv_bind (size : Nat) (next : List UInt8 → Proc α) (f : α → Proc β) :
    Proc.recv size next >>= f = .recv size fun chunk => next chunk >>= f := rfl

theorem Proc.bind_assoc {γ : Type} (p : Proc α) (f : α → Proc β) (g : β → Proc γ) :
    p >>= f >>= g = p >>= fun result => f result >>= g := by
  induction p with
  | ret result => rfl
  | send bytes next ih => simp [ih]
  | recv size next ih => simp [ih]

/-- One call of a process that finds `incoming` on its side of the stream: the
process and the incoming bytes afterwards, and the bytes it put out. -/
inductive Act : Proc α → List UInt8 → Proc α → List UInt8 → List UInt8 → Prop where
  | send {bytes : List UInt8} {next : Nat → Proc α} {incoming : List UInt8} {count : Nat}
      (hPos : 0 < count) (hCount : count ≤ bytes.length) :
      Act (.send bytes next) incoming (next count) incoming (bytes.take count)
  | recv {size : Nat} {next : List UInt8 → Proc α} {incoming : List UInt8} {count : Nat}
      (hPos : 0 < count) (hSize : count ≤ size) (hAvailable : count ≤ incoming.length) :
      Act (.recv size next) incoming (next (incoming.take count)) (incoming.drop count) []

/-- More bytes behind those present disable no call. -/
theorem Act.append {p p' : Proc α} {incoming incoming' out : List UInt8}
    (h : Act p incoming p' incoming' out) (more : List UInt8) :
    Act p (incoming ++ more) p' (incoming' ++ more) out := by
  cases h with
  | send hPos hCount => exact .send hPos hCount
  | @recv _ next _ count hPos hSize hAvailable =>
      have hTake : (incoming ++ more).take count = incoming.take count :=
        List.take_append_of_le_length hAvailable
      have hDrop : (incoming ++ more).drop count = incoming.drop count ++ more :=
        List.drop_append_of_le_length hAvailable
      rw [← hTake, ← hDrop]
      exact .recv hPos hSize (by simp; omega)

structure Config (α β : Type) where
  left : Proc α
  right : Proc β
  toRight : List UInt8
  toLeft : List UInt8

inductive Step : Config α β → Config α β → Prop where
  | left {left left' : Proc α} {right : Proc β} {toRight toLeft toLeft' out : List UInt8}
      (h : Act left toLeft left' toLeft' out) :
      Step ⟨left, right, toRight, toLeft⟩ ⟨left', right, toRight ++ out, toLeft'⟩
  | right {left : Proc α} {right right' : Proc β} {toRight toRight' toLeft out : List UInt8}
      (h : Act right toRight right' toRight' out) :
      Step ⟨left, right, toRight, toLeft⟩ ⟨left, right', toRight', toLeft ++ out⟩

/-- Every run from the configuration is finite, and where it cannot go on the
configuration is one of the `final` ones. -/
inductive Settles (final : Config α β → Prop) : Config α β → Prop where
  | intro {c : Config α β} (hNext : ∀ c', Step c c' → Settles final c')
      (hEnd : (∀ c', ¬ Step c c') → final c) : Settles final c

theorem Settles.of_stuck {final : Config α β → Prop} {c : Config α β} (hFinal : final c)
    (hStuck : ∀ c', ¬ Step c c') : Settles final c :=
  .intro (fun c' h => absurd h (hStuck c')) fun _ => hFinal

/-- What two results say of the end of a run holds of one and the same configuration. -/
theorem Settles.common {final final' : Config α β → Prop} {c : Config α β}
    (h : Settles final c) (h' : Settles final' c) : ∃ c', final c' ∧ final' c' := by
  induction h with
  | @intro c hNext hEnd ih =>
      cases h' with
      | intro hNext' hEnd' =>
          by_cases hStuck : ∀ c', ¬ Step c c'
          · exact ⟨c, hEnd hStuck, hEnd' hStuck⟩
          · push Not at hStuck
            obtain ⟨c', hStep⟩ := hStuck
            exact ih c' hStep (hNext' c' hStep)

theorem Settles.mono {final final' : Config α β → Prop} {c : Config α β}
    (h : Settles final c) (hFinal : ∀ c, final c → final' c) : Settles final' c := by
  induction h with
  | intro _ hEnd ih => exact .intro ih fun hStuck => hFinal _ (hEnd hStuck)

def Config.swap (c : Config α β) : Config β α := ⟨c.right, c.left, c.toLeft, c.toRight⟩

@[simp] theorem Config.swap_swap (c : Config α β) : c.swap.swap = c := rfl

theorem Step.swap {c c' : Config α β} (h : Step c c') : Step c.swap c'.swap := by
  cases h with
  | left h => exact .right h
  | right h => exact .left h

theorem Settles.swap {final : Config α β → Prop} {c : Config α β} (h : Settles final c) :
    Settles (fun c => final c.swap) c.swap := by
  induction h with
  | intro _ hEnd ih =>
      refine .intro (fun c' hStep => ih c'.swap hStep.swap) fun hStuck => hEnd ?_
      exact fun c' hStep => hStuck c'.swap hStep.swap

/-- Whatever parts its calls of `send` move, the process puts out exactly these
bytes and goes on as `rest`. -/
inductive Emits (rest : Proc α) : Proc α → List UInt8 → Prop where
  | done : Emits rest rest []
  | send {bytes tail : List UInt8} {next : Nat → Proc α} (hBytes : bytes ≠ [])
      (hNext : ∀ count, 0 < count → count ≤ bytes.length →
        Emits rest (next count) (bytes.drop count ++ tail)) :
      Emits rest (.send bytes next) (bytes ++ tail)

/-- Whatever parts its calls of `recv` are given, the process takes in exactly
`total` bytes and goes on as `rest` says of them. -/
inductive Collects : (List UInt8 → Proc α) → Proc α → Nat → Prop where
  | done {rest : List UInt8 → Proc α} : Collects rest (rest []) 0
  | recv {rest next : List UInt8 → Proc α} {size total : Nat} (hPos : 0 < size)
      (hSize : size ≤ total)
      (hNext : ∀ chunk, chunk ≠ [] → chunk.length ≤ size →
        Collects (fun more => rest (chunk ++ more)) (next chunk) (total - chunk.length)) :
      Collects rest (.recv size next) total

theorem Emits.send_all {rest : Proc α} {bytes : List UInt8} {next : Nat → Proc α}
    (hBytes : bytes ≠ []) (hNext : ∀ count, 0 < count → count ≤ bytes.length →
      Emits rest (next count) (bytes.drop count)) :
    Emits rest (.send bytes next) bytes := by
  have hSend : Emits rest (.send bytes next) (bytes ++ []) :=
    .send hBytes fun count hPos hCount => by simpa using hNext count hPos hCount
  simpa using hSend

theorem Emits.trans {rest middle p : Proc α} {bytes more : List UInt8}
    (h : Emits middle p bytes) (hMore : Emits rest middle more) :
    Emits rest p (bytes ++ more) := by
  induction h with
  | done => exact hMore
  | send hBytes _ ih =>
      rw [List.append_assoc]
      refine .send hBytes fun count hPos hCount => ?_
      simpa using ih count hPos hCount

/-- A whole transfer of the left process may be taken as done at once. -/
theorem Settles.of_emits_left {final : Config α β → Prop} {rest p : Proc α} {bytes : List UInt8}
    {right : Proc β} {toRight toLeft : List UInt8} (hEmits : Emits rest p bytes)
    (h : Settles final ⟨rest, right, toRight ++ bytes, toLeft⟩) :
    Settles final ⟨p, right, toRight, toLeft⟩ := by
  generalize hc : (⟨rest, right, toRight ++ bytes, toLeft⟩ : Config α β) = c at h
  -- outside on the runs after the transfer, inside on what is left of the transfer
  induction h generalizing p bytes right toRight toLeft with
  | intro hNext hEnd ih =>
      induction hEmits generalizing toRight with
      | done =>
          subst hc
          simpa using Settles.intro hNext hEnd
      | @send bytes tail next hBytes hRest ihRest =>
          refine .intro ?_ ?_
          · intro c' hStep
            cases hStep with
            | left hAct =>
                cases hAct with
                | @send _ _ _ count hPos hCount =>
                    refine ihRest count hPos hCount ?_
                    rw [← hc, List.append_assoc, ← List.append_assoc (bytes.take count),
                      List.take_append_drop]
            | right hAct =>
                subst hc
                exact ih _ (.right (hAct.append _)) (.send hBytes hRest) rfl
          · intro hStuck
            have hAct : Act (.send bytes next) toLeft (next bytes.length) toLeft
                (bytes.take bytes.length) :=
              .send (List.length_pos_of_ne_nil hBytes) (Nat.le_refl _)
            exact absurd (Step.left hAct) (hStuck _)

/-- A whole transfer to the right process may be taken as done at once. -/
theorem Settles.of_collects_right {final : Config α β → Prop} {rest : List UInt8 → Proc β}
    {p : Proc β} {total : Nat} {left : Proc α} {toRight toLeft : List UInt8}
    (hCollects : Collects rest p total) (hTotal : total ≤ toRight.length)
    (h : Settles final ⟨left, rest (toRight.take total), toRight.drop total, toLeft⟩) :
    Settles final ⟨left, p, toRight, toLeft⟩ := by
  generalize hc : (⟨left, rest (toRight.take total), toRight.drop total, toLeft⟩ : Config α β) = c
    at h
  induction h generalizing rest p total left toRight toLeft with
  | intro hNext hEnd ih =>
      induction hCollects generalizing toRight with
      | done =>
          subst hc
          simpa using Settles.intro hNext hEnd
      | @recv rest next size total hPos hSize hRest ihRest =>
          refine .intro ?_ ?_
          · intro c' hStep
            cases hStep with
            | @left _ _ _ _ _ _ out hAct =>
                subst hc
                have hTake : (toRight ++ out).take total = toRight.take total :=
                  List.take_append_of_le_length hTotal
                have hDrop : (toRight ++ out).drop total = toRight.drop total ++ out :=
                  List.drop_append_of_le_length hTotal
                refine ih _ (.left hAct) (.recv hPos hSize hRest) (by simp; omega) ?_
                rw [hTake, hDrop]
            | right hAct =>
                cases hAct with
                | @recv _ _ _ count hCount hCountSize hAvailable =>
                    have hLength : (toRight.take count).length = count := by simp; omega
                    have hTake : toRight.take count ++ (toRight.drop count).take (total - count) =
                        toRight.take total := by
                      rw [← List.take_add, Nat.add_sub_cancel' (by omega)]
                    have hDrop : (toRight.drop count).drop (total - count) = toRight.drop total := by
                      rw [List.drop_drop, Nat.add_sub_cancel' (by omega)]
                    simp only [List.append_nil]
                    refine ihRest (toRight.take count) (by rw [← List.length_pos_iff]; omega)
                      (by omega) (by simp; omega) ?_
                    rw [hLength]
                    simp only [hTake, hDrop, hc]
          · intro hStuck
            have hAct : Act (.recv size next) toRight (next (toRight.take size))
                (toRight.drop size) [] :=
              .recv hPos (Nat.le_refl _) (by omega)
            exact absurd (Step.right hAct) (hStuck _)

theorem Settles.of_emits_right {final : Config α β → Prop} {rest p : Proc β} {bytes : List UInt8}
    {left : Proc α} {toRight toLeft : List UInt8} (hEmits : Emits rest p bytes)
    (h : Settles final ⟨left, rest, toRight, toLeft ++ bytes⟩) :
    Settles final ⟨left, p, toRight, toLeft⟩ :=
  (Settles.of_emits_left hEmits h.swap).swap

theorem Settles.of_collects_left {final : Config α β → Prop} {rest : List UInt8 → Proc α}
    {p : Proc α} {total : Nat} {right : Proc β} {toRight toLeft : List UInt8}
    (hCollects : Collects rest p total) (hTotal : total ≤ toLeft.length)
    (h : Settles final ⟨rest (toLeft.take total), right, toRight, toLeft.drop total⟩) :
    Settles final ⟨p, right, toRight, toLeft⟩ :=
  (Settles.of_collects_right hCollects hTotal h.swap).swap

end Channel
