import OpenVAS.Nasl.Copying

/-! Variables by their place: the contexts of a run as the elements of one array, in which the
address of a variable is the steps that lead to it. -/
namespace Nasl

open CString

/-- An element of an array by its place: a number, or a position in a chain. -/
inductive Step where
  | num (i : Nat)
  | named (h k : Nat)
deriving DecidableEq

/-- The first step of an address is to a context, the second one to a variable of it. -/
abbrev Address := List Step

def NaslArray.elt (a : NaslArray Var) : Step → Option Var
  | .num i => a.numElt[i]?.getD none
  | .named h k => ((a.hashElt[h]?.getD [])[k]?).map Prod.snd

/-- The array with an element written over. -/
def NaslArray.modifyElt (a : NaslArray Var) (s : Step) (f : Var → Var) : NaslArray Var :=
  match s with
  | .num i => { a with numElt := a.numElt.modify i (Option.map f) }
  | .named h k => { a with hashElt := a.hashElt.modify h (·.modify k (Prod.map id f)) }

def Var.get : Var → Address → Option Var
  | v, [] => some v
  | .array a, s :: rest => (a.elt s).bind (·.get rest)
  | _, _ :: _ => none

def Var.set : Var → Address → Var → Var
  | _, [], x => x
  | .array a, s :: rest, x => .array (a.modifyElt s (·.set rest x))
  | v, _ :: _, _ => v

/-! One step. -/

theorem elt_modifyElt_self (a : NaslArray Var) (s : Step) (f : Var → Var) :
    (a.modifyElt s f).elt s = (a.elt s).map f := by
  cases s with
  | num i =>
      simp only [NaslArray.modifyElt, NaslArray.elt, List.getElem?_modify_eq]
      cases a.numElt[i]? <;> rfl
  | named h k =>
      simp only [NaslArray.modifyElt, NaslArray.elt, List.getElem?_modify_eq]
      cases a.hashElt[h]? with
      | none => rfl
      | some chain =>
          simp only [Option.map_eq_map, Option.map_some, Option.getD_some, List.getElem?_modify_eq]
          cases chain[k]? <;> rfl

theorem elt_modifyElt_ne (a : NaslArray Var) {s t : Step} (f : Var → Var) (hNe : s ≠ t) :
    (a.modifyElt s f).elt t = a.elt t := by
  cases s with
  | num i =>
      cases t with
      | num j =>
          have hOther : i ≠ j := fun h => hNe (congrArg Step.num h)
          simp only [NaslArray.modifyElt, NaslArray.elt, List.getElem?_modify_ne _ _ hOther]
      | named h k => rfl
  | named h k =>
      cases t with
      | num j => rfl
      | named g l =>
          simp only [NaslArray.modifyElt, NaslArray.elt]
          by_cases hChain : h = g
          · subst hChain
            have hOther : k ≠ l := fun hk => hNe (congrArg (Step.named h) hk)
            rw [List.getElem?_modify_eq]
            cases a.hashElt[h]? with
            | none => rfl
            | some chain =>
                simp only [Option.map_eq_map, Option.map_some, Option.getD_some,
                  List.getElem?_modify_ne _ _ hOther]
          · rw [List.getElem?_modify_ne _ _ hChain]

theorem modifyElt_modifyElt (a : NaslArray Var) (s : Step) (f g : Var → Var) :
    (a.modifyElt s f).modifyElt s g = a.modifyElt s (g ∘ f) := by
  cases s with
  | num i => simp only [NaslArray.modifyElt, List.modify_modify_eq, Option.map_comp_map]
  | named h k =>
      have hChain : (fun chain : List (CString × Var) => chain.modify k (Prod.map id g)) ∘
          (fun chain : List (CString × Var) => chain.modify k (Prod.map id f)) =
            fun chain : List (CString × Var) => chain.modify k (Prod.map id (g ∘ f)) := by
        funext chain
        rw [Function.comp_apply, List.modify_modify_eq, Prod.map_comp_map, Function.comp_id]
      simp only [NaslArray.modifyElt, List.modify_modify_eq, hChain]

/-! Addresses. -/

@[simp] theorem get_nil (v : Var) : v.get [] = some v := by
  cases v <;> rfl

@[simp] theorem set_nil (v x : Var) : v.set [] x = x := by
  cases v <;> rfl

theorem get_append (store : Var) (q r : Address) :
    store.get (q ++ r) = (store.get q).bind (·.get r) := by
  induction q generalizing store with
  | nil => rw [List.nil_append, get_nil, Option.bind_some]
  | cons s rest ih =>
      cases store with
      | array a =>
          rw [List.cons_append, Var.get, Var.get, Option.bind_assoc]
          congr 1
          funext v
          exact ih v
      | _ => rfl

/-- A variable that is written is read back. -/
theorem get_set_self {store v : Var} {p : Address} (x : Var) (h : store.get p = some v) :
    (store.set p x).get p = some x := by
  induction p generalizing store with
  | nil => rw [set_nil, get_nil]
  | cons s rest ih =>
      cases store with
      | array a =>
          obtain ⟨w, hElt, hRest⟩ := Option.bind_eq_some_iff.mp h
          rw [Var.set, Var.get, elt_modifyElt_self, hElt, Option.map_some, Option.bind_some, ih hRest]
      | _ => cases h

/-- A variable above another one holds what is written into that one. -/
theorem get_set_above (store : Var) (q r : Address) (x : Var) :
    (store.set (q ++ r) x).get q = (store.get q).map (·.set r x) := by
  induction q generalizing store with
  | nil => rw [List.nil_append, get_nil, get_nil, Option.map_some]
  | cons s rest ih =>
      cases store with
      | array a =>
          rw [List.cons_append, Var.set, Var.get, Var.get, elt_modifyElt_self]
          cases a.elt s with
          | none => rfl
          | some v => exact ih v
      | _ => rfl

/-- Any other variable that is not inside keeps its value. -/
theorem get_set_apart {store : Var} {p r : Address} (x : Var) (hAbove : ¬ r <+: p) (hBelow : ¬ p <+: r) :
    (store.set p x).get r = store.get r := by
  induction p generalizing store r with
  | nil => exact absurd List.nil_prefix hBelow
  | cons s rest ih =>
      cases r with
      | nil => exact absurd List.nil_prefix hAbove
      | cons t others =>
          cases store with
          | array a =>
              rw [Var.set, Var.get, Var.get]
              by_cases hStep : s = t
              · subst hStep
                rw [List.cons_prefix_cons] at hAbove hBelow
                rw [elt_modifyElt_self, Option.bind_map]
                congr 1
                funext v
                exact ih (fun h => hAbove ⟨rfl, h⟩) (fun h => hBelow ⟨rfl, h⟩)
              · rw [elt_modifyElt_ne a _ hStep]
          | _ => rfl

theorem set_set (store : Var) (p : Address) (x y : Var) : (store.set p x).set p y = store.set p y := by
  induction p generalizing store with
  | nil => rw [set_nil, set_nil]
  | cons s rest ih =>
      cases store with
      | array a =>
          rw [Var.set, Var.set, Var.set, modifyElt_modifyElt]
          congr 2
          funext v
          exact ih v
      | _ => rfl

end Nasl
