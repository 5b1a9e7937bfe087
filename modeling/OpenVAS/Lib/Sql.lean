import OpenVAS.Lib.CString

/-! Texts in statements: string literals, and statements written as formats whose
placeholders are bound to arguments by position. -/
namespace Sql

open CString

def apostrophe : UInt8 := 39

/-- The text with each apostrophe doubled. -/
def quote (string : CString) : CString :=
  string.flatMap fun c => if c = apostrophe then [c, c] else [c]

/-- What a text between apostrophes stands for; an apostrophe alone would end the literal. -/
def unquote : CString → Option CString
  | [] => some []
  | [c] => if c = apostrophe then none else some [c]
  | c :: d :: rest =>
      if c = apostrophe then
        if d = apostrophe then (unquote rest).map (c :: ·) else none
      else (unquote (d :: rest)).map (c :: ·)

/-- The literal of a text, or the word for a missing text. -/
def insertText : Option CString → CString
  | some string => apostrophe :: quote string ++ [apostrophe]
  | none => lit "NULL"

inductive Value where
  | null
  | text (string : CString)
  | number (n : Int)
  deriving DecidableEq

def Value.asText : Value → Option CString
  | .text string => some string
  | _ => none

def Value.asNumber : Value → Option Int
  | .number n => some n
  | _ => none

@[simp]
theorem Value.asText_text (string : CString) : (Value.text string).asText = some string := rfl

@[simp]
theorem Value.asNumber_number (n : Int) : (Value.number n).asNumber = some n := rfl

/-- The value of a literal or of the word for a missing text. -/
def evaluate (expression : CString) : Option Value :=
  if expression = lit "NULL" then some .null
  else
    match expression with
    | [] => none
    | c :: rest =>
        if c = apostrophe ∧ rest.getLast? = some apostrophe then
          (unquote rest.dropLast).map .text
        else none

/-- An argument of a format. -/
inductive Arg where
  | text (string : CString)
  | number (n : Int)
  deriving DecidableEq

/-- How a value is written in a format: as a text between apostrophes, as an expression,
as a number, as a sub-select on a text, or without a placeholder. -/
inductive Place where
  | literal
  | expression
  | number
  | select (find : CString → Value)
  | fixed (value : Value)

/-- The value at a place that takes an argument; a text does not fit a number, nor
a number a text. -/
def bindArg : Place → Arg → Option Value
  | .literal, .text string => (unquote string).map .text
  | .expression, .text string => evaluate string
  | .number, .number n => some (.number n)
  | .select find, .text string => (unquote string).map find
  | _, _ => none

/-- The values of a statement, if its arguments fit. Further arguments are ignored. -/
def bindArgs : List Place → List Arg → Option (List Value)
  | [], _ => some []
  | .fixed value :: places, args => (bindArgs places args).map (value :: ·)
  | _ :: _, [] => none
  | place :: places, arg :: args =>
      (bindArg place arg).bind fun value => (bindArgs places args).map (value :: ·)

theorem unquote_cons {c : UInt8} (h : c ≠ apostrophe) (rest : CString) :
    unquote (c :: rest) = (unquote rest).map (c :: ·) := by
  cases rest with
  | nil => simp [unquote, h]
  | cons d rest => simp [unquote, h]

/-- A text without apostrophes needs no quoting. -/
theorem unquote_plain {string : CString} (h : apostrophe ∉ string) : unquote string = some string := by
  induction string with
  | nil => rfl
  | cons c rest ih =>
      obtain ⟨hc, hRest⟩ : apostrophe ≠ c ∧ apostrophe ∉ rest := by simpa using h
      rw [unquote_cons hc.symm, ih hRest]
      rfl

/-- A quoted text stands for itself. -/
@[simp]
theorem unquote_quote (string : CString) : unquote (quote string) = some string := by
  induction string with
  | nil => rfl
  | cons c rest ih =>
      rw [quote, List.flatMap_cons]
      by_cases hc : c = apostrophe
      · rw [if_pos hc, List.cons_append, List.singleton_append, unquote, if_pos hc, if_pos hc]
        exact congrArg _ ih
      · rw [if_neg hc, List.singleton_append, unquote_cons hc]
        exact congrArg _ ih

@[simp]
theorem evaluate_insertText (string : Option CString) :
    evaluate (insertText string) = some (string.elim .null .text) := by
  cases string with
  | none => rfl
  | some string =>
      have hText : insertText (some string) = apostrophe :: (quote string ++ [apostrophe]) := rfl
      have hNe : apostrophe :: (quote string ++ [apostrophe]) ≠ lit "NULL" := by
        intro h
        exact absurd (List.cons.inj h).1 (by decide)
      unfold evaluate
      rw [hText, if_neg hNe]
      simp

end Sql
