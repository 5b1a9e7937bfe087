import OpenVAS.Lib.CString

/-! The escaping of `misc/plugutils.c`, used for the messages between a plugin
process and its host process and for the saved knowledge base. -/
namespace KnowledgeBase

open CString

/-- The escape of one byte. -/
def addslash (c : UInt8) : CString :=
  if c = ch '\\' then [ch '\\', ch '\\']
  else if c = ch '\n' then [ch '\\', ch 'n']
  else if c = ch '\r' then [ch '\\', ch 'r']
  else [c]

def addslashes (input : CString) : CString := input.flatMap addslash

/-- An unknown escape, or a backslash at the end, writes no byte but moves the
output on, so the result is cut at the NUL left there. -/
def rmslashes : CString → CString
  | [] => []
  | [c] => if c = ch '\\' then [] else [c]
  | c :: d :: rest =>
      if c = ch '\\' then
        if d = ch 'r' then ch '\r' :: rmslashes rest
        else if d = ch 'n' then ch '\n' :: rmslashes rest
        else if d = ch '\\' then ch '\\' :: rmslashes rest
        else []
      else c :: rmslashes (d :: rest)

@[simp] theorem rmslashes_nil : rmslashes [] = [] := rfl

theorem rmslashes_cons {c : UInt8} (h : c ≠ ch '\\') (rest : CString) :
    rmslashes (c :: rest) = c :: rmslashes rest := by
  cases rest with
  | nil => simp [rmslashes, h]
  | cons d rest => simp [rmslashes, h]

/-- One escaped byte is read back as that byte. -/
theorem rmslashes_addslash (c : UInt8) (rest : CString) :
    rmslashes (addslash c ++ rest) = c :: rmslashes rest := by
  unfold addslash
  split
  · rename_i h
    subst h
    simp [rmslashes, show ch '\\' ≠ ch 'r' by decide, show ch '\\' ≠ ch 'n' by decide]
  · split
    · rename_i h
      subst h
      simp [rmslashes, show ch 'n' ≠ ch 'r' by decide]
    · split
      · rename_i h
        subst h
        simp [rmslashes]
      · rename_i h _ _
        exact rmslashes_cons h rest

theorem rmslashes_addslashes (input : CString) : rmslashes (addslashes input) = input := by
  induction input with
  | nil => rfl
  | cons c input ih =>
      rw [addslashes, List.flatMap_cons, rmslashes_addslash]
      exact congrArg _ ih

/-- An escaped text has neither line feeds nor carriage returns. -/
theorem not_mem_addslashes {c : UInt8} (h : c = ch '\n' ∨ c = ch '\r') (input : CString) :
    c ∉ addslashes input := by
  intro hMem
  obtain ⟨b, _, hb⟩ := List.mem_flatMap.mp hMem
  unfold addslash at hb
  split at hb
  · rcases h with rfl | rfl <;> exact absurd hb (by decide)
  · split at hb
    · rcases h with rfl | rfl <;> exact absurd hb (by decide)
    · split at hb
      · rcases h with rfl | rfl <;> exact absurd hb (by decide)
      · rcases h with rfl | rfl <;> simp_all

end KnowledgeBase
