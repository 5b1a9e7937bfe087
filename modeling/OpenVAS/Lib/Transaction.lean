import Mathlib.Logic.Basic

/-! Commands on a database with transactions. A command answers with a code, or the
process is aborted because a statement fails. -/
namespace Transaction

/-- Why a process is aborted. -/
inductive Abort where
  /-- A transaction is begun in another one. -/
  | nested
  /-- A transaction is ended where none was begun. -/
  | missing
  /-- A row violates a constraint of its table. -/
  | constraint
  /-- An assertion of the program fails. -/
  | assertion
  deriving DecidableEq, Repr

/-- A connection to a database of type `D`. -/
structure Session (D : Type*) where
  db : D
  /-- The database at the beginning of the open transaction. -/
  begun : Option D
  /-- The row number of the last insertion. -/
  lastInsert : Nat

variable {D : Type*}

abbrev Answer (D : Type*) := Except Abort (Int × Session D)

abbrev Command (D : Type*) := Session D → Answer D

def beginImmediate (body : Command D) : Command D := fun session =>
  match session.begun with
  | some _ => .error .nested
  | none => body { session with begun := some session.db }

/-- Ends the transaction without its changes, and answers. -/
def rollback (code : Int) : Command D := fun session =>
  match session.begun with
  | some old => .ok (code, { session with db := old, begun := none })
  | none => .error .missing

/-- Ends the transaction with its changes, and answers. -/
def commit (code : Int) : Command D := fun session =>
  match session.begun with
  | some _ => .ok (code, { session with begun := none })
  | none => .error .missing

/-- Answers without a statement. -/
def answer (code : Int) : Command D := fun session => .ok (code, session)

/-- Statements that can fail, and the rest of the command. -/
def perform (statements : Session D → Except Abort (Session D)) (rest : Command D) : Command D :=
  fun session =>
    match statements session with
    | .ok session => rest session
    | .error reason => .error reason

section Answers

variable {old : D} {session after : Session D} {code code' : Int}

theorem beginImmediate_ok {body : Command D} (h : beginImmediate body session = .ok (code, after)) :
    session.begun = none ∧ body { session with begun := some session.db } = .ok (code, after) := by
  rw [beginImmediate] at h
  split at h
  · cases h
  · rename_i hNone
    exact ⟨hNone, h⟩

theorem rollback_ok (hBegun : session.begun = some old)
    (h : rollback code session = .ok (code', after)) :
    code' = code ∧ after.begun = none ∧ after.db = old := by
  simp only [rollback, hBegun] at h
  obtain ⟨rfl, rfl⟩ := Prod.mk.inj (Except.ok.inj h)
  exact ⟨rfl, rfl, rfl⟩

theorem commit_ok (h : commit code session = .ok (code', after)) :
    code' = code ∧ after.begun = none ∧ after.db = session.db := by
  rw [commit] at h
  split at h
  · obtain ⟨rfl, rfl⟩ := Prod.mk.inj (Except.ok.inj h)
    exact ⟨rfl, rfl, rfl⟩
  · cases h

theorem perform_ok {statements : Session D → Except Abort (Session D)} {rest : Command D}
    (h : perform statements rest session = .ok (code, after)) :
    ∃ middle, statements session = .ok middle ∧ rest middle = .ok (code, after) := by
  rw [perform] at h
  split at h
  · rename_i middle hMiddle
    exact ⟨middle, hMiddle, h⟩
  · cases h

end Answers

/-- What statements leave in a transaction: it is still open, or the process is aborted
for a reason of the statements. -/
def Within (begun : Option D) : Except Abort (Session D) → Prop
  | .ok session => session.begun = begun
  | .error reason => reason ≠ .nested ∧ reason ≠ .missing

/-- An answer with the transaction ended, and without changes when the code is not 0. No
transaction was begun in another one, or ended where none was begun. -/
def Closed (old : D) : Answer D → Prop
  | .ok (code, after) => after.begun = none ∧ (code ≠ 0 → after.db = old)
  | .error reason => reason ≠ .nested ∧ reason ≠ .missing

section Closing

variable {old : D} {session : Session D}

theorem closed_rollback (code : Int) (hBegun : session.begun = some old) :
    Closed old (rollback code session) := by
  simp only [rollback, hBegun]
  exact ⟨rfl, fun _ => rfl⟩

theorem closed_commit (hBegun : session.begun = some old) : Closed old (commit 0 session) := by
  simp only [commit, hBegun]
  exact ⟨rfl, fun hCode => absurd rfl hCode⟩

theorem closed_answer (code : Int) (hNone : session.begun = none) :
    Closed session.db (answer code session) :=
  ⟨hNone, fun _ => rfl⟩

theorem closed_perform {statements : Session D → Except Abort (Session D)} {rest : Command D}
    (hStatements : Within (some old) (statements session))
    (hRest : ∀ middle, middle.begun = some old → Closed old (rest middle)) :
    Closed old (perform statements rest session) := by
  rw [perform]
  cases hResult : statements session with
  | error reason =>
      rw [hResult] at hStatements
      exact hStatements
  | ok middle =>
      rw [hResult] at hStatements
      exact hRest middle hStatements

theorem closed_beginImmediate {body : Command D} (hNone : session.begun = none)
    (h : Closed session.db (body { session with begun := some session.db })) :
    Closed session.db (beginImmediate body session) := by
  simpa only [beginImmediate, hNone] using h

end Closing

end Transaction
