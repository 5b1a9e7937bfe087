import OpenVAS.Lib.Run
import OpenVAS.PortLists.Basic
import OpenVAS.Trashcan.Roles

/-! The transactions of the commands on port lists, in a session of many commands. -/
namespace PortLists

open CString Transaction Trashcan

/-! Statements stay within the transaction of their command. -/

section Statements

variable {begun : Option Database} {session : Session Database} {env : Env}

theorem within_insertUnique {Row : Type} (uuid : Row → CString) (table : Table Row)
    (rows : List Row) {rest : Table Row → Except Abort (Session Database)}
    (hRest : ∀ table, Within begun (rest table)) :
    Within begun (insertUnique uuid table rows >>= rest) := by
  rw [insertUnique]
  split
  · exact hRest _
  · exact ⟨by decide, by decide⟩

theorem within_createPortListLock (uuid name comment : CString) (ranges : List Range) :
    Within session.begun (createPortListLock env uuid name comment ranges session) :=
  within_insertUnique _ _ _ fun _ => within_insertUnique _ _ _ fun _ => rfl

theorem within_createDefault (name comment : CString) (defaults : List Range) :
    Within session.begun (createDefault env name comment defaults session) :=
  within_insertUnique _ _ _ fun _ => within_insertUnique _ _ _ fun _ => rfl

theorem within_createFromText (name comment portRanges : CString) :
    Within session.begun (createFromText env name comment portRanges session) := by
  rw [createFromText]
  split
  · exact ⟨by decide, by decide⟩
  · exact within_createPortListLock _ _ _ _

theorem within_insertRange (portList : Nat) (type : PortProtocol) (first last : Int) :
    Within session.begun (insertRange env portList type first last session) :=
  within_insertUnique _ _ _ fun _ => rfl

theorem within_copyRanges (first old new : Nat) :
    Within session.begun (copyRanges env first old new session) :=
  within_insertUnique _ _ _ fun _ => rfl

theorem within_trashPortList (portList : Nat) :
    Within session.begun (trashPortList portList session) :=
  within_insertUnique _ _ _ fun _ => within_insertUnique _ _ _ fun _ => rfl

theorem within_untrashPortList (resource : Nat) :
    Within session.begun (untrashPortList resource session) :=
  within_insertUnique _ _ _ fun _ => within_insertUnique _ _ _ fun _ => rfl

theorem within_untrashRole (resource : Nat) : Within session.begun (untrashRole resource session) :=
  within_insertUnique _ _ _ fun _ => rfl

/-- The copies of a list and its tags are made within the transaction. -/
theorem within_copyRows (name comment : Option CString) (portListId : CString) (old : Nat) :
    Within session.begun
      ((copyRows env name comment portListId old session).map Copied.session) := by
  simp only [copyRows, insertUnique]
  split
  · simp only [bind, Except.bind]
    split
    · rename_i reason hReason
      split at hReason
      · cases hReason
      · obtain rfl := Except.error.inj hReason
        exact ⟨by decide, by decide⟩
    · rfl
  · exact ⟨by decide, by decide⟩

end Statements

/-! Commands. -/

section Commands

variable {session : Session Database}

theorem closed_perform_commit {old : Database}
    {statements : Session Database → Except Abort (Session Database)}
    (h : Within (some old) (statements session)) :
    Closed old (perform statements (commit 0) session) :=
  closed_perform h fun _ hBegun => closed_commit hBegun

theorem importPortList_closed (env : Env) (portListId : Option CString) (name : CString)
    (comment : Option CString) (ranges : List Range) (hNone : session.begun = none) :
    Closed session.db (importPortList env portListId name comment ranges session) := by
  cases portListId with
  | none => exact closed_answer (-1) hNone
  | some portListId =>
      rw [importPortList]
      apply closed_beginImmediate hNone
      dsimp only
      split
      · exact closed_rollback 99 rfl
      split
      · exact closed_rollback 1 rfl
      split
      · exact closed_rollback 2 rfl
      · exact closed_perform_commit (within_createPortListLock _ _ _ _)

theorem describePortList_closed (env : Env) (name : CString) (comment portRanges : Option CString)
    (defaults : List Range) (hNone : session.begun = none) :
    Closed session.db (describePortList env name comment portRanges defaults session) := by
  rw [describePortList]
  split
  · exact closed_answer 4 hNone
  · apply closed_beginImmediate hNone
    split
    · exact closed_rollback 99 rfl
    split
    · exact closed_rollback 1 rfl
    split
    · exact closed_perform_commit (within_createDefault _ _ _)
    · exact closed_perform_commit (within_createFromText _ _ _)

theorem createPortList_closed (env : Env) (portListId : Option CString) (name : CString)
    (comment portRanges : Option CString) (ranges : Option (List Range)) (defaults : List Range)
    (hNone : session.begun = none) :
    Closed session.db
      (createPortList env portListId name comment portRanges ranges defaults session) := by
  cases ranges with
  | some ranges => exact importPortList_closed env portListId name comment ranges hNone
  | none => exact describePortList_closed env name comment portRanges defaults hNone

theorem addPortRange_closed (env : Env) (portListId : CString) (type : PortProtocol)
    (first last : Int) (hNone : session.begun = none) :
    Closed session.db (addPortRange env portListId type first last session) := by
  apply closed_beginImmediate hNone
  dsimp only
  split
  · exact closed_rollback 99 rfl
  split
  · exact closed_rollback 3 rfl
  split
  · exact closed_rollback 5 rfl
  split
  · exact closed_rollback 6 rfl
  · exact closed_perform_commit (within_insertRange _ _ _ _)

theorem createPortRange_closed (env : Env) (portListId type start stop : CString)
    (hNone : session.begun = none) :
    Closed session.db (createPortRange env portListId type start stop session) := by
  rw [createPortRange]
  split
  · exact closed_answer 1 hNone
  split
  · exact closed_answer 2 hNone
  split
  · exact addPortRange_closed _ _ _ _ _ hNone
  split
  · exact addPortRange_closed _ _ _ _ _ hNone
  · exact closed_answer 4 hNone

theorem modifyPortList_closed (env : Env) (portListId name comment : Option CString)
    (hNone : session.begun = none) :
    Closed session.db (modifyPortList env portListId name comment session) := by
  cases portListId with
  | none => exact closed_answer 3 hNone
  | some portListId =>
      rw [modifyPortList]
      apply closed_beginImmediate hNone
      dsimp only
      split
      · exact closed_rollback 99 rfl
      split
      · exact closed_rollback 1 rfl
      split
      · exact closed_rollback 2 rfl
      · exact closed_commit rfl

theorem copyAll_closed {old : Database} (env : Env) (name comment : Option CString)
    (portListId : CString) (number : Nat) (hBegun : session.begun = some old) :
    Closed old (copyAll env name comment portListId number session) := by
  have hRows : Within session.begun
      ((copyRows env name comment portListId number session).map Copied.session) :=
    within_copyRows _ _ _ _
  rw [hBegun] at hRows
  rw [copyAll]
  split
  · rename_i reason hReason
    rw [hReason] at hRows
    exact hRows
  · rename_i copied hCopied
    rw [hCopied] at hRows
    have hCopiedBegun : copied.session.begun = some old := hRows
    split
    · exact closed_rollback (-1) hCopiedBegun
    · apply closed_perform_commit
      rw [← hCopiedBegun]
      exact within_copyRanges _ _ _

theorem copyPortList_closed (env : Env) (name comment portListId : Option CString)
    (hNone : session.begun = none) :
    Closed session.db (copyPortList env name comment portListId session) := by
  apply closed_beginImmediate hNone
  dsimp only
  split
  · exact closed_rollback (-1) rfl
  split
  · exact closed_rollback 99 rfl
  split
  · exact closed_rollback 2 rfl
  split
  · exact closed_rollback (-1) rfl
  split
  · exact closed_rollback 1 rfl
  · exact copyAll_closed _ _ _ _ _ rfl

theorem deletePortList_closed (env : Env) (portListId : CString) (ultimate : Bool)
    (hNone : session.begun = none) :
    Closed session.db (deletePortList env portListId ultimate session) := by
  apply closed_beginImmediate hNone
  split
  · exact closed_rollback 99 rfl
  split
  · split
    · exact closed_rollback 2 rfl
    split
    · exact closed_commit rfl
    split
    · exact closed_rollback 1 rfl
    · exact closed_commit rfl
  · split
    · exact closed_rollback 3 rfl
    split
    · exact closed_rollback 1 rfl
    split
    · exact closed_perform (within_trashPortList _) fun _ hBegun => closed_commit hBegun
    · exact closed_commit rfl

theorem deletePortListWithout_closed (env : Env) (hNone : session.begun = none) :
    Closed session.db (deletePortListWithout env session) := by
  apply closed_beginImmediate hNone
  split
  · exact closed_rollback 99 rfl
  · exact closed_rollback (-1) rfl

theorem manageRestore_closed (env : Env) (resourceId : CString) (hNone : session.begun = none) :
    Closed session.db (manageRestore env resourceId session) := by
  apply closed_beginImmediate hNone
  dsimp only
  split
  · exact closed_rollback 99 rfl
  split
  · split
    · exact closed_rollback 3 rfl
    · exact closed_perform (within_untrashPortList _) fun _ hBegun => closed_commit hBegun
  split
  · split
    · exact closed_rollback 3 rfl
    · exact closed_perform (within_untrashRole _) fun _ hBegun => closed_commit hBegun
  split
  · split
    · exact closed_rollback 3 rfl
    · exact closed_commit rfl
  · exact closed_rollback 2 rfl

/-- The range of `delete_port_range` is found, and it is in a list whose ranges are not
deleted. -/
def RefusesRange (env : Env) (portRangeId : Option CString) (db : Database) : Prop :=
  env.userMay db (lit "delete_port_range") = true ∧ ∃ uuid portRange, portRangeId = some uuid ∧
    findPortRangeWithPermission env db uuid (lit "delete_port_range") = some portRange ∧
    rangeKept db portRange = true

theorem deletePortRange_closed_iff (env : Env) (portRangeId : Option CString)
    (hNone : session.begun = none) :
    Closed session.db (deletePortRange env portRangeId session) ↔
      ¬ RefusesRange env portRangeId session.db := by
  simp only [deletePortRange, beginImmediate, hNone]
  split
  · rename_i hMay
    refine iff_of_true (closed_rollback 99 rfl) fun hRefuses => ?_
    simp [hRefuses.1] at hMay
  rename_i hMay
  split
  · rename_i hFind
    refine iff_of_true (closed_rollback (-1) rfl) fun hRefuses => ?_
    obtain ⟨-, uuid, portRange, rfl, hFound, -⟩ := hRefuses
    cases hFind.symm.trans hFound
  · rename_i portRange hFind
    obtain ⟨uuid, rfl, hFound⟩ := Option.bind_eq_some_iff.mp hFind
    split
    · rename_i hKept
      refine iff_of_false (fun hClosed => by cases hClosed.1) (not_not.mpr ⟨?_, ?_⟩)
      · simpa using hMay
      · exact ⟨uuid, portRange, rfl, hFound, hKept⟩
    · rename_i hKept
      refine iff_of_true (closed_commit rfl) fun hRefuses => ?_
      obtain ⟨-, uuid', portRange', hUuid, hFound', hKept'⟩ := hRefuses
      obtain rfl := Option.some.inj hUuid
      obtain rfl := Option.some.inj (hFound.symm.trans hFound')
      exact hKept hKept'

end Commands

/-! Sessions. -/

inductive PortListCommand where
  | create (env : Env) (portListId : Option CString) (name : CString)
      (comment portRanges : Option CString) (ranges : Option (List Range)) (defaults : List Range)
  | createRange (env : Env) (portListId type start stop : CString)
  | modify (env : Env) (portListId name comment : Option CString)
  | copy (env : Env) (name comment portListId : Option CString)
  | delete (env : Env) (portListId : Option CString) (ultimate : Bool)
  | deleteRange (env : Env) (portRangeId : Option CString)
  | restore (env : Env) (resourceId : CString)

def PortListCommand.run : PortListCommand → Command Database
  | .create env portListId name comment portRanges ranges defaults =>
      createPortList env portListId name comment portRanges ranges defaults
  | .createRange env portListId type start stop => createPortRange env portListId type start stop
  | .modify env portListId name comment => modifyPortList env portListId name comment
  | .copy env name comment portListId => copyPortList env name comment portListId
  | .delete env (some portListId) ultimate => deletePortList env portListId ultimate
  | .delete env none _ => deletePortListWithout env
  | .deleteRange env portRangeId => deletePortRange env portRangeId
  | .restore env resourceId => manageRestore env resourceId

/-- The command returns with its transaction open. -/
def PortListCommand.LeavesOpen (db : Database) : PortListCommand → Prop
  | .deleteRange env portRangeId => RefusesRange env portRangeId db
  | _ => False

theorem run_closed_iff {session : Session Database} (hNone : session.begun = none)
    (command : PortListCommand) :
    Closed session.db (command.run session) ↔ ¬ command.LeavesOpen session.db := by
  cases command with
  | create env portListId name comment portRanges ranges defaults =>
      exact iff_of_true (createPortList_closed _ _ _ _ _ _ _ hNone) id
  | createRange env portListId type start stop =>
      exact iff_of_true (createPortRange_closed _ _ _ _ _ hNone) id
  | modify env portListId name comment =>
      exact iff_of_true (modifyPortList_closed _ _ _ _ hNone) id
  | copy env name comment portListId =>
      exact iff_of_true (copyPortList_closed _ _ _ _ hNone) id
  | delete env portListId ultimate =>
      cases portListId with
      | none => exact iff_of_true (deletePortListWithout_closed _ hNone) id
      | some portListId => exact iff_of_true (deletePortList_closed _ _ _ hNone) id
  | deleteRange env portRangeId => exact deletePortRange_closed_iff _ _ hNone
  | restore env resourceId => exact iff_of_true (manageRestore_closed _ _ hNone) id

/-- A session, or the reason why its process was aborted. -/
abbrev SessionState := Except Abort (Session Database)

def sessionStep : SessionState → PortListCommand → SessionState
  | .ok session, command => (command.run session).map Prod.snd
  | .error reason, _ => .error reason

/-- The command ends its transaction, and changes nothing when it fails. -/
def EndsClosed (state : SessionState) (command : PortListCommand) : Prop :=
  ∀ session, state = .ok session → Closed session.db (command.run session)

/-- The command is not the deletion of a range that is refused. -/
def DeletesNoKept (state : SessionState) (command : PortListCommand) : Prop :=
  ∀ session, state = .ok session → ¬ command.LeavesOpen session.db

/-- No transaction is open between commands. -/
def NoneOpen (state : SessionState) : Prop := ∀ session, state = .ok session → session.begun = none

theorem noneOpen_step {state : SessionState} {command : PortListCommand}
    (hEnds : EndsClosed state command) : NoneOpen (sessionStep state command) := by
  intro session hSession
  cases state with
  | error reason => cases hSession
  | ok before =>
      have hClosed := hEnds before rfl
      simp only [sessionStep] at hSession
      cases hRun : command.run before with
      | error reason =>
          rw [hRun] at hSession
          cases hSession
      | ok result =>
          rw [hRun] at hClosed hSession
          obtain rfl := Except.ok.inj hSession
          exact hClosed.1

/-- In every session the commands end their transactions and fail without changes exactly
when no range is deleted that `delete_port_range` refuses. -/
theorem commands_closed_iff {start : Session Database} (hStart : start.begun = none)
    (commands : List PortListCommand) :
    Run.AllSteps sessionStep EndsClosed (.ok start) commands ↔
      Run.AllSteps sessionStep DeletesNoKept (.ok start) commands := by
  apply Run.AllSteps.congr NoneOpen
  · intro state command _ hEnds
    exact noneOpen_step hEnds
  · intro state command hNone
    exact forall_congr' fun session => forall_congr' fun hState =>
      run_closed_iff (hNone session hState) command
  · intro session hSession
    obtain rfl := Except.ok.inj hSession
    exact hStart

/-- A database with the list `first` or another one, and a range of it. -/
def oneList (uuid : CString) : Database :=
  { emptyDatabase with
    portLists := ⟨[(1, roleNamed uuid)], List.nodup_singleton _⟩
    portRanges := ⟨[(1, ⟨lit "r", 1, .tcp, 1, 10, [], false⟩)], by decide⟩ }

theorem commands_closed_iff_oneList :
    Run.AllSteps sessionStep EndsClosed (.ok ⟨oneList (lit "first"), none, 0⟩)
      [.deleteRange anyone (some (lit "r")), .delete anyone (some (lit "first")) false] := by
  apply (commands_closed_iff rfl _).mpr
  refine ⟨fun session hSession => ?_, fun session hSession => nofun, trivial⟩
  obtain rfl := Except.ok.inj hSession
  rintro ⟨-, uuid, portRange, hUuid, hFound, hKept⟩
  obtain rfl := Option.some.inj hUuid
  have hFirst : findPortRangeWithPermission anyone (oneList (lit "first")) (lit "r")
      (lit "delete_port_range") = some 1 := by decide
  obtain rfl := Option.some.inj (hFirst.symm.trans hFound)
  have hNot : rangeKept (oneList (lit "first")) 1 = false := by decide
  exact nomatch hNot.symm.trans hKept

/-- `delete_port_range` refuses a range of the default list, and the next command begins a
transaction inside the one that is left open. -/
theorem deletePortRange_leaves_open :
    ∃ after, deletePortRange anyone (some (lit "r"))
        ⟨oneList (lit "c7e03b6c-3bbe-11e1-a057-406186ea4fc5"), none, 0⟩ = .ok (3, after) ∧
      after.begun ≠ none ∧
      modifyPortList anyone (some (lit "first")) none none after = .error .nested ∧
      ¬ Run.AllSteps sessionStep EndsClosed
        (.ok ⟨oneList (lit "c7e03b6c-3bbe-11e1-a057-406186ea4fc5"), none, 0⟩)
        [.deleteRange anyone (some (lit "r")), .modify anyone (some (lit "first")) none none] := by
  have hRun : deletePortRange anyone (some (lit "r"))
      ⟨oneList (lit "c7e03b6c-3bbe-11e1-a057-406186ea4fc5"), none, 0⟩ = .ok (3,
      ⟨oneList (lit "c7e03b6c-3bbe-11e1-a057-406186ea4fc5"),
        some (oneList (lit "c7e03b6c-3bbe-11e1-a057-406186ea4fc5")), 0⟩) := rfl
  refine ⟨_, hRun, nofun, rfl, fun hEnds => ?_⟩
  have hClosed : Closed _ (deletePortRange anyone (some (lit "r"))
      ⟨oneList (lit "c7e03b6c-3bbe-11e1-a057-406186ea4fc5"), none, 0⟩) := hEnds.1 _ rfl
  rw [hRun] at hClosed
  exact nomatch hClosed.1

end PortLists
