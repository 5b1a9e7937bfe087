import OpenVAS.Targets.Limit
import OpenVAS.Trashcan.Roles

/-! When creating a target is faithful: the row of a created target holds what was given, a
refusal leaves the database as it was with no transaction open, and too many hosts are
told from bad ones. -/
namespace Targets

open CString Transaction Trashcan PortLists Hosts
open Sql (Value Arg Place bindArgs insertText)

/-! What is expected. -/

/-- The row of a created target. -/
structure RowHolds (context : Context) (request : Request) (db : Database) (row : Target) :
    Prop where
  name : rowName context.env db.targets request.name request.makeNameUnique = some row.name
  owner : row.owner = context.env.user
  hosts : (cleanHosts (request.hosts.getD []) none).map Prod.fst = some row.hosts
  excludeHosts : row.excludeHosts = request.excludeHosts.getD []
  comment : row.comment = request.comment.getD []
  sshLscCredential : row.lscCredential = request.sshLscCredential
  smbLscCredential : row.smbLscCredential = request.smbLscCredential
  sshPort : row.sshPort =
    if request.sshLscCredential ≠ 0 then some (request.sshPort.getD (lit "22")) else none
  portList : ∀ portListId ∈ request.portListId,
    ∃ portList, findResource id context.env db.manager.portLists portListId = some portList ∧
      row.portRange = portList
  reverseLookupOnly : row.reverseLookupOnly = lookupFlag request.reverseLookupOnly
  reverseLookupUnify : row.reverseLookupUnify = lookupFlag request.reverseLookupUnify
  aliveTest : row.aliveTest = aliveTestFromString request.aliveTests

/-- The hosts string is valid and stands for more hosts than the limit. A string on which
`openvas_hosts_new` does not return, such as a range up to 255.255.255.255, stands for no
hosts here. -/
def TooMany (context : Context) (request : Request) : Prop :=
  ∃ fuel hosts, openvasHostsNew fuel request.hosts = .ok (some hosts) ∧
    context.maxHosts.toInt < hosts.hosts.length

/-- Creating a target from a session without a transaction is faithful and clean. -/
structure CreatesCleanly (context : Context) (request : Request) (session : Session Database) :
    Prop where
  arguments_fit : ∀ fuel, createTarget context fuel request session ≠ .error .arguments
  created : ∀ fuel after, createTarget context fuel request session = .ok (.ok (0, after)) →
    ∃ row, after.db.targets.rows = session.db.targets.rows ++ [(after.lastInsert, row)] ∧
      RowHolds context request session.db row
  refused : ∀ fuel code after, createTarget context fuel request session = .ok (.ok (code, after)) →
    code ≠ 0 → after.begun = none ∧ after.db = session.db
  too_many : (∃ fuel after, createTarget context fuel request session = .ok (.ok (3, after))) ↔
    TooMany context request

/-! The row. -/

/-- The row of a request with a comment. -/
def madeRow (context : Context) (request : Request) (name clean : CString) (portList made : Nat)
    (aliveTest : Int) : Target where
  uuid := context.env.makeUuid made
  name := name
  owner := context.env.user
  hosts := clean
  excludeHosts := request.excludeHosts.getD []
  comment := request.comment.getD []
  lscCredential := request.sshLscCredential
  sshPort := if request.sshLscCredential ≠ 0 then some (request.sshPort.getD (lit "22")) else none
  smbLscCredential := request.smbLscCredential
  portRange := portList
  reverseLookupOnly := lookupFlag request.reverseLookupOnly
  reverseLookupUnify := lookupFlag request.reverseLookupUnify
  aliveTest := aliveTest
  creationTime := context.env.now
  modificationTime := context.env.now

section Row

variable {context : Context} {request : Request} (name clean : CString) (portList made : Nat)
  (aliveTest : Int) (session : Session Database)

theorem unquote_lookupFlag (flag : Option CString) :
    Sql.unquote (lookupFlag flag) = some (lookupFlag flag) := by
  cases flag with
  | none => rfl
  | some flag =>
      rw [lookupFlag]
      split
      · rfl
      · rfl

theorem evaluate_sshPort :
    Sql.evaluate (if request.sshLscCredential ≠ 0 then
        insertText (some (request.sshPort.getD (lit "22"))) else lit "NULL") =
      some (if request.sshLscCredential ≠ 0 then .text (request.sshPort.getD (lit "22"))
        else .null) := by
  split
  · exact Sql.evaluate_insertText _
  · exact Sql.evaluate_insertText none

theorem unquote_getD (string : Option CString) :
    Sql.unquote ((string.map Sql.quote).getD []) = some (string.getD []) := by
  cases string with
  | none => rfl
  | some string => exact Sql.unquote_quote string

theorem createRow_comment (h : request.comment.isSome = true) :
    createRow context request name clean portList made aliveTest session =
      .ok (insertTarget (madeRow context request name clean portList made aliveTest) session) := by
  obtain ⟨comment, hComment⟩ := Option.isSome_iff_exists.mp h
  have hOwner : (selectUser context context.credentialsUuid).asNumber.map Int.toNat =
      context.env.user := by
    rw [selectUser, if_pos rfl]
    cases context.env.user with
    | none => rfl
    | some user => rfl
  have hPort : (if request.sshLscCredential ≠ 0 then .text (request.sshPort.getD (lit "22"))
      else .null : Value).asText =
        if request.sshLscCredential ≠ 0 then some (request.sshPort.getD (lit "22")) else none := by
    split
    · rfl
    · rfl
  have hUuid := Sql.unquote_plain context.uuid_plain
  have hValues : (insertValues context request name clean portList made aliveTest).bind ofValues =
      some (madeRow context request name clean portList made aliveTest) := by
    simp only [insertValues, hComment, Option.isSome_some, if_true, insertPlaces, insertArgs,
      bindArgs, Sql.bindArg, Sql.unquote_quote, hUuid, unquote_getD, unquote_lookupFlag,
      evaluate_sshPort, Option.map_some, Option.getD_some, Option.bind_some]
    simp only [ofValues, Value.asText_text, Value.asNumber_number, hOwner, hPort, madeRow, hComment]
    rfl
  rw [createRow, hValues]

/-- Without a comment a text stands where a number is expected. -/
theorem createRow_without (h : request.comment = none) :
    createRow context request name clean portList made aliveTest session = .error .arguments := by
  have hValues : insertValues context request name clean portList made aliveTest = none := by
    have hUuid := Sql.unquote_plain context.uuid_plain
    simp only [insertValues, h, Option.isSome_none, Bool.false_eq_true, if_false, insertPlaces,
      insertArgs, bindArgs, Sql.bindArg, Sql.unquote_quote, hUuid, unquote_getD, Option.map_none,
      Option.getD_none, Option.map_some, Option.bind_some, Option.bind_none]
  rw [createRow, hValues]
  rfl

end Row

/-! The stages. -/

section Stages

variable {context : Context} {request : Request} {session : Session Database}

/-- The checks in front of the hosts all succeed. -/
structure Passes (context : Context) (request : Request) (session : Session Database) : Prop where
  portRange : ∀ portRange ∈ request.portRange, Ports.validatePortRange (some portRange) = true
  sshPort : ∀ sshPort ∈ request.sshPort, validatePort sshPort = true
  aliveTest : 0 ≤ aliveTestFromString request.aliveTests
  may : context.env.userMay session.db.manager (lit "create_target") = true
  name : request.makeNameUnique = true ∨
    targetNamed context.env session.db.targets request.name = false

/-- The hosts are counted and cleaned; `left` is their number less that of the repeated ones. -/
def Counted (context : Context) (fuel : Nat) (request : Request) (clean : CString) (left : Int) :
    Prop :=
  ∃ count, manageCountHosts context fuel request.hosts
      (some ((request.excludeHosts.map Sql.quote).getD [])) = .ok count ∧ 0 < count ∧
    cleanHosts (request.hosts.getD []) (some count.toInt) = some (clean, some left)

def begunSession (session : Session Database) : Session Database :=
  { session with begun := some session.db }

/-- An answer that ends the transaction without changes, and is not the one for too many hosts. -/
def Refuses (session : Session Database) (result : Result) : Prop :=
  ∃ code after, result = .ok (.ok (code, after)) ∧ code ≠ 0 ∧ code ≠ 3 ∧ after.begun = none ∧
    after.db = session.db

theorem refuses_answer (hNone : session.begun = none) (code : Int) (hZero : code ≠ 0)
    (hThree : code ≠ 3) : Refuses session (.ok (answer code session)) :=
  ⟨code, session, rfl, hZero, hThree, hNone, rfl⟩

theorem refuses_rollback {changed : Session Database} (hBegun : changed.begun = some session.db)
    (code : Int) (hZero : code ≠ 0) (hThree : code ≠ 3) :
    Refuses session (.ok (rollback code changed)) := by
  refine ⟨code, { changed with db := session.db, begun := none }, ?_, hZero, hThree, rfl, rfl⟩
  simp only [rollback, hBegun]

/-- A check of an argument that may be missing. -/
theorem any_not_eq_false {α : Type} {arg : Option α} {check : α → Bool} :
    arg.any (fun a => !check a) = false ↔ ∀ a ∈ arg, check a = true := by
  cases arg with
  | none => simp
  | some a => simp

/-- The name that a row gets when the checks succeed. -/
theorem exists_rowName (h : Passes context request session) :
    ∃ name, rowName context.env session.db.targets request.name request.makeNameUnique =
      some name := by
  rw [rowName]
  split
  · exact ⟨_, rfl⟩
  · rename_i hGiven
    rw [if_neg (by simpa using h.name.resolve_left hGiven)]
    exact ⟨_, rfl⟩

/-- The command comes to the hosts when the checks succeed. -/
theorem createTarget_passes (hNone : session.begun = none) (h : Passes context request session)
    (fuel : Nat) : ∃ name,
      rowName context.env session.db.targets request.name request.makeNameUnique = some name ∧
      createTarget context fuel request session =
        createNamed context fuel request name (aliveTestFromString request.aliveTests)
          (begunSession session) := by
  obtain ⟨name, hName⟩ := exists_rowName h
  have hRange : request.portRange.any (fun portRange =>
      !Ports.validatePortRange (some portRange)) = false :=
    any_not_eq_false.mpr h.portRange
  have hPort : request.sshPort.any (fun sshPort => !validatePort sshPort) = false :=
    any_not_eq_false.mpr h.sshPort
  have hAlive : ¬ aliveTestFromString request.aliveTests ≤ -1 := by
    have hNat := h.aliveTest
    omega
  refine ⟨name, hName, ?_⟩
  simp only [createTarget, hRange, hPort, Bool.false_eq_true, if_false, hAlive, hNone, createBegun,
    h.may, Bool.not_true, hName]
  rfl

/-- A check that fails ends the command. -/
theorem createTarget_refuses (hNone : session.begun = none) (h : ¬ Passes context request session)
    (fuel : Nat) : Refuses session (createTarget context fuel request session) := by
  by_cases hRange : request.portRange.any (fun portRange =>
      !Ports.validatePortRange (some portRange)) = true
  · simp only [createTarget, hRange, if_true]
    exact refuses_answer hNone 4 (by decide) (by decide)
  by_cases hPort : request.sshPort.any (fun sshPort => !validatePort sshPort) = true
  · simp only [createTarget, hRange, hPort, if_true]
    exact refuses_answer hNone 5 (by decide) (by decide)
  by_cases hAlive : aliveTestFromString request.aliveTests ≤ -1
  · simp only [createTarget, hRange, hPort, hAlive, if_true]
    exact refuses_answer hNone 7 (by decide) (by decide)
  simp only [createTarget, hRange, hPort, hAlive, if_false, hNone, createBegun]
  by_cases hMay : context.env.userMay session.db.manager (lit "create_target") = true
  · simp only [hMay, Bool.not_true, Bool.false_eq_true, if_false]
    cases hName : rowName context.env session.db.targets request.name request.makeNameUnique with
    | none => exact refuses_rollback rfl 1 (by decide) (by decide)
    | some name =>
        refine absurd ?_ h
        exact {
          portRange := any_not_eq_false.mp (Bool.eq_false_iff.mpr hRange)
          sshPort := any_not_eq_false.mp (Bool.eq_false_iff.mpr hPort)
          aliveTest := by omega
          may := hMay
          name := by
            rw [rowName] at hName
            by_cases hUnique : request.makeNameUnique = true
            · exact .inl hUnique
            · rw [if_neg hUnique] at hName
              split at hName
              · cases hName
              · rename_i hFree
                exact .inr (Bool.eq_false_iff.mpr hFree)
        }
  · simp only [hMay, Bool.not_false, if_true]
    exact refuses_rollback rfl 99 (by decide) (by decide)

/-- From the hosts on, when they are counted. -/
theorem createNamed_counted {fuel : Nat} {clean : CString} {left : Int}
    (h : Counted context fuel request clean left) (name : CString) (aliveTest : Int) :
    createNamed context fuel request name aliveTest session =
      if context.maxHosts.toInt < left then .ok (rollback 3 session)
      else createWithHosts context request name clean aliveTest session := by
  obtain ⟨count, hCount, hPos, hClean⟩ := h
  have hNot : ¬ count ≤ 0 := Int32.not_le.mpr hPos
  simp only [createNamed, hCount, hNot, if_false, hClean, Option.any_some, decide_eq_true_eq]

theorem createNamed_uncounted {fuel : Nat} {changed : Session Database}
    (hBegun : changed.begun = some session.db)
    (h : ∀ clean left, ¬ Counted context fuel request clean left) (name : CString)
    (aliveTest : Int) :
    (∃ halt, createNamed context fuel request name aliveTest changed = .error (.hosts halt)) ∨
      Refuses session (createNamed context fuel request name aliveTest changed) := by
  rw [createNamed]
  cases hCount : manageCountHosts context fuel request.hosts
    (some ((request.excludeHosts.map Sql.quote).getD [])) with
  | error halt => exact .inl ⟨halt, rfl⟩
  | ok count =>
      by_cases hPos : count ≤ 0
      · simp only [hPos, if_true]
        exact .inr (refuses_rollback hBegun 2 (by decide) (by decide))
      · cases hClean : cleanHosts (request.hosts.getD []) (some count.toInt) with
        | none =>
            simp only [hPos, if_false, hClean]
            exact .inl ⟨_, rfl⟩
        | some answer =>
            obtain ⟨clean, left⟩ := answer
            obtain ⟨n, _, rfl⟩ := cleanHosts_max hClean
            exact absurd ⟨count, hCount, Int32.not_le.mp hPos, hClean⟩ (h clean n)

/-- The port list is there and a comment is given, or no port list can be made. -/
def PortListReady (context : Context) (request : Request) (session : Session Database) : Prop :=
  match request.portListId with
  | some portListId =>
      (findResource id context.env session.db.manager.portLists portListId).isSome = true ∧
        request.comment.isSome = true
  | none =>
      ∀ obtained, newPortList context.env request (begunSession session) = .ok obtained →
        obtained.code = 0 → request.comment.isSome = true

/-- A row is inserted in a session in which no target was changed. -/
def Inserts (context : Context) (request : Request) (name clean : CString) (aliveTest : Int)
    (session : Session Database) (result : Result) : Prop :=
  ∃ portList made changed,
    result = .ok (insertTarget (madeRow context request name clean portList made aliveTest) changed) ∧
      changed.db.targets = session.db.targets ∧
      ∀ portListId ∈ request.portListId,
        findResource id context.env session.db.manager.portLists portListId = some portList

/-- The answers of `create_port_list_unique`. -/
theorem code_of_createPortListUnique {env : Env} {name comment : CString}
    {portRange : Option CString} {start : Session Trashcan.Database} {obtained : Obtained}
    (h : createPortListUnique env name comment portRange start = .ok obtained) :
    obtained.code = 0 ∨ obtained.code = 4 ∨ obtained.code = -1 := by
  rw [createPortListUnique] at h
  split at h
  · split at h
    · obtain rfl := Except.ok.inj h
      exact .inr (.inr rfl)
    · obtain rfl := Except.ok.inj h
      exact .inl rfl
  · split at h
    · obtain rfl := Except.ok.inj h
      exact .inr (.inl rfl)
    · split at h
      · cases h
      · simp only [Except.map] at h
        split at h
        · cases h
        · obtain rfl := Except.ok.inj h
          exact .inl rfl

theorem createWithHosts_ready (h : PortListReady context request session) (name clean : CString)
    (aliveTest : Int) :
    (∃ reason, createWithHosts context request name clean aliveTest (begunSession session) =
        .ok (.error reason)) ∨
      Refuses session
        (createWithHosts context request name clean aliveTest (begunSession session)) ∨
      Inserts context request name clean aliveTest session
        (createWithHosts context request name clean aliveTest (begunSession session)) := by
  rw [createWithHosts]
  rw [PortListReady] at h
  cases hId : request.portListId with
  | some portListId =>
      rw [hId] at h
      obtain ⟨hFound, hComment⟩ := h
      obtain ⟨portList, hPortList⟩ := Option.isSome_iff_exists.mp hFound
      have hBegun : findResource id context.env (begunSession session).db.manager.portLists
        portListId = some portList := hPortList
      simp only [hBegun]
      refine .inr (.inr ⟨portList, 0, begunSession session, createRow_comment _ _ _ _ _ _ hComment,
        rfl, fun other hOther => ?_⟩)
      rw [hId] at hOther
      obtain rfl := Option.some.inj hOther
      exact hPortList
  | none =>
      rw [hId] at h
      cases hNew : newPortList context.env request (begunSession session) with
      | error reason => exact .inl ⟨reason, rfl⟩
      | ok obtained =>
          by_cases hCode : obtained.code = 0
          · have hComment := h obtained hNew hCode
            simp only [hCode, ne_eq, not_true, if_false]
            refine .inr (.inr ⟨obtained.portList, obtained.made, _,
              createRow_comment _ _ _ _ _ _ hComment, rfl, fun other hOther => ?_⟩)
            simp [hId] at hOther
          · simp only [ne_eq, hCode, not_false_eq_true, if_true]
            have hThree : obtained.code ≠ 3 := by
              rcases code_of_createPortListUnique hNew with hZero | hFour | hMinus
              · exact absurd hZero hCode
              · omega
              · omega
            exact .inr (.inl (refuses_rollback rfl _ hCode hThree))

theorem createWithHosts_unready (h : ¬ PortListReady context request session) (name clean : CString)
    (aliveTest : Int) :
    createWithHosts context request name clean aliveTest (begunSession session) = .error .arguments ∨
      createWithHosts context request name clean aliveTest (begunSession session) =
        .ok (.ok (6, begunSession session)) := by
  rw [PortListReady] at h
  cases hId : request.portListId with
  | some portListId =>
      simp only [hId] at h
      simp only [createWithHosts, hId]
      cases hFound : findResource id context.env (begunSession session).db.manager.portLists
        portListId with
      | none => exact .inr rfl
      | some portList =>
          have hSome : findResource id context.env session.db.manager.portLists portListId =
            some portList := hFound
          rw [hSome] at h
          exact .inl (createRow_without _ _ _ _ _ _ (by simpa using h))
  | none =>
      simp only [hId] at h
      push Not at h
      obtain ⟨obtained, hNew, hCode, hComment⟩ := h
      simp only [createWithHosts, hId, hNew, hCode, ne_eq, not_true, if_false]
      exact .inl (createRow_without _ _ _ _ _ _ (by simpa using hComment))

/-- An insertion that is answered adds the row. -/
theorem insertTarget_ok {row : Target} {changed after : Session Database} {code : Int}
    (h : insertTarget row changed = .ok (code, after)) :
    code = 0 ∧ after.db.targets.rows = changed.db.targets.rows ++ [(after.lastInsert, row)] := by
  obtain ⟨middle, hMiddle, hCommit⟩ := perform_ok h
  obtain ⟨hCode, _, hDb⟩ := commit_ok hCommit
  obtain ⟨targets, hInsert, hPure⟩ := Except.bind_eq_ok.mp hMiddle
  obtain ⟨rfl, -, -⟩ := insertUnique_ok hInsert
  obtain rfl := Except.ok.inj hPure
  have hLast : after.lastInsert = changed.db.targets.next := by
    rw [commit] at hCommit
    split at hCommit
    · obtain ⟨_, rfl⟩ := Prod.mk.inj (Except.ok.inj hCommit)
      rfl
    · cases hCommit
  refine ⟨hCode, ?_⟩
  rw [hDb, hLast]
  rfl

/-! The command. -/

/-- Whether the hosts come to the search for the port list, and whether they are too many then. -/
def WithinLimit (context : Context) (request : Request) : Prop :=
  ∃ fuel clean left, Counted context fuel request clean left ∧ left ≤ context.maxHosts.toInt

def OverLimit (context : Context) (request : Request) : Prop :=
  ∃ fuel clean left, Counted context fuel request clean left ∧ context.maxHosts.toInt < left

/-- A positive limit is not exceeded by what was counted under it. -/
theorem not_overLimit (hPos : 0 < context.maxHosts.toInt) : ¬ OverLimit context request := by
  rintro ⟨fuel, clean, left, ⟨count, hCount, _, hClean⟩, hOver⟩
  obtain ⟨n, hLe, hLeft⟩ := cleanHosts_max hClean
  obtain rfl := Option.some.inj hLeft
  have hCounted := manageCountHosts_le hPos hCount
  omega

/-- The ways in which the command comes to its end. -/
inductive Ends (context : Context) (fuel : Nat) (request : Request) (session : Session Database)
    (result : Result) : Prop
  | halts (halt : Halt) (h : result = .error (.hosts halt))
  | aborts (reason : Abort) (h : result = .ok (.error reason))
  | refuses (h : Refuses session result)
  | tooMany (hPasses : Passes context request session) {clean : CString} {left : Int}
      (hCounted : Counted context fuel request clean left) (hOver : context.maxHosts.toInt < left)
      (h : result = .ok (rollback 3 (begunSession session)))
  | unready (hPasses : Passes context request session) (hWithin : WithinLimit context request)
      (hReady : ¬ PortListReady context request session)
      (h : result = .error .arguments ∨ result = .ok (.ok (6, begunSession session)))
  | inserts {name clean : CString}
      (hName : rowName context.env session.db.targets request.name request.makeNameUnique =
        some name)
      (hClean : (cleanHosts (request.hosts.getD []) none).map Prod.fst = some clean)
      (h : Inserts context request name clean (aliveTestFromString request.aliveTests) session result)

theorem createTarget_ends (hNone : session.begun = none) (fuel : Nat) :
    Ends context fuel request session (createTarget context fuel request session) := by
  by_cases hPasses : Passes context request session
  · obtain ⟨name, hName, hRun⟩ := createTarget_passes hNone hPasses fuel
    rw [hRun]
    by_cases hCounted : ∃ clean left, Counted context fuel request clean left
    · obtain ⟨clean, left, hCounted⟩ := hCounted
      rw [createNamed_counted hCounted]
      split
      · rename_i hOver
        exact .tooMany hPasses hCounted hOver rfl
      · rename_i hLimit
        have hWithin : WithinLimit context request :=
          ⟨fuel, clean, left, hCounted, Int.not_lt.mp hLimit⟩
        by_cases hReady : PortListReady context request session
        · rcases createWithHosts_ready hReady name clean (aliveTestFromString request.aliveTests) with
            ⟨reason, hAborts⟩ | hRefuses | hInserts
          · exact .aborts reason hAborts
          · exact .refuses hRefuses
          · obtain ⟨count, _, _, hClean⟩ := hCounted
            refine .inserts hName ?_ hInserts
            rw [cleanHosts_text _ none (some count.toInt), hClean]
            rfl
        · exact .unready hPasses hWithin hReady (createWithHosts_unready hReady name clean _)
    · push Not at hCounted
      have hBegun : (begunSession session).begun = some session.db := rfl
      rcases createNamed_uncounted hBegun hCounted name (aliveTestFromString request.aliveTests) with
        ⟨halt, hHalts⟩ | hRefuses
      · exact .halts halt hHalts
      · exact .refuses hRefuses
  · exact .refuses (createTarget_refuses hNone hPasses fuel)

theorem Ends.arguments_fit {fuel : Nat} {result : Result} (h : Ends context fuel request session result)
    (hReady : Passes context request session → WithinLimit context request →
      PortListReady context request session) : result ≠ .error .arguments := by
  cases h with
  | halts halt h => simp [h]
  | aborts reason h => simp [h]
  | refuses h =>
      obtain ⟨code, after, h, _⟩ := h
      simp [h]
  | tooMany hPasses hCounted hOver h => simp [h]
  | unready hPasses hWithin hNot h => exact absurd (hReady hPasses hWithin) hNot
  | inserts hName hClean h =>
      obtain ⟨portList, made, changed, h, _⟩ := h
      simp [h]

/-- An answer is that of an insertion, or leaves the database as it was. -/
theorem Ends.answered {fuel : Nat} {result : Result} (h : Ends context fuel request session result)
    (hReady : Passes context request session → WithinLimit context request →
      PortListReady context request session) {code : Int} {after : Session Database}
    (hResult : result = .ok (.ok (code, after))) :
    (code = 0 ∧ ∃ row,
        after.db.targets.rows = session.db.targets.rows ++ [(after.lastInsert, row)] ∧
          RowHolds context request session.db row) ∨
      (code ≠ 0 ∧ after.begun = none ∧ after.db = session.db) := by
  subst hResult
  cases h with
  | halts halt h => simp at h
  | aborts reason h => simp at h
  | refuses h =>
      obtain ⟨code', after', h, hZero, _, hClosed⟩ := h
      obtain ⟨rfl, rfl⟩ := Prod.mk.inj (Except.ok.inj (Except.ok.inj h))
      exact .inr ⟨hZero, hClosed⟩
  | tooMany hPasses hCounted hOver h =>
      obtain ⟨rfl, hClosed⟩ := rollback_ok rfl (Except.ok.inj h).symm
      exact .inr ⟨by decide, hClosed⟩
  | unready hPasses hWithin hNot h => exact absurd (hReady hPasses hWithin) hNot
  | @inserts name clean hName hClean h =>
      obtain ⟨portList, made, changed, h, hTargets, hFound⟩ := h
      obtain ⟨hCode, hRows⟩ := insertTarget_ok (Except.ok.inj h).symm
      rw [hTargets] at hRows
      have hHolds : RowHolds context request session.db
          (madeRow context request name clean portList made
            (aliveTestFromString request.aliveTests)) := {
        name := hName
        owner := rfl
        hosts := hClean
        excludeHosts := rfl
        comment := rfl
        sshLscCredential := rfl
        smbLscCredential := rfl
        sshPort := rfl
        portList := fun portListId hId => ⟨portList, hFound portListId hId, rfl⟩
        reverseLookupOnly := rfl
        reverseLookupUnify := rfl
        aliveTest := rfl
      }
      exact .inl ⟨hCode, _, hRows, hHolds⟩

/-- Too many hosts are told if and only if the checks in front of them succeed, and what is
left of them is over the limit. -/
theorem answers_three_iff (hNone : session.begun = none) :
    (∃ fuel after, createTarget context fuel request session = .ok (.ok (3, after))) ↔
      Passes context request session ∧ OverLimit context request := by
  constructor
  · rintro ⟨fuel, after, hRun⟩
    cases @createTarget_ends context request session hNone fuel with
    | halts halt h => simp [hRun] at h
    | aborts reason h => simp [hRun] at h
    | refuses h =>
        obtain ⟨code, after', h, _, hThree, _⟩ := h
        rw [hRun] at h
        obtain ⟨rfl, _⟩ := Prod.mk.inj (Except.ok.inj (Except.ok.inj h))
        exact absurd rfl hThree
    | tooMany hPasses hCounted hOver h => exact ⟨hPasses, fuel, _, _, hCounted, hOver⟩
    | unready hPasses hWithin hReady h =>
        rcases h with h | h
        · simp [hRun] at h
        · simp [hRun] at h
    | inserts hName hClean h =>
        obtain ⟨portList, made, changed, h, _⟩ := h
        rw [hRun] at h
        have hCode := (insertTarget_ok (Except.ok.inj h).symm).1
        exact absurd hCode (by decide)
  · rintro ⟨hPasses, fuel, clean, left, hCounted, hOver⟩
    obtain ⟨name, _, hRun⟩ := createTarget_passes hNone hPasses fuel
    refine ⟨fuel, { session with begun := none }, ?_⟩
    rw [hRun, createNamed_counted hCounted, if_pos hOver]
    rfl

/-- The condition under which creating a target is faithful and clean. -/
structure Untroubled (context : Context) (request : Request) (session : Session Database) : Prop where
  ready : Passes context request session → WithinLimit context request →
    PortListReady context request session
  limit : if 0 < context.maxHosts.toInt then ¬ TooMany context request
    else (Passes context request session ∧ OverLimit context request ↔ TooMany context request)

theorem three_iff_tooMany_iff (hNone : session.begun = none) :
    ((∃ fuel after, createTarget context fuel request session = .ok (.ok (3, after))) ↔
        TooMany context request) ↔
      if 0 < context.maxHosts.toInt then ¬ TooMany context request
      else (Passes context request session ∧ OverLimit context request ↔
        TooMany context request) := by
  rw [answers_three_iff hNone]
  split
  · rename_i hPos
    have hNot : ¬ (Passes context request session ∧ OverLimit context request) :=
      fun h => not_overLimit hPos h.2
    simp [hNot]
  · rfl

/-- Creating a target is faithful and clean if and only if the hosts are not too many, and, when
the command comes to the port list, it finds the list and a comment is given. -/
theorem createsCleanly_iff (hNone : session.begun = none) :
    CreatesCleanly context request session ↔ Untroubled context request session := by
  constructor
  · intro h
    refine ⟨fun hPasses hWithin => ?_, (three_iff_tooMany_iff hNone).mp h.too_many⟩
    by_contra hReady
    obtain ⟨fuel, clean, left, hCounted, hLimit⟩ := hWithin
    obtain ⟨name, _, hRun⟩ := createTarget_passes hNone hPasses fuel
    rw [createNamed_counted hCounted, if_neg (Int.not_lt.mpr hLimit)] at hRun
    rcases createWithHosts_unready hReady name clean (aliveTestFromString request.aliveTests) with
      hArguments | hSix
    · exact h.arguments_fit fuel (hRun.trans hArguments)
    · have hBegun := (h.refused fuel 6 _ (hRun.trans hSix) (by decide)).1
      cases hBegun
  · rintro ⟨hReady, hLimit⟩
    have hEnds := @createTarget_ends context request session hNone
    exact {
      arguments_fit := fun fuel => (hEnds fuel).arguments_fit hReady
      created := by
        intro fuel after hRun
        rcases (hEnds fuel).answered hReady hRun with ⟨_, hRow⟩ | ⟨hCode, _⟩
        · exact hRow
        · exact absurd rfl hCode
      refused := by
        intro fuel code after hRun hCode
        rcases (hEnds fuel).answered hReady hRun with ⟨hZero, _⟩ | ⟨_, hClosed⟩
        · exact absurd hZero hCode
        · exact hClosed
      too_many := (three_iff_tooMany_iff hNone).mpr hLimit
    }

end Stages

/-! A database with one port list. -/

/-- The port list `lists`, which everybody has, and no targets. -/
def onePortList : Database where
  manager := { emptyDatabase with
    portLists := ⟨[(1, ⟨lit "lists", none, lit "All", [], 0, 0⟩)], by decide⟩ }
  targets := Table.empty

def limitedTo (maxHosts : Int32) : Context where
  env := anyone
  names := ⟨fun _ => none, fun _ => none, fun _ => none⟩
  credentialsUuid := lit "user"
  uuid_plain := by decide
  maxHosts := maxHosts

/-- A request for a target of the hosts, with a comment and the port list. -/
def requestFor (hosts : CString) : Request where
  name := lit "Target"
  hosts := some hosts
  excludeHosts := none
  comment := some (lit "A comment")
  portListId := some (lit "lists")
  portRange := none
  sshLscCredential := 0
  sshPort := none
  smbLscCredential := 0
  reverseLookupOnly := none
  reverseLookupUnify := none
  aliveTests := none
  makeNameUnique := false

theorem createsCleanly_one_host :
    CreatesCleanly (limitedTo 4095) (requestFor (lit "192.168.1.1")) ⟨onePortList, none, 0⟩ := by
  refine (createsCleanly_iff rfl).mpr ⟨fun _ _ => ⟨by decide, by decide⟩, ?_⟩
  rw [if_pos (by decide)]
  rintro ⟨fuel, hosts, hNew, hMany⟩
  have hElements : hostElements (lit "192.168.1.1") = [lit "192.168.1.1"] := by decide +kernel
  have hType : determineHostType (lit "192.168.1.1") = some .ipv4 := by decide +kernel
  obtain ⟨_, hHosts⟩ := openvasHostsNew_hosts hNew
  rw [hElements] at hHosts
  have hLength : hosts.hosts.length = 1 := by
    rw [hHosts]
    simp [distinctHosts, elementHosts, addElement, hType, OpenvasHosts.prepend, OpenvasHosts.empty,
      unify]
  rw [hLength] at hMany
  exact absurd hMany (by decide)

/-- Two hosts where one is allowed are not told to be too many. -/
theorem createTarget_hides_too_many :
    ¬ ∀ context request session, session.begun = none → CreatesCleanly context request session := by
  intro h
  have hClean := h (limitedTo 1) (requestFor (lit "192.168.1.1,192.168.1.2")) ⟨onePortList, none, 0⟩ rfl
  have hNew : openvasHostsNew 1 (some (lit "192.168.1.1,192.168.1.2")) = .ok (some
      { hosts := [.ipv4 0xc0a80101, .ipv4 0xc0a80102]
        current := [.ipv4 0xc0a80101, .ipv4 0xc0a80102]
        count := 2
        removed := 0 }) := by decide +kernel
  have hThree := hClean.too_many.mpr ⟨1, _, hNew, by decide⟩
  exact not_overLimit (by decide) ((answers_three_iff rfl).mp hThree).2

end Targets
