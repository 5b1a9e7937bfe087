import OpenVAS.Lib.Files
import OpenVAS.ReportFormats.Basic

/-! `create_report_format` with all that it changes: the tables in a transaction, the directory of
the format, and the link to the signature of another format. The steps of the system calls can
fail at any time. -/
namespace ReportFormats.OnDisk

open CString Files

/-- `is_uuid` of `omp.c`. -/
def isUuid (uuid : CString) : Bool := uuid.all fun c => isxdigit c || c = ch '-'

/-- The IDs that `omp.c` lets through. -/
abbrev Uuid := {uuid : CString // uuid ≠ [] ∧ isUuid uuid = true}

/-- A file of a request, with any name, and with its content in base64. -/
structure File where
  name : CString
  content : CString
  deriving DecidableEq

/-- A param of a request, with its array of options if there is one. -/
structure Param where
  name : CString
  type : Option CString
  typeMin : Option CString
  typeMax : Option CString
  fallback : Option CString
  value : CString
  options : Option (List CString)
  deriving DecidableEq

structure Request where
  uuid : Uuid
  contentType : Option CString
  extension : Option CString
  global : Bool
  files : List File
  params : List Param
  signature : Option CString

/-- The part of the directories that is not in `OPENVAS_STATE_DIR`. -/
def globalReportFormats (dataDir : Place) : Place :=
  dataDir ++ [lit "openvasmd", lit "global_report_formats"]

def reportFormats (stateDir : Place) : Place := stateDir ++ [lit "openvasmd", lit "report_formats"]

def feedSignatures (stateDir : Place) : Place := stateDir ++ [lit "plugins", lit "report_formats"]

/-- The links to signatures in the feed. -/
def privateSignatures (stateDir : Place) : Place :=
  stateDir ++ [lit "plugins", lit "private", lit "report_formats"]

/-- What the manager has around it, with the answers of the system calls that it makes. -/
structure Host where
  base64Decode : CString → List UInt8
  findSignature : CString → Option (CString × Option CString)
  verifySignature : CString → CString → Option Trust
  /-- What `uuid_actual` holds when nothing was stored there. -/
  uninitialised : Option CString
  userMay : Bool
  /-- `current_credentials.uuid`. -/
  user : Uuid
  openvasUuidMake : Option Uuid
  dataDir : Place
  stateDir : Place
  apart : ¬ globalReportFormats dataDir <+: privateSignatures stateDir
  realpath : Place → Option CString
  symlinks : Bool
  /-- What stays of an old directory of the format. -/
  left : List Place
  mkdirRefuses : Place → Bool
  chmodsReportDir : Bool
  chmodsDir : Bool
  /-- Whether a file is written, and whether it can be made readable, by its number. -/
  writes : Nat → Bool
  chmods : Nat → Bool
  /-- What stays of the directory when it is removed after a failure. -/
  leftBehind : List Place

/-- The tables, without the directories. -/
structure Rows where
  formats : List FormatRow
  params : List ParamRow
  options : List OptionRow
  trash : List CString
  deriving DecidableEq

def Rows.tables (rows : Rows) : Tables :=
  ⟨rows.formats, rows.params, rows.options, rows.trash, fun _ => none⟩

def rowsOf (tables : Tables) : Rows :=
  ⟨tables.formats, tables.params, tables.options, tables.trash⟩

/-- What is done to files. -/
inductive Effect where
  | linked (place : Place)
  | removed (place : Place)
  | created (place : Place)
  | wrote (place : Place)
  deriving DecidableEq

structure World where
  db : Rows
  /-- The rows in an open transaction. -/
  transaction : Option Rows
  tree : Tree
  effects : List Effect

/-- Before a request. -/
def World.start (db : Rows) (tree : Tree) : World := ⟨db, none, tree, []⟩

def World.begun (world : World) : World := { world with transaction := some world.db }

/-! The signature. -/

/-- The text of a param; a missing array of options is an error. -/
def paramText (param : Param) : Except Failure CString := do
  let min ← boundText llongMin param.typeMin
  let max ← boundText llongMax param.typeMax
  match param.options with
  | none => .error .error
  | some options =>
      return param.name ++ printed param.type ++ min ++ max ++ printed param.fallback ++
        options.flatten

def signedUuid (host : Host) (request : Request) : CString :=
  (if request.signature.isSome then host.uninitialised
    else (host.findSignature request.uuid.1).bind (·.2)).getD request.uuid.1

def sortFiles (files : List File) : List File :=
  files.insertionSort fun one two => compareNames one.name two.name

def signedText (host : Host) (request : Request) : Except Failure CString := do
  let params ← request.params.mapM paramText
  return headText (signedUuid host request) (printed request.extension)
    (printed request.contentType) request.global ++
    (sortFiles request.files).flatMap (fun file => file.name ++ file.content) ++
    params.flatten ++ lit "\n"

def givenSignature (host : Host) (request : Request) : Option CString :=
  request.signature.or ((host.findSignature request.uuid.1).map (·.1))

/-- The files as they are sorted for the check, and the trust. -/
def checkSignature (host : Host) (request : Request) : Except Failure (List File × Trust) :=
  match givenSignature host request with
  | none => .ok (request.files, .unknown)
  | some signature => do
      let text ← signedText host request
      match host.verifySignature text signature with
      | none => .error .error
      | some trust => return (sortFiles request.files, trust)

/-! The link to a signature. -/

def pathText (place : Place) : CString := place.flatMap (ch '/' :: ·)

/-- What a link to the signature of a format leads to. -/
def linkTarget (host : Host) (tree : Tree) (uuid : Uuid) : Option CString :=
  let old := feedSignatures host.stateDir ++ [uuid.1 ++ lit ".asc"]
  match host.realpath old with
  -- Signature exists in regular directory.
  | some real => some real
  | none =>
      match tree (privateSignatures host.stateDir ++ [uuid.1 ++ lit ".asc"]) with
      -- Signature may not exist in the feed yet.
      | none => some (pathText old)
      -- Use the path it links to.
      | some (.link target) => some target
      | some _ => none

def linkPlace (host : Host) (new : Uuid) : Place :=
  privateSignatures host.stateDir ++ [new.1 ++ lit ".asc"]

/-- `symlink`. -/
def symlink (host : Host) (target : CString) (place : Place) (world : World) : Option World :=
  if host.symlinks ∧ world.tree place.dropLast = some .directory ∧ world.tree place = none then
    some { world with
      tree := set world.tree place (.link target),
      effects := world.effects ++ [.linked place] }
  else none

/-- The UUID of the new format. A new one is made where the given one is used, with a link to the
signature. -/
def storedUuid (host : Host) (uuid : Uuid) (world : World) : Option (Uuid × World) :=
  if used world.db.tables uuid.1 then do
    let new ← host.openvasUuidMake
    let target ← linkTarget host world.tree uuid
    let world ← symlink host target (linkPlace host new) world
    return (new, world)
  else some (uuid, world)

/-! The directory. -/

/-- Where the directories of formats are, of all users or of the current one. -/
def reportDir (host : Host) (global : Bool) : Place :=
  if global then globalReportFormats host.dataDir
  else reportFormats host.stateDir ++ [host.user.1]

def openvasFileRemoveRecurse (left : List Place) (place : Place) (world : World) : Bool × World :=
  match world.tree place with
  | none => (false, world)
  | some _ =>
      (left.isEmpty, { world with
        tree := removeRecurse left place world.tree,
        effects := world.effects ++ [.removed place] })

def gMkdirWithParents (host : Host) (place : Place) (world : World) : Bool × World :=
  let (done, tree, made) := mkdirWithParents host.mkdirRefuses [] place world.tree
  (done, { world with tree := tree, effects := world.effects ++ made.map .created })

/-- Removes an old directory of the format and makes a new one. -/
def openDirectory (host : Host) (global : Bool) (dir : Place) (world : World) : Bool × World :=
  let (cleared, world) :=
    if (world.tree dir).isSome then openvasFileRemoveRecurse host.left dir world else (true, world)
  if !cleared then (false, world)
  else
    let (made, world) := gMkdirWithParents host dir world
    if !made then (false, world)
    else ((global || host.chmodsReportDir) && host.chmodsDir, world)

def fileBytes (host : Host) (file : File) : List UInt8 :=
  if file.content = [] then [] else host.base64Decode file.content

/-- Where a file with a name is written, if it is. -/
def landing (host : Host) (tree : Tree) (dir : Place) (number : Nat) (file : File) : Option Place :=
  if host.writes number then target tree dir (steps file.name) else none

/-- The loop over the files of a request. -/
def writeFiles (host : Host) (dir : Place) : Nat → List File → World → Option Failure × World
  | _, [], world => (none, world)
  | number, file :: files, world =>
      if file.name = [] then (some .emptyFileName, world)
      else
        match landing host world.tree dir number file with
        | none => (some .error, world)
        | some place =>
            let world := { world with
              tree := set world.tree place (.file (fileBytes host file)),
              effects := world.effects ++ [.wrote place] }
            if host.chmods number then writeFiles host dir (number + 1) files world
            else (some .error, world)

/-! The rows. -/

/-- The body of the loop over the params. The options come behind the other checks and before the
validations of the values. -/
def addParam (reportFormat : Nat) (tables : Tables) (param : Param) : Except Failure Tables :=
  let added := ReportFormats.addParam reportFormat tables
    ⟨param.name, param.type, param.typeMin, param.typeMax, param.fallback, param.value,
      param.options.getD []⟩
  match param.options, added with
  | some _, _ => added
  | none, .ok _ | none, .error .badValue | none, .error .badFallback => .error .error
  | none, .error failure => .error failure

def insertRows (host : Host) (request : Request) (uuid : Uuid) (trust : Trust) (db : Rows) :
    Except Failure Rows := do
  let owner := if request.global then none else some host.user.1
  let rowid := nextRowid (db.formats.map (·.rowid))
  let formats := db.formats ++ [⟨rowid, uuid.1, owner, request.extension.getD [],
    request.contentType.getD [], (givenSignature host request).getD [], trust⟩]
  let tables ← request.params.foldlM (addParam rowid) { db with formats := formats : Rows }.tables
  return rowsOf tables

/-! The command. -/

def refuse (failure : Failure) (world : World) : Option Failure × World :=
  (some failure, { world with transaction := none })

/-- The end after a failure behind the making of the directory. -/
def cleanUp (host : Host) (dir : Place) (failure : Failure) (world : World) :
    Option Failure × World :=
  refuse failure (openvasFileRemoveRecurse host.leftBehind dir world).2

/-- The part behind the making of the directory. -/
def fillDirectory (host : Host) (request : Request) (files : List File) (trust : Trust)
    (uuid : Uuid) (dir : Place) (world : World) : Option Failure × World :=
  match writeFiles host dir 0 files world with
  | (some failure, world) => cleanUp host dir failure world
  | (none, world) =>
      match insertRows host request uuid trust world.db with
      | .error failure => cleanUp host dir failure world
      | .ok rows => (none, { world with db := rows, transaction := none })

/-- The part from the old directory on. -/
def storeFormat (host : Host) (request : Request) (files : List File) (trust : Trust) (uuid : Uuid)
    (world : World) : Option Failure × World :=
  let dir := reportDir host request.global ++ [uuid.1]
  match openDirectory host request.global dir world with
  | (false, world) => refuse .error world
  | (true, world) => fillDirectory host request files trust uuid dir world

/-- The failure, if there is one. -/
def createReportFormat (host : Host) (request : Request) (world : World) :
    Option Failure × World :=
  match checkSignature host request with
  | .error failure => (some failure, world)
  | .ok (files, trust) =>
      if !host.userMay then refuse .denied world.begun
      else
        match storedUuid host request.uuid world.begun with
        | none => refuse .error world.begun
        | some (uuid, world) => storeFormat host request files trust uuid world

/-! An installation. -/

/-- The UUID in the requests below. -/
def givenUuid : Uuid := ⟨lit "3c", by decide⟩

/-- A manager whose system calls all succeed. -/
def manager : Host where
  base64Decode := fun _ => []
  findSignature := fun _ => none
  verifySignature := fun _ _ => none
  uninitialised := none
  userMay := true
  user := ⟨lit "1a", by decide⟩
  openvasUuidMake := some ⟨lit "2b", by decide⟩
  dataDir := [lit "share", lit "openvas"]
  stateDir := [lit "lib", lit "openvas"]
  apart := by decide
  realpath := fun _ => none
  symlinks := true
  left := []
  mkdirRefuses := fun _ => false
  chmodsReportDir := true
  chmodsDir := true
  writes := fun _ => true
  chmods := fun _ => true
  leftBehind := []

/-- The directories of an installation. -/
def installed : Tree := fun place =>
  if place <+: reportFormats [lit "lib", lit "openvas"] ∨
    place <+: privateSignatures [lit "lib", lit "openvas"] then some .directory else none

def noRows : Rows := ⟨[], [], [], []⟩

end ReportFormats.OnDisk
