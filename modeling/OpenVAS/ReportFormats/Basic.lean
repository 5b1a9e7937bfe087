import Mathlib.Data.List.Sort
import OpenVAS.Lib.CString

/-! Report formats: `create_report_format` checks a signature of the uploaded format
and stores the format in the database and in a directory,
`verify_report_format_internal` builds the signed text again from there. -/
namespace ReportFormats

open CString

def llongMin : Int := -2 ^ 63

def llongMax : Int := 2 ^ 63 - 1

/-- The reasons of a rejection, with the answers of `create_report_format`. -/
inductive Failure where
  /-- -1 -/
  | error
  /-- 2 -/
  | emptyFileName
  /-- 3 -/
  | badValue
  /-- 4 -/
  | badFallback
  /-- 5 -/
  | noFallback
  /-- 6 -/
  | outOfRange
  /-- 7 -/
  | noType
  /-- 8 -/
  | duplicateParam
  /-- 9 -/
  | bogusType
  /-- 99 -/
  | denied
  deriving DecidableEq, Repr

inductive Trust where
  | no
  | yes
  | unknown
  deriving DecidableEq, Repr

inductive ParamType where
  | boolean
  | integer
  | selection
  | string
  | text
  | error
  deriving DecidableEq, Repr

def reportFormatParamTypeName : ParamType → CString
  | .boolean => lit "boolean"
  | .integer => lit "integer"
  | .selection => lit "selection"
  | .string => lit "string"
  | .text => lit "text"
  | .error => lit "ERROR"

def reportFormatParamTypeFromName (name : CString) : ParamType :=
  if name = lit "boolean" then .boolean
  else if name = lit "integer" then .integer
  else if name = lit "selection" then .selection
  else if name = lit "string" then .string
  else if name = lit "text" then .text
  else .error

/-- A file name of one path component. The equality of the texts of upload and verification is about
these; the requests of `OnDisk` have any file names. -/
abbrev FileName := { name : CString // 0 ∉ name ∧ ch '/' ∉ name }

/-- A file of a request, with its content in base64. -/
structure File where
  name : FileName
  content : CString
  deriving DecidableEq

/-- A param of a request and its options. -/
structure Param where
  name : CString
  type : Option CString
  typeMin : Option CString
  typeMax : Option CString
  fallback : Option CString
  value : CString
  options : List CString
  deriving DecidableEq

structure Request where
  uuid : CString
  contentType : Option CString
  extension : Option CString
  global : Bool
  files : List File
  params : List Param
  signature : Option CString
  deriving DecidableEq

/-- What the manager has around it. The feed has the signature of a format, and the
UUID it is made for where the format only links to it. -/
structure Env where
  base64Encode : List UInt8 → CString
  base64Decode : CString → List UInt8
  findSignature : CString → Option (CString × Option CString)
  verifySignature : CString → CString → Option Trust
  /-- What `uuid_actual` holds when nothing was stored there. -/
  uninitialised : Option CString
  userMay : Bool
  /-- `current_credentials.uuid`. -/
  user : CString
  openvasUuidMake : Option CString
  /-- Whether the signature in the feed can be linked to. -/
  links : Bool
  /-- The file names that the file system refuses. -/
  refuses : CString → Bool

/-- `global` is told by the owner, which is missing. -/
structure FormatRow where
  rowid : Nat
  uuid : CString
  owner : Option CString
  extension : CString
  contentType : CString
  signature : CString
  trust : Trust
  deriving DecidableEq

structure ParamRow where
  rowid : Nat
  reportFormat : Nat
  name : CString
  type : ParamType
  value : CString
  typeMin : Int
  typeMax : Int
  typeRegex : CString
  fallback : CString
  deriving DecidableEq

structure OptionRow where
  reportFormatParam : Nat
  value : CString
  deriving DecidableEq

structure StoredFile where
  name : CString
  bytes : List UInt8
  deriving DecidableEq

/-- The tables, in the order of their row ids, and the directories, by the owner and
the UUID of their format. -/
structure Tables where
  formats : List FormatRow
  params : List ParamRow
  options : List OptionRow
  /-- `original_uuid` of the formats in the trashcan. -/
  trash : List CString
  dirs : Option CString × CString → Option (List StoredFile)

/-- The row id of an inserted row. -/
def nextRowid (rowids : List Nat) : Nat := rowids.foldr max 0 + 1

/-- The text that `%s` prints. -/
def printed (text : Option CString) : CString := text.getD (lit "(null)")

def headText (uuid extension contentType : CString) (global : Bool) : CString :=
  uuid ++ extension ++ contentType ++ (if global then lit "1" else lit "0")

/-- A bound of a param. The limit stands for a missing bound and may not be given. -/
def bound (limit : Int) : Option CString → Except Failure Int
  | none => .ok limit
  | some text => if strtollAuto text = limit then .error .outOfRange else .ok (strtollAuto text)

/-- The text of a bound, which is left out where it is missing. -/
def boundText (limit : Int) (text : Option CString) : Except Failure CString :=
  (bound limit text).map fun value => if text.isSome then showInt value else []

/-- The text of the params of a request. -/
def paramsText : List Param → Except Failure CString
  | [] => .ok []
  | param :: params => do
      let min ← boundText llongMin param.typeMin
      let max ← boundText llongMax param.typeMax
      let rest ← paramsText params
      return param.name ++ printed param.type ++ min ++ max ++ printed param.fallback ++
        param.options.flatten ++ rest

/-- `compare_files`. -/
def compareFiles (one two : File) : Prop := strcmpLe one.name.1 two.name.1 = true

instance : DecidableRel compareFiles := fun _ _ => inferInstanceAs (Decidable (_ = true))

def sortFiles (files : List File) : List File := files.insertionSort compareFiles

def filesText (files : List File) : CString :=
  files.flatMap fun file => file.name.1 ++ file.content

def uploadUuid (env : Env) (request : Request) : CString :=
  (if request.signature.isSome then env.uninitialised
    else (env.findSignature request.uuid).bind (·.2)).getD request.uuid

/-- The text whose signature is checked at the upload. -/
def uploadText (env : Env) (request : Request) : Except Failure CString := do
  let params ← paramsText request.params
  return headText (uploadUuid env request) (printed request.extension)
    (printed request.contentType) request.global ++
    filesText (sortFiles request.files) ++ params ++ lit "\n"

def uploadSignature (env : Env) (request : Request) : Option CString :=
  request.signature.or ((env.findSignature request.uuid).map (·.1))

/-- The files as they are sorted for the check, and the trust. -/
def checkSignature (env : Env) (request : Request) : Except Failure (List File × Trust) :=
  match uploadSignature env request with
  | none => .ok (request.files, .unknown)
  | some signature => do
      let text ← uploadText env request
      match env.verifySignature text signature with
      | none => .error .error
      | some trust => return (sortFiles request.files, trust)

/-- Whether a format has the UUID. -/
def used (tables : Tables) (uuid : CString) : Bool :=
  tables.formats.any (·.uuid = uuid) || tables.trash.any (· = uuid)

/-- The UUID of the new format: a new one where the given one is used. -/
def storedUuid (env : Env) (tables : Tables) (uuid : CString) : Except Failure CString :=
  if used tables uuid then
    match env.openvasUuidMake with
    | none => .error .error
    | some new => if env.links then .ok new else .error .error
  else .ok uuid

/-- `g_file_set_contents` in the directory of the format. -/
def setContents (env : Env) (dir : List StoredFile) (name : CString) (bytes : List UInt8) :
    Except Failure (List StoredFile) :=
  if name = lit "." ∨ name = lit ".." ∨ env.refuses name then .error .error
  else if dir.any (·.name = name) then
    .ok (dir.map fun file => if file.name = name then ⟨name, bytes⟩ else file)
  else .ok (dir ++ [⟨name, bytes⟩])

/-- The loop over the files of a request. -/
def writeFiles (env : Env) : List StoredFile → List File → Except Failure (List StoredFile)
  | dir, [] => .ok dir
  | dir, file :: files => do
      if file.name.1 = [] then .error .emptyFileName
      else
        let bytes := if file.content = [] then [] else env.base64Decode file.content
        writeFiles env (← setContents env dir file.name.1 bytes) files

/-- The options of a param, as `init_param_option_iterator` reads them. -/
def optionsOf (tables : Tables) (param : Nat) : List CString :=
  (tables.options.filter (·.reportFormatParam = param)).map (·.value)

/-- Whether `validate_param_value` returns 0. -/
def validateParamValue (tables : Tables) (reportFormat param : Nat) (name value : CString) : Bool :=
  match tables.params.find? fun row => row.reportFormat = reportFormat ∧ row.name = name with
  | none => true
  | some row =>
      match row.type with
      | .integer => row.typeMin ≤ strtollAuto value && strtollAuto value ≤ row.typeMax
      | .selection => (optionsOf tables param).any (· = value)
      | .string | .text => row.typeMin ≤ value.length && value.length ≤ row.typeMax
      | .boolean | .error => true

/-- Inserts a param and its options. -/
def insertParam (tables : Tables) (reportFormat : Nat) (param : Param) (type : ParamType)
    (min max : Int) (fallback : CString) : Tables :=
  let rowid := nextRowid (tables.params.map (·.rowid))
  { tables with
    params := tables.params ++
      [⟨rowid, reportFormat, param.name, type, param.value, min, max, [], fallback⟩],
    options := tables.options ++ param.options.map (⟨rowid, ·⟩) }

/-- The body of the loop over the params of a request. -/
def addParam (reportFormat : Nat) (tables : Tables) (param : Param) : Except Failure Tables :=
  match param.type with
  | none => .error .noType
  | some type => do
      if reportFormatParamTypeFromName type = .error then .error .bogusType
      else
        let min ← bound llongMin param.typeMin
        let max ← bound llongMax param.typeMax
        match param.fallback with
        | none => .error .noFallback
        | some fallback =>
            if tables.params.any fun row =>
              row.name = param.name ∧ row.reportFormat = reportFormat then .error .duplicateParam
            else
              let added := insertParam tables reportFormat param
                (reportFormatParamTypeFromName type) min max fallback
              let rowid := nextRowid (tables.params.map (·.rowid))
              if !validateParamValue added reportFormat rowid param.name param.value then
                .error .badValue
              else if !validateParamValue added reportFormat rowid param.name fallback then
                .error .badFallback
              else .ok added

/-- The tables with a new format without params, and its row id. -/
def insertFormat (env : Env) (tables : Tables) (request : Request) (uuid : CString) (trust : Trust)
    (dir : List StoredFile) : Tables × Nat :=
  let owner := if request.global then none else some env.user
  let rowid := nextRowid (tables.formats.map (·.rowid))
  ({ tables with
    formats := tables.formats ++ [⟨rowid, uuid, owner, request.extension.getD [],
      request.contentType.getD [], (uploadSignature env request).getD [], trust⟩],
    dirs := Function.update tables.dirs (owner, uuid) (some dir) }, rowid)

/-- A rejected request leaves the tables as they are. -/
def createReportFormat (env : Env) (tables : Tables) (request : Request) :
    Except Failure (Tables × Nat) := do
  let (files, trust) ← checkSignature env request
  if !env.userMay then .error .denied
  else
    let uuid ← storedUuid env tables request.uuid
    let dir ← writeFiles env [] files
    let (inserted, rowid) := insertFormat env tables request uuid trust dir
    return (← request.params.foldlM (addParam rowid) inserted, rowid)

/-- The rows go with the row they belong to. Without `ultimate` the format is kept in
the trashcan. -/
def deleteReportFormat (tables : Tables) (reportFormat : Nat) (ultimate : Bool) : Tables :=
  let gone := tables.params.filter (·.reportFormat = reportFormat)
  let format := tables.formats.find? (·.rowid = reportFormat)
  { formats := tables.formats.filter (·.rowid ≠ reportFormat),
    options := tables.options.filter fun option =>
      ¬ gone.any (·.rowid = option.reportFormatParam),
    params := tables.params.filter (·.reportFormat ≠ reportFormat),
    trash := if ultimate then tables.trash else tables.trash ++ (format.map (·.uuid)).toList,
    dirs := match format with
      | none => tables.dirs
      | some format => Function.update tables.dirs (format.owner, format.uuid) none }

def backupFileName (name : CString) : Bool :=
  name.getLast? = some (ch '~') ||
    (3 < name.length && [lit ".bak", lit ".BAK", lit ".CKP"].any (· = name.drop (name.length - 4)))

def compareNames (one two : CString) : Prop := strcmpLe one two = true

instance : DecidableRel compareNames := fun _ _ => inferInstanceAs (Decidable (_ = true))

/-- The names in a directory, without the backups. -/
def getReportFormatFiles (dir : List StoredFile) : List CString :=
  ((lit "." :: lit ".." :: dir.map (·.name)).insertionSort compareNames).filter fun name =>
    name ≠ lit "." && name ≠ lit ".." && !backupFileName name

/-- The content of a file in base64. -/
def fileIteratorContent64 (env : Env) (dir : List StoredFile) (name : CString) : Option CString :=
  (dir.find? (·.name = name)).map fun file =>
    if file.bytes = [] then [] else env.base64Encode file.bytes

def storedFilesText (env : Env) (dir : List StoredFile) : CString :=
  (getReportFormatFiles dir).flatMap fun name =>
    name ++ printed (fileIteratorContent64 env dir name)

def paramRowText (tables : Tables) (row : ParamRow) : CString :=
  row.name ++ reportFormatParamTypeName row.type ++
    (if llongMin < row.typeMin then showInt row.typeMin else []) ++
    (if row.typeMax < llongMax then showInt row.typeMax else []) ++
    row.typeRegex ++ row.fallback ++ (optionsOf tables row.rowid).flatten

def paramRowsText (tables : Tables) (reportFormat : Nat) : CString :=
  (tables.params.filter (·.reportFormat = reportFormat)).flatMap (paramRowText tables)

def verifyUuid (env : Env) (uuid : CString) : CString :=
  ((env.findSignature uuid).bind (·.2)).getD uuid

/-- The text that is built for the verification. -/
def verifyText (env : Env) (tables : Tables) (reportFormat : Nat) : Option CString := do
  let row ← tables.formats.find? (·.rowid = reportFormat)
  let dir ← tables.dirs (row.owner, row.uuid)
  return headText (verifyUuid env row.uuid) row.extension row.contentType row.owner.isNone ++
    storedFilesText env dir ++ paramRowsText tables reportFormat ++ lit "\n"

/-- The signature of the feed comes first. -/
def verifySignatureOf (env : Env) (row : FormatRow) : Option CString :=
  ((env.findSignature row.uuid).map (·.1)).or
    (if row.signature = [] then none else some row.signature)

/-- The trust that a verification finds. -/
def verifyReportFormatInternal (env : Env) (tables : Tables) (reportFormat : Nat) :
    Option Trust := do
  let row ← tables.formats.find? (·.rowid = reportFormat)
  match verifySignatureOf env row with
  | none => return .unknown
  | some signature => env.verifySignature (← verifyText env tables reportFormat) signature

end ReportFormats
