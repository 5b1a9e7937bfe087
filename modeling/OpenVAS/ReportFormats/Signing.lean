import Mathlib.Logic.Equiv.Basic
import OpenVAS.ReportFormats.Storage

/-! The text of the upload and the text of a later verification: they differ in the
backup files and in the values that the request leaves out. -/
namespace ReportFormats

open CString

/-- What an accepted request leaves in the tables. -/
structure Stored (env : Env) (tables : Tables) (request : Request) (tables' : Tables)
    (rowid : Nat) : Prop where
  consistent : tables'.Consistent
  row : ∃ uuid trust dir files, storedUuid env tables request.uuid = .ok uuid ∧
    checkSignature env request = .ok (files, trust) ∧ writeFiles env [] files = .ok dir ∧
    tables'.formats.find? (·.rowid = rowid) = some ⟨rowid, uuid,
      if request.global then none else some env.user, request.extension.getD [],
      request.contentType.getD [], (uploadSignature env request).getD [], trust⟩ ∧
    tables'.dirs (if request.global then none else some env.user, uuid) = some dir
  params : paramsText request.params = .ok (paramRowsText tables' rowid)

theorem insertFormat_consistent {tables : Tables} (h : tables.Consistent) (env : Env)
    (request : Request) (uuid : CString) (trust : Trust) (dir : List StoredFile) :
    (insertFormat env tables request uuid trust dir).1.Consistent where
  params := by
    intro row hRow
    change _ ∈ (tables.formats ++ _).map (·.rowid)
    rw [List.map_append]
    exact List.mem_append_left _ (h.params row hRow)
  options := h.options

/-- A new format has no params. -/
theorem paramRowsText_insertFormat {tables : Tables} (h : tables.Consistent) (env : Env)
    (request : Request) (uuid : CString) (trust : Trust) (dir : List StoredFile) :
    paramRowsText (insertFormat env tables request uuid trust dir).1
      (nextRowid (tables.formats.map (·.rowid))) = [] := by
  have hNone : tables.params.filter
      (·.reportFormat = nextRowid (tables.formats.map (·.rowid))) = [] := by
    apply List.filter_eq_nil_iff.mpr
    intro row hRow
    simp only [decide_eq_true_eq]
    intro hEq
    exact nextRowid_not_mem _ (hEq ▸ h.params row hRow)
  change (tables.params.filter _).flatMap _ = _
  rw [hNone]
  rfl

theorem find_insertFormat (tables : Tables) (env : Env) (request : Request) (uuid : CString)
    (trust : Trust) (dir : List StoredFile) :
    (insertFormat env tables request uuid trust dir).1.formats.find?
      (·.rowid = nextRowid (tables.formats.map (·.rowid))) =
      some ⟨nextRowid (tables.formats.map (·.rowid)), uuid,
        if request.global then none else some env.user, request.extension.getD [],
        request.contentType.getD [], (uploadSignature env request).getD [], trust⟩ := by
  have hOld : tables.formats.find? (·.rowid = nextRowid (tables.formats.map (·.rowid))) = none := by
    apply List.find?_eq_none.mpr
    intro row hRow
    simp only [decide_eq_true_eq]
    intro hEq
    have hMem : row.rowid ∈ tables.formats.map (·.rowid) := List.mem_map_of_mem hRow
    exact nextRowid_not_mem _ (hEq ▸ hMem)
  change (tables.formats ++ _).find? _ = _
  rw [List.find?_append, hOld, List.find?_cons_of_pos (by simp)]
  rfl

theorem createReportFormat_stored {env : Env} {tables tables' : Tables} {request : Request}
    {rowid : Nat} (h : tables.Consistent)
    (hCreate : createReportFormat env tables request = .ok (tables', rowid)) :
    Stored env tables request tables' rowid := by
  obtain ⟨⟨files, trust⟩, hCheck, hCreate⟩ := Except.bind_eq_ok.mp hCreate
  dsimp only at hCreate
  split at hCreate
  · cases hCreate
  obtain ⟨uuid, hUuid, hCreate⟩ := Except.bind_eq_ok.mp hCreate
  obtain ⟨dir, hWrite, hCreate⟩ := Except.bind_eq_ok.mp hCreate
  obtain ⟨added, hAdd, hCreate⟩ := Except.bind_eq_ok.mp hCreate
  obtain ⟨rfl, rfl⟩ := Prod.mk.inj (Except.ok.inj hCreate)
  have hMem : (insertFormat env tables request uuid trust dir).2 ∈
      (insertFormat env tables request uuid trust dir).1.formats.map (·.rowid) := by
    change _ ∈ (tables.formats ++ _).map (·.rowid)
    rw [List.map_append]
    exact List.mem_append_right _ (List.mem_singleton_self _)
  obtain ⟨hKept, hFormats, hDirs, text, hText, hRows⟩ :=
    foldlM_addParam (insertFormat_consistent h ..) hMem hAdd
  refine ⟨hKept, ⟨uuid, trust, dir, files, hUuid, hCheck, hWrite, ?_, ?_⟩, ?_⟩
  · rw [hFormats]
    exact find_insertFormat ..
  · rw [hDirs]
    exact Function.update_self ..
  · rw [hText, hRows]
    have hNone := paramRowsText_insertFormat h env request uuid trust dir
    exact congrArg Except.ok (congrArg (· ++ text) hNone).symm

/-- What users do with report formats. -/
inductive Command where
  | create (env : Env) (request : Request)
  | delete (reportFormat : Nat) (ultimate : Bool)

/-- A rejected request leaves the tables as they are. -/
def Command.run (tables : Tables) : Command → Tables
  | .create env request =>
      match createReportFormat env tables request with
      | .ok (created, _) => created
      | .error _ => tables
  | .delete reportFormat ultimate => deleteReportFormat tables reportFormat ultimate

theorem Command.run_consistent {tables : Tables} (h : tables.Consistent) (command : Command) :
    (command.run tables).Consistent := by
  cases command with
  | create env request =>
      simp only [Command.run]
      split
      · rename_i hCreate
        exact (createReportFormat_stored h hCreate).consistent
      · exact h
  | delete reportFormat ultimate => exact deleteReportFormat_consistent h reportFormat ultimate

/-- Creations and deletions leave no param without its format and no option without its param. -/
theorem consistent_foldl_run {tables : Tables} (h : tables.Consistent) (commands : List Command) :
    (commands.foldl Command.run tables).Consistent := by
  induction commands generalizing tables with
  | nil => exact h
  | cons command commands ih => exact ih (command.run_consistent h)

theorem checkSignature_perm {env : Env} {request : Request} {files : List File} {trust : Trust}
    (h : checkSignature env request = .ok (files, trust)) : files.Perm request.files := by
  rw [checkSignature] at h
  split at h
  · obtain ⟨rfl, -⟩ := Prod.mk.inj (Except.ok.inj h)
    exact List.Perm.refl _
  · obtain ⟨text, -, h⟩ := Except.bind_eq_ok.mp h
    split at h
    · cases h
    · obtain ⟨rfl, -⟩ := Prod.mk.inj (Except.ok.inj h)
      exact List.perm_insertionSort ..

/-- The base64 text of some bytes, or no text. -/
def Canonical (env : Env) (content : CString) : Prop :=
  content = [] ∨ ∃ bytes, bytes ≠ [] ∧ content = env.base64Encode bytes

theorem find_of_nodup {files : List File} (hNodup : (files.map (·.name.1)).Nodup) {file : File}
    (hFile : file ∈ files) : files.find? (·.name.1 = file.name.1) = some file := by
  induction files with
  | nil => simp at hFile
  | cons other files ih =>
      obtain ⟨hNew, hNodup⟩ := List.nodup_cons.mp hNodup
      rcases List.mem_cons.mp hFile with rfl | hFile
      · exact List.find?_cons_of_pos (decide_eq_true rfl)
      · have hOther : ¬ other.name.1 = file.name.1 :=
          fun hEq => hNew (List.mem_map.mpr ⟨file, hFile, hEq.symm⟩)
        rw [List.find?_cons_of_neg (by simpa using hOther)]
        exact ih hNodup hFile

/-- A stored file is read as it was sent. -/
theorem fileIteratorContent64_stored {env : Env}
    (hBase64 : ∀ bytes, env.base64Decode (env.base64Encode bytes) = bytes) {files : List File}
    (hNodup : (files.map (·.name.1)).Nodup) {file : File} (hFile : file ∈ files)
    (hContent : Canonical env file.content) :
    fileIteratorContent64 env (files.map (·.stored env)) file.name.1 = some file.content := by
  have hFind : (files.map (·.stored env)).find? (·.name = file.name.1) =
      some (file.stored env) := by
    rw [List.find?_map]
    exact congrArg (Option.map _) (find_of_nodup hNodup hFile)
  rw [fileIteratorContent64, hFind, Option.map_some, File.stored]
  by_cases hNil : file.content = []
  · rw [hNil]
    rfl
  · obtain ⟨bytes, hBytes, hEncoded⟩ := hContent.resolve_left hNil
    have hDecoded : env.base64Decode file.content = bytes := by rw [hEncoded, hBase64]
    simp only [if_neg hNil, hDecoded, if_neg hBytes]
    rw [hEncoded]

/-- The files that are no backups, in the order of the upload. -/
def kept (request : Request) : List File :=
  (sortFiles request.files).filter fun file => !backupFileName file.name.1

theorem storedFilesText_eq {env : Env}
    (hBase64 : ∀ bytes, env.base64Decode (env.base64Encode bytes) = bytes) {request : Request}
    (hNodup : (request.files.map (·.name.1)).Nodup)
    (hContent : ∀ file ∈ request.files, Canonical env file.content) {files : List File}
    (hPerm : files.Perm request.files) {dir : List StoredFile}
    (hWrite : writeFiles env [] files = .ok dir) :
    storedFilesText env dir = filesText (kept request) := by
  have hNodup' : (files.map (·.name.1)).Nodup := (hPerm.map _).nodup_iff.mpr hNodup
  obtain ⟨rfl, hDots⟩ := @writeFiles_ok env files [] dir hNodup' hWrite
  have hDir : ((files.map (·.stored env)).map (·.name)).Perm
      (request.files.map (·.name.1)) := by
    rw [List.map_map]
    exact hPerm.map _
  have hNames := getReportFormatFiles_eq hDir fun file hFile =>
    hDots file (hPerm.mem_iff.mpr hFile)
  rw [List.nil_append, storedFilesText, hNames, List.flatMap_map, filesText, kept]
  apply List.flatMap_congr
  intro file hFile
  have hSent : file ∈ request.files :=
    (List.mem_insertionSort compareFiles).mp (List.mem_of_mem_filter hFile)
  rw [fileIteratorContent64_stored hBase64 hNodup' (hPerm.mem_iff.mpr hSent) (hContent file hSent)]
  rfl

/-- What the text of a request needs to be built again from the tables. -/
structure Complete (request : Request) : Prop where
  extension : request.extension ≠ none
  contentType : request.contentType ≠ none
  files : ∀ file ∈ request.files, backupFileName file.name.1 = false

theorem length_printed (text : Option CString) :
    (text.getD []).length ≤ (printed text).length ∧
      ((printed text).length ≤ (text.getD []).length → text ≠ none) := by
  cases text with
  | none => exact ⟨Nat.zero_le _, fun h => absurd h (by decide)⟩
  | some text => exact ⟨le_rfl, nofun⟩

theorem printed_of_ne_none {text : Option CString} (h : text ≠ none) : printed text = text.getD [] := by
  cases text with
  | none => exact absurd rfl h
  | some text => rfl

theorem name_ne_nil_of_backup {name : CString} (h : backupFileName name = true) : name ≠ [] := by
  rintro rfl
  cases h

/-- Without the backups the text of the files is shorter, unless there are none. -/
theorem length_filesText_filter (files : List File) :
    (filesText (files.filter fun file => !backupFileName file.name.1)).length ≤
        (filesText files).length ∧
      ((filesText files).length ≤
        (filesText (files.filter fun file => !backupFileName file.name.1)).length →
        ∀ file ∈ files, backupFileName file.name.1 = false) := by
  induction files with
  | nil => exact ⟨le_rfl, fun _ _ h => absurd h List.not_mem_nil⟩
  | cons file files ih =>
      obtain ⟨hLe, hNone⟩ := ih
      have hCons (rest : List File) : (filesText (file :: rest)).length =
          file.name.1.length + file.content.length + (filesText rest).length := by
        rw [filesText, List.flatMap_cons, List.length_append, List.length_append, filesText]
      cases hBackup : backupFileName file.name.1 with
      | false =>
          rw [List.filter_cons_of_pos (by simp [hBackup]), hCons, hCons]
          refine ⟨by omega, fun h other hOther => ?_⟩
          rcases List.mem_cons.mp hOther with rfl | hOther
          · exact hBackup
          · exact hNone (by omega) other hOther
      | true =>
          have hPos := List.length_pos_iff.mpr (name_ne_nil_of_backup hBackup)
          rw [List.filter_cons_of_neg (by simp [hBackup]), hCons]
          exact ⟨by omega, fun h => by omega⟩

theorem kept_eq_of_complete {request : Request} (h : Complete request) :
    kept request = sortFiles request.files := by
  apply List.filter_eq_self.mpr
  intro file hFile
  rw [h.files file ((List.mem_insertionSort compareFiles).mp hFile)]
  rfl

/-- The two texts, from the parts they have in common. -/
theorem texts_eq_iff (request : Request) (uuid params : CString) :
    headText uuid (printed request.extension) (printed request.contentType) request.global ++
        filesText (sortFiles request.files) ++ params ++ lit "\n" =
      headText uuid (request.extension.getD []) (request.contentType.getD []) request.global ++
        filesText (kept request) ++ params ++ lit "\n" ↔ Complete request := by
  constructor
  · intro h
    have hLength := congrArg List.length h
    have hExtension := length_printed request.extension
    have hContentType := length_printed request.contentType
    have hFiles := length_filesText_filter (sortFiles request.files)
    simp only [headText, List.length_append, kept] at hLength
    refine ⟨hExtension.2 (by omega), hContentType.2 (by omega), fun file hFile => ?_⟩
    exact hFiles.2 (by omega) file ((List.mem_insertionSort compareFiles).mpr hFile)
  · intro h
    rw [printed_of_ne_none h.extension, printed_of_ne_none h.contentType, kept_eq_of_complete h]

theorem storedUuid_of_unused {env : Env} {tables : Tables} {uuid : CString}
    (h : used tables uuid = false) : storedUuid env tables uuid = .ok uuid := by
  rw [storedUuid, h]
  rfl

/-- The signature that is checked later is the one of the upload, where the feed has no
other one. -/
theorem verifySignatureOf_stored {env : Env} (request : Request) {row : FormatRow}
    (hUuid : row.uuid = request.uuid)
    (hRow : row.signature = (uploadSignature env request).getD [])
    (hSame : ∀ signature, request.signature = some signature → signature ≠ [] ∧
      ∀ feed ∈ env.findSignature request.uuid, feed.1 = signature) :
    verifySignatureOf env row = uploadSignature env request := by
  rw [verifySignatureOf, hUuid, hRow, uploadSignature]
  cases hSent : request.signature with
  | none =>
      rw [Option.none_or]
      cases env.findSignature request.uuid with
      | none => rfl
      | some feed => rfl
  | some signature =>
      obtain ⟨hNonempty, hFeed⟩ := hSame signature hSent
      rw [Option.some_or]
      cases hFind : env.findSignature request.uuid with
      | none => exact if_neg hNonempty
      | some feed => exact congrArg some (hFeed feed hFind)

theorem checkSignature_trust {env : Env} {request : Request} {files : List File} {trust : Trust}
    (h : checkSignature env request = .ok (files, trust)) :
    (uploadSignature env request = none → trust = .unknown) ∧
      ∀ signature, uploadSignature env request = some signature →
        ∃ text, uploadText env request = .ok text ∧
          env.verifySignature text signature = some trust := by
  rw [checkSignature] at h
  split at h
  · rename_i hNone
    obtain ⟨-, rfl⟩ := Prod.mk.inj (Except.ok.inj h)
    exact ⟨fun _ => rfl, fun signature hSome => nomatch hNone.symm.trans hSome⟩
  · rename_i signature hSome
    obtain ⟨text, hText, h⟩ := Except.bind_eq_ok.mp h
    split at h
    · cases h
    · rename_i found hVerify
      obtain ⟨-, rfl⟩ := Prod.mk.inj (Except.ok.inj h)
      refine ⟨fun hNone => (nomatch hNone.symm.trans hSome), fun other hOther => ?_⟩
      obtain rfl := Option.some.inj (hSome.symm.trans hOther)
      exact ⟨text, hText, hVerify⟩

/-- The text of a verification is the text of the upload exactly for the requests
that name an extension and a content type and have no file with the name of a backup.
For these a verification finds the trust of the upload. -/
theorem verifyText_eq_uploadText_iff (env : Env)
    (hBase64 : ∀ bytes, env.base64Decode (env.base64Encode bytes) = bytes) (store : Store)
    (request : Request) (tables : Tables) (rowid : Nat)
    (hCreate : createReportFormat env store.1 request = .ok (tables, rowid))
    (hUnused : used store.1 request.uuid = false)
    (hUuid : uploadUuid env request = verifyUuid env request.uuid)
    (hNodup : (request.files.map (·.name.1)).Nodup)
    (hContent : ∀ file ∈ request.files, Canonical env file.content) :
    ((∃ text, uploadText env request = .ok text ∧ verifyText env tables rowid = some text) ↔
      Complete request) ∧
    (Complete request → (∀ signature, request.signature = some signature → signature ≠ [] ∧
        ∀ feed ∈ env.findSignature request.uuid, feed.1 = signature) →
      verifyReportFormatInternal env tables rowid =
        (tables.formats.find? (·.rowid = rowid)).map (·.trust)) := by
  obtain ⟨-, ⟨uuid, trust, dir, files, hStored, hCheck, hWrite, hRow, hDir⟩, hParams⟩ :=
    createReportFormat_stored store.2 hCreate
  obtain rfl : request.uuid = uuid :=
    Except.ok.inj ((storedUuid_of_unused hUnused).symm.trans hStored)
  have hFiles := storedFilesText_eq hBase64 hNodup hContent (checkSignature_perm hCheck) hWrite
  have hGlobal : (if request.global then none else some env.user : Option CString).isNone =
      request.global := by
    cases request.global with
    | false => rfl
    | true => rfl
  have hUpload : uploadText env request = .ok (headText (verifyUuid env request.uuid)
      (printed request.extension) (printed request.contentType) request.global ++
      filesText (sortFiles request.files) ++ paramRowsText tables rowid ++ lit "\n") := by
    rw [uploadText, hParams, hUuid]
    rfl
  have hVerify : verifyText env tables rowid = some (headText (verifyUuid env request.uuid)
      (request.extension.getD []) (request.contentType.getD []) request.global ++
      filesText (kept request) ++ paramRowsText tables rowid ++ lit "\n") := by
    simp only [verifyText, hRow, hDir, Option.bind_eq_bind, Option.bind_some, hFiles, hGlobal]
    rfl
  have hTexts : (∃ text, uploadText env request = .ok text ∧
      verifyText env tables rowid = some text) ↔ Complete request := by
    rw [← texts_eq_iff request (verifyUuid env request.uuid) (paramRowsText tables rowid)]
    constructor
    · rintro ⟨text, hOne, hTwo⟩
      exact (Except.ok.inj (hUpload.symm.trans hOne)).trans
        (Option.some.inj (hVerify.symm.trans hTwo)).symm
    · intro hEq
      exact ⟨_, hUpload, hEq ▸ hVerify⟩
  refine ⟨hTexts, fun hComplete hSame => ?_⟩
  obtain ⟨text, hText, hLater⟩ := hTexts.mpr hComplete
  obtain ⟨hNone, hSome⟩ := checkSignature_trust hCheck
  rw [hRow, verifyReportFormatInternal, hRow, Option.bind_eq_bind, Option.bind_some,
    verifySignatureOf_stored request rfl rfl hSame, hLater]
  cases hSignature : uploadSignature env request with
  | none =>
      rw [hNone hSignature]
      rfl
  | some signature =>
      obtain ⟨other, hOther, hTrust⟩ := hSome signature hSignature
      obtain rfl := Except.ok.inj (hText.symm.trans hOther)
      exact hTrust

/-- A request with the file `generate` of the byte `a` and a param with a minimum. -/
def sample : Request where
  uuid := lit "5057e5cc-b825-11e4-9d0e-28d24461215b"
  contentType := some (lit "text/xml")
  extension := some (lit "xml")
  global := false
  files := [⟨⟨lit "generate", by decide⟩, lit "YQ=="⟩]
  params := [⟨lit "Depth", some (lit "integer"), some (lit "1"), none, some (lit "5"), lit "7", []⟩]
  signature := some (lit "signature")

/-- The text whose signature is right in the sample. -/
def sampleText : CString :=
  lit "5057e5cc-b825-11e4-9d0e-28d24461215bxmltext/xml0generateYQ==Depthinteger15\n"

def sampleEnv : Env where
  base64Encode := Equiv.swap [ch 'a'] (lit "YQ==")
  base64Decode := Equiv.swap [ch 'a'] (lit "YQ==")
  findSignature := fun _ => none
  verifySignature := fun text _ => some (if text = sampleText then .yes else .no)
  uninitialised := none
  userMay := true
  user := lit "admin"
  openvasUuidMake := none
  links := false
  refuses := fun _ => false

def emptyStore : Store :=
  ⟨⟨[], [], [], [], fun _ => none⟩, List.forall_mem_nil _, List.forall_mem_nil _⟩

theorem sampleEnv_base64 (bytes : List UInt8) :
    sampleEnv.base64Decode (sampleEnv.base64Encode bytes) = bytes :=
  Equiv.swap_apply_self _ _ bytes

theorem sample_canonical : ∀ file ∈ sample.files, Canonical sampleEnv file.content := by
  intro file hFile
  obtain rfl := List.mem_singleton.mp hFile
  exact .inr ⟨[ch 'a'], by decide, by decide⟩

/-- The tables after the upload of a request to the empty store. -/
def afterUpload (request : Request) : Tables :=
  match createReportFormat sampleEnv emptyStore.1 request with
  | .ok (tables, _) => tables
  | .error _ => emptyStore.1

theorem verifyText_sample :
    (∃ text, uploadText sampleEnv sample = .ok text ∧
      verifyText sampleEnv (afterUpload sample) 1 = some text) ∧
    verifyReportFormatInternal sampleEnv (afterUpload sample) 1 = some .yes := by
  obtain ⟨hTexts, hTrust⟩ := verifyText_eq_uploadText_iff sampleEnv sampleEnv_base64 emptyStore
    sample (afterUpload sample) 1 rfl rfl rfl (by decide) sample_canonical
  have hComplete : Complete sample := ⟨nofun, nofun, by decide⟩
  refine ⟨hTexts.mpr hComplete, (hTrust hComplete ?_).trans (by decide)⟩
  intro signature hSignature
  obtain rfl := Option.some.inj hSignature
  exact ⟨by decide, nofun⟩

/-- The sample without an extension. -/
def noExtension : Request := { sample with extension := none }

/-- The sample with the file of an editor's backup. -/
def withBackup : Request :=
  { sample with files := ⟨⟨lit "generate~", by decide⟩, lit "YQ=="⟩ :: sample.files }

/-- A missing extension is `(null)` in the text of the upload and empty in the tables,
and a backup is stored but not read again. -/
theorem verifyText_ne_uploadText :
    (∃ text tables, createReportFormat sampleEnv emptyStore.1 noExtension = .ok (tables, 1) ∧
      used emptyStore.1 noExtension.uuid = false ∧
      uploadUuid sampleEnv noExtension = verifyUuid sampleEnv noExtension.uuid ∧
      uploadText sampleEnv noExtension = .ok text ∧ verifyText sampleEnv tables 1 ≠ some text) ∧
    ∃ text tables, createReportFormat sampleEnv emptyStore.1 withBackup = .ok (tables, 1) ∧
      (withBackup.files.map (·.name.1)).Nodup ∧
      used emptyStore.1 withBackup.uuid = false ∧
      uploadUuid sampleEnv withBackup = verifyUuid sampleEnv withBackup.uuid ∧
      uploadText sampleEnv withBackup = .ok text ∧ verifyText sampleEnv tables 1 ≠ some text :=
  ⟨⟨lit "5057e5cc-b825-11e4-9d0e-28d24461215b(null)text/xml0generateYQ==Depthinteger15\n",
      afterUpload noExtension, rfl, rfl, rfl, by decide, by decide⟩,
    lit "5057e5cc-b825-11e4-9d0e-28d24461215bxmltext/xml0generateYQ==generate~YQ==Depthinteger15\n",
      afterUpload withBackup, rfl, by decide, rfl, rfl, by decide, by decide⟩

end ReportFormats
