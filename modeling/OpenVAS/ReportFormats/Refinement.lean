import OpenVAS.Lib.Split
import OpenVAS.ReportFormats.Restoring
import OpenVAS.ReportFormats.Storage

/-! The creation with files and links does to tables and directories what the creation on tables
does, when the names of the files are plain. -/
namespace ReportFormats.OnDisk

open CString Files

def ofFile (file : ReportFormats.File) : File := ⟨file.name.1, file.content⟩

def ofParam (param : ReportFormats.Param) : Param :=
  ⟨param.name, param.type, param.typeMin, param.typeMax, param.fallback, param.value,
    some param.options⟩

/-- A request with plain file names and with all arrays of options, as it comes from the client. -/
def ofRequest (uuid : Uuid) (request : ReportFormats.Request) : Request where
  uuid := uuid
  contentType := request.contentType
  extension := request.extension
  global := request.global
  files := request.files.map ofFile
  params := request.params.map ofParam
  signature := request.signature

/-- What tables and directories see of a host on which nothing fails. -/
def envOf (host : Host) (base64Encode : List UInt8 → CString) : Env where
  base64Encode := base64Encode
  base64Decode := host.base64Decode
  findSignature := host.findSignature
  verifySignature := host.verifySignature
  uninitialised := host.uninitialised
  userMay := host.userMay
  user := host.user.1
  openvasUuidMake := host.openvasUuidMake.map (·.1)
  links := true
  refuses := fun _ => false

section Signatures

variable (host : Host) (base64Encode : List UInt8 → CString) {uuid : Uuid}
  {request : ReportFormats.Request}

theorem sortFiles_map (files : List ReportFormats.File) :
    sortFiles (files.map ofFile) = (ReportFormats.sortFiles files).map ofFile := by
  rw [sortFiles, ReportFormats.sortFiles]
  exact (List.map_insertionSort _ _ ofFile files fun _ _ _ _ => Iff.rfl).symm

theorem filesText_map (files : List ReportFormats.File) :
    (files.map ofFile).flatMap (fun file => file.name ++ file.content) = filesText files :=
  List.flatMap_map _ _ _

theorem paramsText_map (params : List ReportFormats.Param) :
    ((params.map ofParam).mapM paramText).map List.flatten = ReportFormats.paramsText params := by
  induction params with
  | nil => rfl
  | cons param params ih =>
      rw [List.map_cons, List.mapM_cons, ReportFormats.paramsText, ← ih, paramText]
      simp only [ofParam]
      cases boundText llongMin param.typeMin with
      | error failure => rfl
      | ok min =>
          cases boundText llongMax param.typeMax with
          | error failure => rfl
          | ok max =>
              cases (params.map ofParam).mapM paramText with
              | error failure => rfl
              | ok texts => rfl

theorem signedText_map (hUuid : request.uuid = uuid.1) :
    signedText host (ofRequest uuid request) = uploadText (envOf host base64Encode) request := by
  rw [signedText, uploadText, ← paramsText_map]
  have hSigned : signedUuid host (ofRequest uuid request) =
      uploadUuid (envOf host base64Encode) request := by
    rw [signedUuid, uploadUuid, hUuid]
    rfl
  rw [hSigned]
  simp only [ofRequest, sortFiles_map, filesText_map]
  cases (request.params.map ofParam).mapM paramText with
  | error failure => rfl
  | ok texts => rfl

theorem checkSignature_map (hUuid : request.uuid = uuid.1) :
    checkSignature host (ofRequest uuid request) =
      (ReportFormats.checkSignature (envOf host base64Encode) request).map
        fun checked => (checked.1.map ofFile, checked.2) := by
  have hGiven : givenSignature host (ofRequest uuid request) =
      uploadSignature (envOf host base64Encode) request := by
    rw [givenSignature, uploadSignature, hUuid]
    rfl
  rw [checkSignature, ReportFormats.checkSignature, hGiven,
    signedText_map host base64Encode hUuid]
  cases uploadSignature (envOf host base64Encode) request with
  | none => rfl
  | some signature =>
      cases hText : uploadText (envOf host base64Encode) request with
      | error failure => rfl
      | ok text =>
          have hSorted := sortFiles_map request.files
          cases hVerify : host.verifySignature text signature with
          | none => simp [bind, Except.bind, Except.map, envOf, hVerify]
          | some trust =>
              simp [bind, Except.bind, Except.map, pure, Except.pure, envOf, hVerify, ofRequest,
                hSorted]

end Signatures

section Tables

variable (reportFormat : Nat) (tables : Tables)
  (dirs : Option CString × CString → Option (List StoredFile))

theorem insertParam_dirs (param : ReportFormats.Param) (type : ParamType) (min max : Int)
    (fallback : CString) :
    insertParam { tables with dirs := dirs } reportFormat param type min max fallback =
      { insertParam tables reportFormat param type min max fallback with dirs := dirs } := rfl

theorem validateParamValue_dirs (param : Nat) (name value : CString) :
    validateParamValue { tables with dirs := dirs } reportFormat param name value =
      validateParamValue tables reportFormat param name value := rfl

/-- The params do not depend on the directories. -/
theorem addParam_dirs (param : ReportFormats.Param) :
    ReportFormats.addParam reportFormat { tables with dirs := dirs } param =
      (ReportFormats.addParam reportFormat tables param).map fun added =>
        { added with dirs := dirs } := by
  cases hType : param.type with
  | none => simp [ReportFormats.addParam, hType, Except.map]
  | some type =>
      cases hFallback : param.fallback with
      | none =>
          simp only [ReportFormats.addParam, hType, hFallback]
          split
          · rfl
          cases bound llongMin param.typeMin with
          | error failure => rfl
          | ok min => cases bound llongMax param.typeMax <;> rfl
      | some fallback =>
          simp only [ReportFormats.addParam, hType, hFallback, insertParam_dirs,
            validateParamValue_dirs]
          split
          · rfl
          cases bound llongMin param.typeMin with
          | error failure => rfl
          | ok min =>
              cases bound llongMax param.typeMax with
              | error failure => rfl
              | ok max =>
                  simp only [bind, Except.bind]
                  split
                  · rfl
                  by_cases hValue : validateParamValue
                      (insertParam tables reportFormat param (reportFormatParamTypeFromName type) min
                        max fallback) reportFormat (nextRowid (tables.params.map (·.rowid)))
                      param.name param.value = true
                  case neg => simp [hValue, Except.map]
                  by_cases hDefault : validateParamValue
                      (insertParam tables reportFormat param (reportFormatParamTypeFromName type) min
                        max fallback) reportFormat (nextRowid (tables.params.map (·.rowid)))
                      param.name fallback = true
                  case neg => simp [hValue, hDefault, Except.map]
                  case pos => simp [hValue, hDefault, Except.map]

theorem foldlM_addParam_dirs (params : List ReportFormats.Param) :
    params.foldlM (ReportFormats.addParam reportFormat) { tables with dirs := dirs } =
      (params.foldlM (ReportFormats.addParam reportFormat) tables).map fun added =>
        { added with dirs := dirs } := by
  induction params generalizing tables with
  | nil => rfl
  | cons param params ih =>
      rw [List.foldlM_cons, List.foldlM_cons, addParam_dirs]
      cases ReportFormats.addParam reportFormat tables param with
      | error failure => rfl
      | ok added => exact ih added

theorem insertRows_map (host : Host) (base64Encode : List UInt8 → CString) (uuid stored : Uuid)
    (request : ReportFormats.Request) (hUuid : request.uuid = uuid.1) (trust : Trust)
    (dir : List StoredFile) :
    insertRows host (ofRequest uuid request) stored trust (rowsOf tables) =
      (request.params.foldlM (ReportFormats.addParam (nextRowid (tables.formats.map (·.rowid))))
        (insertFormat (envOf host base64Encode) tables request stored.1 trust dir).1).map rowsOf := by
  have hGiven : givenSignature host (ofRequest uuid request) =
      uploadSignature (envOf host base64Encode) request := by
    rw [givenSignature, uploadSignature, hUuid]
    rfl
  set inserted := (insertFormat (envOf host base64Encode) tables request stored.1 trust dir).1
    with hInserted
  have hFold := foldlM_addParam_dirs (nextRowid (tables.formats.map (·.rowid))) inserted
    (fun _ => none) request.params
  rw [insertRows, hGiven]
  change ((request.params.map ofParam).foldlM (addParam (nextRowid (tables.formats.map (·.rowid))))
    { inserted with dirs := fun _ => none }).bind (fun added => .ok (rowsOf added)) = _
  have hAdd : (fun added param => addParam (nextRowid (tables.formats.map (·.rowid))) added
      (ofParam param)) = ReportFormats.addParam (nextRowid (tables.formats.map (·.rowid))) := rfl
  rw [List.foldlM_map, hAdd, hFold]
  cases request.params.foldlM (ReportFormats.addParam (nextRowid (tables.formats.map (·.rowid))))
    inserted with
  | error failure => rfl
  | ok added => rfl

theorem dirs_foldlM_addParam {params : List ReportFormats.Param} {added : Tables}
    (h : params.foldlM (ReportFormats.addParam reportFormat) tables = .ok added) :
    added.dirs = tables.dirs := by
  have hFold := foldlM_addParam_dirs reportFormat tables tables.dirs params
  rw [h] at hFold
  rw [Except.ok.inj hFold]

end Tables

/-! The directory. -/

section Directories

variable {host : Host} {tree T : Tree} {dir : Place} {number : Nat}

theorem steps_of_plain {name : CString} (h : ch '/' ∉ name) : steps name = [toStep name] := by
  have hSplit := Split.splitOn_append h []
  rw [List.append_nil] at hSplit
  rw [steps, hSplit]
  simp

/-- A plain name that can be written is the name of a file in the directory. -/
theorem landing_ofFile {file : ReportFormats.File} {place : Place}
    (h : landing host tree dir number (ofFile file) = some place) :
    place = dir ++ [file.name.1] ∧ file.name.1 ≠ lit "." ∧ file.name.1 ≠ lit ".." := by
  have hPlace := (landing_eq_some h).1
  rw [landing] at h
  split at h
  case isFalse => cases h
  rw [ofFile, steps_of_plain file.name.2.2] at hPlace
  rw [target, ofFile, steps_of_plain file.name.2.2] at h
  rw [toStep] at h hPlace
  split at h
  case h_2 => cases h
  rename_i name hLast
  split at hLast
  · cases hLast
  rename_i hStay
  split at hLast
  · cases hLast
  rename_i hUp
  rw [if_neg hStay, if_neg hUp] at hPlace
  exact ⟨hPlace, fun hDot => hStay (.inr hDot), hUp⟩

/-- The stored files are in the directory. -/
def Holds (tree : Tree) (dir : Place) (stored : List StoredFile) : Prop :=
  ∀ file ∈ stored, tree (dir ++ [file.name]) = some (.file file.bytes)

theorem holds_setContents {base64Encode : List UInt8 → CString} {stored : List StoredFile}
    (h : Holds T dir stored) {name : CString} (hDot : name ≠ lit ".") (hDots : name ≠ lit "..")
    (bytes : List UInt8) :
    ∃ stored', setContents (envOf host base64Encode) stored name bytes = .ok stored' ∧
      Holds (set T (dir ++ [name]) (.file bytes)) dir stored' := by
  have hOther : ∀ file ∈ stored, file.name ≠ name →
      set T (dir ++ [name]) (.file bytes) (dir ++ [file.name]) = some (.file file.bytes) := by
    intro file hFile hNe
    rw [set_of_ne (fun hSame => hNe (by simpa using hSame)), h file hFile]
  rw [setContents, if_neg (by simp [hDot, hDots, envOf])]
  split
  · refine ⟨_, rfl, fun file hFile => ?_⟩
    obtain ⟨old, hOld, rfl⟩ := List.mem_map.mp hFile
    split
    · exact set_self _
    · rename_i hNe
      exact hOther old hOld hNe
  · rename_i hNew
    refine ⟨_, rfl, fun file hFile => ?_⟩
    rcases List.mem_append.mp hFile with hOld | hLast
    · refine hOther file hOld fun hSame => hNew ?_
      exact List.any_eq_true.mpr ⟨file, hOld, decide_eq_true hSame⟩
    · rw [List.mem_singleton.mp hLast]
      exact set_self _

theorem holds_writeFiles {base64Encode : List UInt8 → CString} (files : List ReportFormats.File)
    {stored : List StoredFile} (h : Holds T dir stored)
    (hPass : AllPass host tree dir number (files.map ofFile)) :
    ∃ stored', ReportFormats.writeFiles (envOf host base64Encode) stored files = .ok stored' ∧
      Holds (put T (landings host tree dir number (files.map ofFile))) dir stored' := by
  induction files generalizing number stored T with
  | nil => exact ⟨stored, rfl, h⟩
  | cons file files ih =>
      obtain ⟨⟨hName, hSome, hChmod⟩, hRest⟩ := allPass_cons.mp hPass
      obtain ⟨place, hLanding⟩ := Option.isSome_iff_exists.mp hSome
      obtain ⟨rfl, hDot, hDots⟩ := landing_ofFile hLanding
      obtain ⟨next, hNext, hHolds⟩ := @holds_setContents host T dir base64Encode stored h
        file.name.1 hDot hDots (fileBytes host (ofFile file))
      obtain ⟨stored', hWrite, hStored⟩ := ih hHolds hRest
      refine ⟨stored', ?_, ?_⟩
      · have hPlain : ¬ file.name.1 = [] := hName
        rw [ReportFormats.writeFiles, if_neg hPlain]
        change (setContents (envOf host base64Encode) stored file.name.1
          (fileBytes host (ofFile file))).bind _ = _
        rw [hNext]
        exact hWrite
      · rw [List.map_cons, landings, if_neg hName, hLanding]
        simp only [hChmod, if_true]
        exact hStored

end Directories

/-! The command. -/

theorem storedUuid_ofRequest {host : Host} {base64Encode : List UInt8 → CString} {tables : Tables}
    {uuid new : Uuid} {world after : World} (hDb : world.db = rowsOf tables)
    (h : storedUuid host uuid world = some (new, after)) :
    ReportFormats.storedUuid (envOf host base64Encode) tables uuid.1 = .ok new.1 ∧
      after.db = world.db := by
  have hUsed : used world.db.tables uuid.1 = used tables uuid.1 := by
    rw [hDb]
    rfl
  rw [storedUuid, hUsed] at h
  rw [ReportFormats.storedUuid]
  split at h
  · rename_i hTrue
    obtain ⟨made, hMade, h⟩ := Option.bind_eq_some_iff.mp h
    obtain ⟨target, -, h⟩ := Option.bind_eq_some_iff.mp h
    obtain ⟨linked, hLink, h⟩ := Option.bind_eq_some_iff.mp h
    obtain ⟨rfl, rfl⟩ := Prod.mk.inj (Option.some_inj.mp h)
    rw [symlink] at hLink
    split at hLink
    · rw [if_pos hTrue, ← Option.some_inj.mp hLink]
      simp [envOf, hMade]
    · cases hLink
  · rename_i hFalse
    obtain ⟨rfl, rfl⟩ := Prod.mk.inj (Option.some_inj.mp h)
    rw [if_neg hFalse]
    exact ⟨rfl, rfl⟩

/-- The creation on tables, from its parts. -/
theorem createReportFormat_of_parts {env : Env} {tables added : Tables}
    {request : ReportFormats.Request} {files : List ReportFormats.File} {trust : Trust}
    {uuid : CString} {dir : List StoredFile}
    (hCheck : ReportFormats.checkSignature env request = .ok (files, trust))
    (hMay : env.userMay = true)
    (hUuid : ReportFormats.storedUuid env tables request.uuid = .ok uuid)
    (hWrite : ReportFormats.writeFiles env [] files = .ok dir)
    (hRows : request.params.foldlM
      (ReportFormats.addParam (nextRowid (tables.formats.map (·.rowid))))
      (insertFormat env tables request uuid trust dir).1 = .ok added) :
    ReportFormats.createReportFormat env tables request =
      .ok (added, nextRowid (tables.formats.map (·.rowid))) := by
  rw [ReportFormats.createReportFormat, hCheck]
  change (if !env.userMay then _ else _) = _
  rw [hMay, if_neg (by decide), hUuid]
  change (ReportFormats.writeFiles env [] files).bind _ = _
  rw [hWrite]
  change (request.params.foldlM (ReportFormats.addParam (nextRowid (tables.formats.map (·.rowid))))
    (insertFormat env tables request uuid trust dir).1).bind _ = _
  rw [hRows]
  rfl

/-- A request that is served with files and links is served on the tables: with the same rows, and
with the stored files in the directory. -/
theorem createReportFormat_refines {host : Host} (base64Encode : List UInt8 → CString)
    {tables : Tables} {uuid : Uuid} {request : ReportFormats.Request} (hUuid : request.uuid = uuid.1)
    {tree : Tree} (h : (createReportFormat host (ofRequest uuid request)
      (World.start (rowsOf tables) tree)).1 = none) :
    ∃ stored rowid new dir,
      ReportFormats.createReportFormat (envOf host base64Encode) tables request =
        .ok (stored, rowid) ∧
      (createReportFormat host (ofRequest uuid request)
        (World.start (rowsOf tables) tree)).2.db = rowsOf stored ∧
      stored.dirs (if request.global then none else some host.user.1, new) = some dir ∧
      Holds (createReportFormat host (ofRequest uuid request)
        (World.start (rowsOf tables) tree)).2.tree (reportDir host request.global ++ [new]) dir := by
  have hCheck := checkSignature_map host base64Encode hUuid
  rw [createReportFormat] at h ⊢
  cases hChecked : ReportFormats.checkSignature (envOf host base64Encode) request with
  | error failure =>
      rw [hCheck, hChecked] at h
      cases h
  | ok checked =>
      obtain ⟨files, trust⟩ := checked
      rw [hCheck, hChecked] at h ⊢
      cases hMay : host.userMay with
      | false =>
          simp only [Except.map, hMay] at h
          cases h
      | true =>
          simp only [Except.map, hMay, Bool.not_true, Bool.false_eq_true, if_false] at h ⊢
          cases hStored : storedUuid host (ofRequest uuid request).uuid
              (World.start (rowsOf tables) tree).begun with
          | none =>
              rw [hStored] at h
              cases h
          | some stored =>
              obtain ⟨new, world⟩ := stored
              rw [hStored] at h
              obtain ⟨hUuids, hDb⟩ := @storedUuid_ofRequest host base64Encode tables uuid new
                (World.start (rowsOf tables) tree).begun world rfl hStored
              have hSucceeds : Succeeds host (ofRequest uuid request) (files.map ofFile) trust new
                  world.db world.tree (reportDir host request.global ++ [new.1]) :=
                by_contra fun hFails => storeFormat_fails hFails h
              obtain ⟨rows, effects, hRows, hEnd⟩ := storeFormat_stored hSucceeds
              have hNothing : Holds (opened host world.tree (reportDir host request.global ++ [new.1]))
                  (reportDir host request.global ++ [new.1]) [] :=
                fun file hFile => absurd hFile List.not_mem_nil
              obtain ⟨dir, hWrite, hHolds⟩ := @holds_writeFiles host _ _ _ 0 base64Encode files []
                hNothing hSucceeds.files
              rw [hDb] at hRows
              have hMap := insertRows_map tables host base64Encode uuid new request hUuid trust dir
              cases hFold : request.params.foldlM
                  (ReportFormats.addParam (nextRowid (tables.formats.map (·.rowid))))
                  (insertFormat (envOf host base64Encode) tables request new.1 trust dir).1 with
              | error failure =>
                  rw [hFold] at hMap
                  cases hMap.symm.trans hRows
              | ok added =>
                  rw [hFold] at hMap
                  obtain rfl : rowsOf added = rows := Except.ok.inj (hMap.symm.trans hRows)
                  refine ⟨added, nextRowid (tables.formats.map (·.rowid)), new.1, dir, ?_, ?_, ?_, ?_⟩
                  · rw [← hUuid] at hUuids
                    exact createReportFormat_of_parts hChecked hMay hUuids hWrite hFold
                  · exact congrArg (fun result => result.2.db) hEnd
                  · rw [dirs_foldlM_addParam _ _ hFold]
                    exact Function.update_self ..
                  · change Holds (storeFormat host (ofRequest uuid request) (files.map ofFile) trust new
                      world).2.tree _ _
                    rw [hEnd]
                    exact hHolds

end ReportFormats.OnDisk
