import OpenVAS.Lib.Results
import OpenVAS.Lib.Table
import OpenVAS.ReportFormats.Basic

/-! What is stored of an accepted report format: its params with their options, and
its files. -/
namespace ReportFormats

open CString

/-- Every param belongs to a format, and every option to a param. -/
structure Tables.Consistent (tables : Tables) : Prop where
  params : ∀ row ∈ tables.params, row.reportFormat ∈ tables.formats.map (·.rowid)
  options : ∀ option ∈ tables.options, option.reportFormatParam ∈ tables.params.map (·.rowid)

abbrev Store := { tables : Tables // tables.Consistent }

theorem nextRowid_not_mem (rowids : List Nat) : nextRowid rowids ∉ rowids :=
  fun h => Nat.not_succ_le_self _ (Table.le_foldr_max h)

theorem deleteReportFormat_consistent {tables : Tables} (h : tables.Consistent)
    (reportFormat : Nat) (ultimate : Bool) :
    (deleteReportFormat tables reportFormat ultimate).Consistent where
  params := by
    intro row hRow
    obtain ⟨hRow, hOther⟩ := List.mem_filter.mp hRow
    obtain ⟨format, hFormat, hId⟩ := List.mem_map.mp (h.params row hRow)
    refine List.mem_map.mpr ⟨format, List.mem_filter.mpr ⟨hFormat, ?_⟩, hId⟩
    rw [hId]
    exact hOther
  options := by
    intro option hOption
    obtain ⟨hOption, hKept⟩ := List.mem_filter.mp hOption
    obtain ⟨row, hRow, hId⟩ := List.mem_map.mp (h.options option hOption)
    refine List.mem_map.mpr ⟨row, List.mem_filter.mpr ⟨hRow, ?_⟩, hId⟩
    apply decide_eq_true
    intro hGone
    apply of_decide_eq_true hKept
    exact List.any_eq_true.mpr ⟨row, List.mem_filter.mpr ⟨hRow, decide_eq_true hGone⟩,
      decide_eq_true hId⟩

theorem insertParam_consistent {tables : Tables} (h : tables.Consistent) {reportFormat : Nat}
    (hFormat : reportFormat ∈ tables.formats.map (·.rowid)) (param : Param) (type : ParamType)
    (min max : Int) (fallback : CString) :
    (insertParam tables reportFormat param type min max fallback).Consistent where
  params := by
    intro row hRow
    rcases List.mem_append.mp hRow with hOld | hNew
    · exact h.params row hOld
    · rw [List.mem_singleton.mp hNew]
      exact hFormat
  options := by
    intro option hOption
    change _ ∈ (tables.params ++ _).map (·.rowid)
    rw [List.map_append]
    rcases List.mem_append.mp hOption with hOld | hNew
    · exact List.mem_append_left _ (h.options option hOld)
    · obtain ⟨value, -, rfl⟩ := List.mem_map.mp hNew
      exact List.mem_append_right _ (List.mem_singleton_self _)

theorem optionsOf_insertParam_of_ne (tables : Tables) (reportFormat : Nat) (param : Param)
    (type : ParamType) (min max : Int) (fallback : CString) {rowid : Nat}
    (h : rowid ≠ nextRowid (tables.params.map (·.rowid))) :
    optionsOf (insertParam tables reportFormat param type min max fallback) rowid =
      optionsOf tables rowid := by
  have hNew : (param.options.map (OptionRow.mk (nextRowid (tables.params.map (·.rowid))))).filter
      (·.reportFormatParam = rowid) = [] := by
    apply List.filter_eq_nil_iff.mpr
    intro option hOption
    obtain ⟨value, -, rfl⟩ := List.mem_map.mp hOption
    simpa using h.symm
  simp only [optionsOf, insertParam, List.filter_append, hNew, List.append_nil]

theorem optionsOf_insertParam (tables : Tables) (h : tables.Consistent) (reportFormat : Nat)
    (param : Param) (type : ParamType) (min max : Int) (fallback : CString) :
    optionsOf (insertParam tables reportFormat param type min max fallback)
      (nextRowid (tables.params.map (·.rowid))) = param.options := by
  have hOld : tables.options.filter
      (·.reportFormatParam = nextRowid (tables.params.map (·.rowid))) = [] := by
    apply List.filter_eq_nil_iff.mpr
    intro option hOption
    have hParam := h.options option hOption
    simp only [decide_eq_true_eq]
    intro hEq
    exact nextRowid_not_mem _ (hEq ▸ hParam)
  have hNew : (param.options.map (OptionRow.mk (nextRowid (tables.params.map (·.rowid))))).filter
      (·.reportFormatParam = nextRowid (tables.params.map (·.rowid))) =
      param.options.map (OptionRow.mk (nextRowid (tables.params.map (·.rowid)))) := by
    apply List.filter_eq_self.mpr
    intro option hOption
    obtain ⟨value, -, rfl⟩ := List.mem_map.mp hOption
    simp
  simp only [optionsOf, insertParam, List.filter_append, hOld, hNew, List.nil_append, List.map_map,
    Function.comp_def, List.map_id']

/-- The text of a stored param, from what was stored. -/
def storedParamText (name : CString) (type : ParamType) (min max : Int) (fallback : CString)
    (options : List CString) : CString :=
  name ++ reportFormatParamTypeName type ++ (if llongMin < min then showInt min else []) ++
    (if max < llongMax then showInt max else []) ++ fallback ++ options.flatten

/-- An inserted param comes behind the others and leaves their texts as they are. -/
theorem paramRowsText_insertParam (tables : Tables) (h : tables.Consistent) (reportFormat : Nat)
    (param : Param) (type : ParamType) (min max : Int) (fallback : CString) :
    paramRowsText (insertParam tables reportFormat param type min max fallback) reportFormat =
      paramRowsText tables reportFormat ++
        storedParamText param.name type min max fallback param.options := by
  have hOld : ∀ row ∈ tables.params.filter (·.reportFormat = reportFormat),
      paramRowText (insertParam tables reportFormat param type min max fallback) row =
        paramRowText tables row := by
    intro row hRow
    have hNe : row.rowid ≠ nextRowid (tables.params.map (·.rowid)) := by
      intro hEq
      have hMem : row.rowid ∈ tables.params.map (·.rowid) :=
        List.mem_map_of_mem (List.mem_of_mem_filter hRow)
      exact nextRowid_not_mem _ (hEq ▸ hMem)
    rw [paramRowText, paramRowText, optionsOf_insertParam_of_ne _ _ _ _ _ _ _ hNe]
  have hRows : (insertParam tables reportFormat param type min max fallback).params =
      tables.params ++ [⟨nextRowid (tables.params.map (·.rowid)), reportFormat, param.name, type,
        param.value, min, max, [], fallback⟩] := rfl
  rw [paramRowsText, paramRowsText, hRows, List.filter_append, List.flatMap_append,
    List.flatMap_congr hOld, List.filter_cons_of_pos (by simp), List.filter_nil,
    List.flatMap_singleton, paramRowText, optionsOf_insertParam tables h]
  simp only [storedParamText, List.append_nil]

theorem strtollAuto_bounds (text : CString) :
    llongMin ≤ strtollAuto text ∧ strtollAuto text ≤ llongMax := by
  simp only [strtollAuto, llongMin, llongMax]
  omega

theorem boundText_min {text : Option CString} {min : Int} (h : bound llongMin text = .ok min) :
    boundText llongMin text = .ok (if llongMin < min then showInt min else []) := by
  rw [boundText, h]
  cases text with
  | none =>
      obtain rfl : llongMin = min := Except.ok.inj h
      rw [if_neg (lt_irrefl _)]
      rfl
  | some text =>
      rw [bound] at h
      split at h
      · cases h
      · rename_i hLimit
        obtain rfl := Except.ok.inj h
        rw [if_pos (lt_of_le_of_ne (strtollAuto_bounds text).1 (Ne.symm hLimit))]
        rfl

theorem boundText_max {text : Option CString} {max : Int} (h : bound llongMax text = .ok max) :
    boundText llongMax text = .ok (if max < llongMax then showInt max else []) := by
  rw [boundText, h]
  cases text with
  | none =>
      obtain rfl : llongMax = max := Except.ok.inj h
      rw [if_neg (lt_irrefl _)]
      rfl
  | some text =>
      rw [bound] at h
      split at h
      · cases h
      · rename_i hLimit
        obtain rfl := Except.ok.inj h
        rw [if_pos (lt_of_le_of_ne (strtollAuto_bounds text).2 hLimit)]
        rfl

theorem reportFormatParamTypeName_fromName {name : CString}
    (h : reportFormatParamTypeFromName name ≠ .error) :
    reportFormatParamTypeName (reportFormatParamTypeFromName name) = name := by
  unfold reportFormatParamTypeFromName at h ⊢
  split_ifs at h ⊢ with h1 h2 h3 h4 h5
  · exact h1.symm
  · exact h2.symm
  · exact h3.symm
  · exact h4.symm
  · exact h5.symm
  · exact absurd rfl h

/-- What a param of an accepted request is like, and what is stored of it. -/
theorem addParam_ok {reportFormat : Nat} {tables added : Tables} {param : Param}
    (h : addParam reportFormat tables param = .ok added) :
    ∃ type min max fallback, param.type = some type ∧
      reportFormatParamTypeFromName type ≠ .error ∧ bound llongMin param.typeMin = .ok min ∧
      bound llongMax param.typeMax = .ok max ∧ param.fallback = some fallback ∧
      added = insertParam tables reportFormat param (reportFormatParamTypeFromName type) min max
        fallback := by
  rw [addParam] at h
  cases hType : param.type with
  | none =>
      rw [hType] at h
      cases h
  | some type =>
      simp only [hType] at h
      split at h
      · cases h
      rename_i hKnown
      obtain ⟨min, hMin, h⟩ := Except.bind_eq_ok.mp h
      obtain ⟨max, hMax, h⟩ := Except.bind_eq_ok.mp h
      cases hFallback : param.fallback with
      | none =>
          rw [hFallback] at h
          cases h
      | some fallback =>
          rw [hFallback] at h
          refine ⟨type, min, max, fallback, rfl, hKnown, hMin, hMax, rfl, ?_⟩
          dsimp only at h
          split_ifs at h
          exact (Except.ok.inj h).symm

/-- The stored params of an accepted request have the text of its params. -/
theorem foldlM_addParam {reportFormat : Nat} {params : List Param} {tables tables' : Tables}
    (h : tables.Consistent) (hFormat : reportFormat ∈ tables.formats.map (·.rowid))
    (hAdd : params.foldlM (addParam reportFormat) tables = .ok tables') :
    tables'.Consistent ∧ tables'.formats = tables.formats ∧ tables'.dirs = tables.dirs ∧
      ∃ text, paramsText params = .ok text ∧
        paramRowsText tables' reportFormat = paramRowsText tables reportFormat ++ text := by
  induction params generalizing tables with
  | nil =>
      obtain rfl : tables = tables' := Except.ok.inj hAdd
      exact ⟨h, rfl, rfl, [], rfl, (List.append_nil _).symm⟩
  | cons param params ih =>
      rw [List.foldlM_cons] at hAdd
      obtain ⟨added, hStep, hAdd⟩ := Except.bind_eq_ok.mp hAdd
      obtain ⟨type, min, max, fallback, hType, hKnown, hMin, hMax, hFallback, rfl⟩ :=
        addParam_ok hStep
      obtain ⟨hKept, hFormats, hDirs, text, hText, hRows⟩ :=
        ih (insertParam_consistent h hFormat _ _ _ _ _) hFormat hAdd
      refine ⟨hKept, hFormats, hDirs, storedParamText param.name
        (reportFormatParamTypeFromName type) min max fallback param.options ++ text, ?_, ?_⟩
      · rw [paramsText, boundText_min hMin, boundText_max hMax, hText, hType, hFallback]
        simp only [storedParamText, reportFormatParamTypeName_fromName hKnown]
        rfl
      · rw [hRows, paramRowsText_insertParam tables h, List.append_assoc]

/-- What is stored of a file. -/
def File.stored (env : Env) (file : File) : StoredFile :=
  ⟨file.name.1, if file.content = [] then [] else env.base64Decode file.content⟩

theorem setContents_ok {env : Env} {dir dir' : List StoredFile} {name : CString}
    {bytes : List UInt8} (hNew : name ∉ dir.map (·.name))
    (h : setContents env dir name bytes = .ok dir') :
    name ≠ lit "." ∧ name ≠ lit ".." ∧ dir' = dir ++ [⟨name, bytes⟩] := by
  rw [setContents] at h
  split at h
  · cases h
  · rename_i hRefused
    have hAbsent : ¬ dir.any (·.name = name) = true := by
      intro hAny
      obtain ⟨file, hFile, hName⟩ := List.any_eq_true.mp hAny
      exact hNew (List.mem_map.mpr ⟨file, hFile, of_decide_eq_true hName⟩)
    rw [if_neg hAbsent] at h
    exact ⟨fun hDot => hRefused (.inl hDot), fun hDots => hRefused (.inr (.inl hDots)),
      (Except.ok.inj h).symm⟩

/-- Files of different names are written one behind the other. -/
theorem writeFiles_ok {env : Env} {files : List File} {dir dir' : List StoredFile}
    (hNodup : (dir.map (·.name) ++ files.map (·.name.1)).Nodup)
    (h : writeFiles env dir files = .ok dir') :
    dir' = dir ++ files.map (·.stored env) ∧
      ∀ file ∈ files, file.name.1 ≠ lit "." ∧ file.name.1 ≠ lit ".." := by
  induction files generalizing dir with
  | nil =>
      obtain rfl : dir = dir' := Except.ok.inj h
      exact ⟨(List.append_nil dir).symm, fun _ hFile => absurd hFile List.not_mem_nil⟩
  | cons file files ih =>
      rw [writeFiles] at h
      split at h
      · cases h
      obtain ⟨written, hSet, h⟩ := Except.bind_eq_ok.mp h
      have hNew : file.name.1 ∉ dir.map (·.name) := by
        intro hOld
        exact (List.disjoint_of_nodup_append hNodup) hOld List.mem_cons_self
      obtain ⟨hDot, hDots, rfl⟩ := setContents_ok hNew hSet
      have hNodup' : ((dir ++ [file.stored env]).map (·.name) ++
          files.map (·.name.1)).Nodup := by
        simpa only [List.map_append, List.map_cons, List.map_nil, List.append_assoc,
          List.cons_append, List.nil_append, File.stored] using hNodup
      obtain ⟨rfl, hRest⟩ := ih hNodup' h
      refine ⟨?_, ?_⟩
      · rw [List.append_assoc]
        rfl
      · intro other hOther
        rcases List.mem_cons.mp hOther with rfl | hOther
        · exact ⟨hDot, hDots⟩
        · exact hRest other hOther

/-- Two lists of file names in the order of `strcmp` are equal when they have the
same names. -/
theorem eq_of_compareNames {names names' : List CString} (h : names.Pairwise compareNames)
    (h' : names'.Pairwise compareNames) (hPerm : names.Perm names') : names = names' :=
  hPerm.eq_of_pairwise (fun _ _ _ _ hle hge => strcmpLe_antisymm hle hge) h h'

instance : Std.Total compareNames := ⟨strcmpLe_total⟩

instance : IsTrans CString compareNames := ⟨fun _ _ _ => strcmpLe_trans⟩

instance : Std.Total compareFiles := ⟨fun one two => strcmpLe_total one.name.1 two.name.1⟩

instance : IsTrans File compareFiles := ⟨fun _ _ _ => strcmpLe_trans⟩

/-- The directory lists the files that are no backups, in the order of the upload. -/
theorem getReportFormatFiles_eq {files : List File} {dir : List StoredFile}
    (hDir : (dir.map (·.name)).Perm (files.map (·.name.1)))
    (hDots : ∀ file ∈ files, file.name.1 ≠ lit "." ∧ file.name.1 ≠ lit "..") :
    getReportFormatFiles dir =
      ((sortFiles files).filter fun file => !backupFileName file.name.1).map (·.name.1) := by
  have hSorted : ((sortFiles files).map (·.name.1)).Pairwise compareNames :=
    List.pairwise_map.mpr (List.pairwise_insertionSort compareFiles files)
  have hNames : ((sortFiles files).map (·.name.1)).Perm (files.map (·.name.1)) :=
    (List.perm_insertionSort compareFiles files).map _
  apply eq_of_compareNames
  · exact (List.pairwise_insertionSort compareNames _).filter _
  · exact hSorted.sublist (List.filter_sublist.map _)
  · have hOnly : ∀ name ∈ dir.map (·.name), (name ≠ lit "." && name ≠ lit ".." &&
        !backupFileName name) = !backupFileName name := by
      intro name hName
      obtain ⟨file, hFile, rfl⟩ := List.mem_map.mp (hDir.mem_iff.mp hName)
      simp [hDots file hFile]
    have hListed : (getReportFormatFiles dir).Perm
        ((dir.map (·.name)).filter fun name => !backupFileName name) := by
      have hPerm := (List.perm_insertionSort compareNames
        (lit "." :: lit ".." :: dir.map (·.name))).filter fun name =>
          name ≠ lit "." && name ≠ lit ".." && !backupFileName name
      rwa [List.filter_cons_of_neg (by simp), List.filter_cons_of_neg (by simp),
        List.filter_congr hOnly] at hPerm
    have hKept : ((dir.map (·.name)).filter fun name => !backupFileName name).Perm
        (((sortFiles files).map (·.name.1)).filter fun name => !backupFileName name) :=
      (hDir.trans hNames.symm).filter _
    exact hListed.trans (hKept.trans (.of_eq List.filter_map))

end ReportFormats
