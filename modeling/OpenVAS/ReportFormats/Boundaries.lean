import OpenVAS.Lib.Results
import OpenVAS.ReportFormats.OnDisk

/-! The signed text runs the values of a format together. It determines the format as
far as the lengths of the values are known. -/
namespace ReportFormats.OnDisk

open CString

/-- What a signature says about a param. -/
structure ParamContent where
  name : CString
  type : Option CString
  minimum : Option Int
  maximum : Option Int
  fallback : Option CString
  options : List CString
  deriving DecidableEq

/-- What a signature says about a format, with the files in the order of the text. -/
structure Content where
  extension : Option CString
  contentType : Option CString
  global : Bool
  files : List File
  params : List ParamContent
  deriving DecidableEq

def Param.content (param : Param) : ParamContent :=
  ⟨param.name, param.type, param.typeMin.map strtollAuto, param.typeMax.map strtollAuto,
    param.fallback, param.options.getD []⟩

def Request.content (request : Request) : Content :=
  ⟨request.extension, request.contentType, request.global, sortFiles request.files,
    request.params.map (·.content)⟩

/-- The lengths of the values of a param, where it has them. -/
structure ParamLengths where
  name : Nat
  type : Option Nat
  minimum : Option Nat
  maximum : Option Nat
  fallback : Option Nat
  options : List Nat
  deriving DecidableEq

structure Lengths where
  extension : Option Nat
  contentType : Option Nat
  files : List (Nat × Nat)
  params : List ParamLengths
  deriving DecidableEq

def ParamContent.lengths (param : ParamContent) : ParamLengths :=
  ⟨param.name.length, param.type.map (·.length), param.minimum.map (showInt · |>.length),
    param.maximum.map (showInt · |>.length), param.fallback.map (·.length),
    param.options.map (·.length)⟩

def Content.lengths (content : Content) : Lengths :=
  ⟨content.extension.map (·.length), content.contentType.map (·.length),
    content.files.map fun file => (file.name.length, file.content.length),
    content.params.map (·.lengths)⟩

def ParamContent.text (param : ParamContent) : CString :=
  param.name ++ printed param.type ++ (param.minimum.map showInt).getD [] ++
    (param.maximum.map showInt).getD [] ++ printed param.fallback ++ param.options.flatten

/-- What stands behind the UUID in the text. -/
def Content.text (content : Content) : CString :=
  printed content.extension ++ printed content.contentType ++
    (if content.global then lit "1" else lit "0") ++
    content.files.flatMap (fun file => file.name ++ file.content) ++
    content.params.flatMap (·.text) ++ lit "\n"

theorem boundText_eq {limit : Int} {given : Option CString} {text : CString}
    (h : boundText limit given = .ok text) :
    text = ((given.map strtollAuto).map showInt).getD [] := by
  cases given with
  | none => exact (Except.ok.inj h).symm
  | some given =>
      rw [boundText, bound] at h
      by_cases hLimit : strtollAuto given = limit
      · rw [if_pos hLimit] at h
        cases h
      · rw [if_neg hLimit] at h
        exact (Except.ok.inj h).symm

theorem paramText_eq {param : Param} {text : CString} (h : paramText param = .ok text) :
    text = param.content.text := by
  rw [paramText] at h
  obtain ⟨min, hMin, h⟩ := Except.bind_eq_ok.mp h
  obtain ⟨max, hMax, h⟩ := Except.bind_eq_ok.mp h
  cases hOptions : param.options with
  | none =>
      rw [hOptions] at h
      cases h
  | some options =>
      rw [hOptions] at h
      obtain rfl := Except.ok.inj h
      rw [boundText_eq hMin, boundText_eq hMax]
      simp only [ParamContent.text, Param.content, hOptions, Option.getD_some]

theorem paramTexts_eq {params : List Param} {texts : List CString}
    (h : params.mapM paramText = .ok texts) :
    texts.flatten = (params.map (·.content)).flatMap (·.text) := by
  induction params generalizing texts with
  | nil =>
      obtain rfl := Except.ok.inj h
      rfl
  | cons param params ih =>
      rw [List.mapM_cons] at h
      obtain ⟨text, hText, h⟩ := Except.bind_eq_ok.mp h
      obtain ⟨rest, hRest, h⟩ := Except.bind_eq_ok.mp h
      obtain rfl := Except.ok.inj h
      rw [List.flatten_cons, List.map_cons, List.flatMap_cons, ih hRest, paramText_eq hText]

theorem signedText_eq {host : Host} {request : Request} {text : CString}
    (h : signedText host request = .ok text) :
    text = signedUuid host request ++ request.content.text := by
  obtain ⟨params, hParams, h⟩ := Except.bind_eq_ok.mp h
  obtain rfl := Except.ok.inj h
  rw [paramTexts_eq hParams]
  simp only [Content.text, Request.content, headText, List.append_assoc]
  rfl

/-! Texts of the same lengths are taken off the end one after the other. -/

theorem append_printed_inj {one two : Option CString} {rest rest' : CString}
    (hLength : one.map (·.length) = two.map (·.length))
    (h : rest ++ printed one = rest' ++ printed two) : one = two ∧ rest = rest' := by
  cases one with
  | none =>
      cases two with
      | none => exact ⟨rfl, List.append_cancel_right h⟩
      | some two => cases hLength
  | some one =>
      cases two with
      | none => cases hLength
      | some two =>
          obtain ⟨hRest, hText⟩ := List.append_inj' h (Option.some.inj hLength)
          exact ⟨congrArg some hText, hRest⟩

theorem showInt_injective : Function.Injective showInt := by
  intro i j h
  have hDigits {k : Int} : ch '-' ∉ showNat k.natAbs := fun hMem =>
    absurd (isdigit_of_mem_showNat hMem) (by decide)
  have hValue {k l : Int} (hNat : showNat k.natAbs = showNat l.natAbs) : k.natAbs = l.natAbs := by
    rw [← digitsValue_showNat k.natAbs, hNat, digitsValue_showNat]
  unfold showInt at h
  split at h
  · split at h
    · have hAbs := hValue (List.cons.inj h).2
      omega
    · exact absurd (h ▸ List.mem_cons_self) (@hDigits j)
  · split at h
    · exact absurd (h ▸ List.mem_cons_self) (@hDigits i)
    · have hAbs := hValue h
      omega

theorem append_bound_inj {one two : Option Int} {rest rest' : CString}
    (hLength : one.map (showInt · |>.length) = two.map (showInt · |>.length))
    (h : rest ++ (one.map showInt).getD [] = rest' ++ (two.map showInt).getD []) :
    one = two ∧ rest = rest' := by
  cases one with
  | none =>
      cases two with
      | none => exact ⟨rfl, List.append_cancel_right h⟩
      | some two => cases hLength
  | some one =>
      cases two with
      | none => cases hLength
      | some two =>
          obtain ⟨hRest, hText⟩ := List.append_inj' h (Option.some.inj hLength)
          exact ⟨congrArg some (showInt_injective hText), hRest⟩

theorem append_flatten_inj {one two : List CString} {rest rest' : CString}
    (hLength : one.map (·.length) = two.map (·.length))
    (h : rest ++ one.flatten = rest' ++ two.flatten) : one = two ∧ rest = rest' := by
  have hSum : one.flatten.length = two.flatten.length := by
    rw [List.length_flatten, List.length_flatten, hLength]
  obtain ⟨hRest, hText⟩ := List.append_inj' h hSum
  exact ⟨List.eq_iff_flatten_eq.mpr ⟨hText, hLength⟩, hRest⟩

theorem append_param_inj {one two : ParamContent} {rest rest' : CString}
    (hLength : one.lengths = two.lengths) (h : rest ++ one.text = rest' ++ two.text) :
    one = two ∧ rest = rest' := by
  obtain ⟨name, type, minimum, maximum, fallback, options⟩ := one
  obtain ⟨name', type', minimum', maximum', fallback', options'⟩ := two
  obtain ⟨hName, hType, hMinimum, hMaximum, hFallback, hOptions⟩ := ParamLengths.mk.inj hLength
  simp only [ParamContent.text, ← List.append_assoc] at h
  obtain ⟨rfl, hValues⟩ := append_flatten_inj hOptions h
  obtain ⟨rfl, hAbove⟩ := append_printed_inj hFallback hValues
  obtain ⟨rfl, hBelow⟩ := append_bound_inj hMaximum hAbove
  obtain ⟨rfl, hFront⟩ := append_bound_inj hMinimum hBelow
  obtain ⟨rfl, hNames⟩ := append_printed_inj hType hFront
  obtain ⟨hRest, hText⟩ := List.append_inj' hNames hName
  obtain rfl : name = name' := hText
  exact ⟨rfl, hRest⟩

theorem append_file_inj {one two : File} {rest rest' : CString}
    (hName : one.name.length = two.name.length) (hContent : one.content.length = two.content.length)
    (h : rest ++ (one.name ++ one.content) = rest' ++ (two.name ++ two.content)) :
    one = two ∧ rest = rest' := by
  obtain ⟨name, content⟩ := one
  obtain ⟨name', content'⟩ := two
  rw [← List.append_assoc, ← List.append_assoc] at h
  obtain ⟨hFront, hData⟩ := List.append_inj' h hContent
  obtain ⟨hRest, hText⟩ := List.append_inj' hFront hName
  obtain rfl : content = content' := hData
  obtain rfl : name = name' := hText
  exact ⟨rfl, hRest⟩

theorem append_flatMap_inj {α β : Type} {text : α → CString} {lengths : α → β}
    (hItem : ∀ one two rest rest', lengths one = lengths two →
      rest ++ text one = rest' ++ text two → one = two ∧ rest = rest')
    {items items' : List α} {rest rest' : CString}
    (hLength : items.map lengths = items'.map lengths)
    (h : rest ++ items.flatMap text = rest' ++ items'.flatMap text) :
    items = items' ∧ rest = rest' := by
  induction items generalizing items' rest rest' with
  | nil =>
      obtain rfl : items' = [] := List.map_eq_nil_iff.mp hLength.symm
      exact ⟨rfl, List.append_cancel_right h⟩
  | cons item items ih =>
      obtain ⟨item', items', rfl, hSame, hSames⟩ := List.map_eq_cons_iff.mp hLength.symm
      rw [List.flatMap_cons, List.flatMap_cons, ← List.append_assoc, ← List.append_assoc] at h
      obtain ⟨rfl, hFront⟩ := ih hSames.symm h
      obtain ⟨rfl, hRest⟩ := hItem _ _ _ _ hSame.symm hFront
      exact ⟨rfl, hRest⟩

theorem flag_inj : ∀ one two : Bool,
    (if one then lit "1" else lit "0") = (if two then lit "1" else lit "0") → one = two := by
  decide

theorem length_flag (flag : Bool) : (if flag then lit "1" else lit "0").length = 1 := by
  cases flag with
  | false => rfl
  | true => rfl

theorem append_content_inj {one two : Content} {uuid uuid' : CString}
    (hLength : one.lengths = two.lengths) (h : uuid ++ one.text = uuid' ++ two.text) :
    one = two := by
  obtain ⟨extension, contentType, global, files, params⟩ := one
  obtain ⟨extension', contentType', global', files', params'⟩ := two
  obtain ⟨hExtension, hContentType, hFiles, hParams⟩ := Lengths.mk.inj hLength
  simp only [Content.text, ← List.append_assoc] at h
  obtain ⟨rfl, hLists⟩ := append_flatMap_inj
    (fun _ _ _ _ hSame => append_param_inj hSame) hParams (List.append_cancel_right h)
  obtain ⟨rfl, hFront⟩ := append_flatMap_inj
    (fun _ _ _ _ hSame => append_file_inj (Prod.mk.inj hSame).1 (Prod.mk.inj hSame).2)
    hFiles hLists
  obtain ⟨hHead, hGlobal⟩ := List.append_inj' hFront
    ((length_flag global).trans (length_flag global').symm)
  obtain rfl := flag_inj global global' hGlobal
  obtain ⟨rfl, hNames⟩ := append_printed_inj hContentType hHead
  obtain ⟨rfl, -⟩ := append_printed_inj hExtension hNames
  rfl

/-- Where the same values are given, with the same lengths, formats of one text are the
same. A different format of the same text has its values cut at other places. -/
theorem content_eq_iff_lengths {host host' : Host} {request request' : Request} {text : CString}
    (hText : signedText host request = .ok text) (hText' : signedText host' request' = .ok text) :
    (request.content = request'.content ↔ request.content.lengths = request'.content.lengths) ∧
      (request.content.lengths = request'.content.lengths →
        ∀ file, file ∈ request.files ↔ file ∈ request'.files) := by
  have hSame := (signedText_eq hText).symm.trans (signedText_eq hText')
  refine ⟨⟨fun h => congrArg Content.lengths h, fun h => append_content_inj h hSame⟩,
    fun hLengths file => ?_⟩
  have hFiles : sortFiles request.files = sortFiles request'.files :=
    congrArg Content.files (append_content_inj hLengths hSame)
  have hSorted (files : List File) : file ∈ sortFiles files ↔ file ∈ files :=
    List.mem_insertionSort _
  rw [← hSorted, hFiles, hSorted]

/-- A signed format with one file, that has this name and content, and one param, that has this
minimum. -/
def depthFormat (name content minimum : CString) : Request where
  uuid := givenUuid
  contentType := some (lit "text/xml")
  extension := some (lit "xml")
  global := false
  files := [⟨name, content⟩]
  params := [⟨lit "Depth", some (lit "integer"), some minimum, none, some (lit "5"), lit "7",
    some []⟩]
  signature := some (lit "signature")

/-- A minimum in another base. The file is written to the directory of the format as `generate`. -/
theorem content_depthFormat :
    let request := depthFormat (lit "./generate") (lit "YQ==") (lit "1")
    let rebased := depthFormat (lit "./generate") (lit "YQ==") (lit "0x1")
    let text := lit "3cxmltext/xml0./generateYQ==Depthinteger15\n"
    signedText manager request = .ok text ∧ signedText manager rebased = .ok text ∧
      request.content.lengths = rebased.content.lengths ∧ request.content = rebased.content := by
  intro request rebased text
  have hText : signedText manager request = .ok text := by decide
  have hText' : signedText manager rebased = .ok text := by decide
  have hLengths : request.content.lengths = rebased.content.lengths := by decide
  exact ⟨hText, hText', hLengths, (content_eq_iff_lengths hText hText').1.mpr hLengths⟩

/-- A manager that has the key of the signature of this text. -/
def signer (signed : CString) : Host :=
  { manager with
    base64Decode := fun content => if content = lit "YQ==" then lit "a" else []
    verifySignature := fun text _ => some (if text = signed then .yes else .no) }

/-- The content of a file moves into its name: two accepted formats of one UUID and one signed
text, with different files. -/
theorem signedText_shifted :
    let request := depthFormat (lit "generate") (lit "YQ==") (lit "1")
    let shifted := depthFormat (lit "generateYQ==") [] (lit "1")
    let text := lit "3cxmltext/xml0generateYQ==Depthinteger15\n"
    (createReportFormat (signer text) request (World.start noRows installed)).1 = none ∧
      (createReportFormat (signer text) shifted (World.start noRows installed)).1 = none ∧
      request.uuid = shifted.uuid ∧
      signedText (signer text) request = .ok text ∧ signedText (signer text) shifted = .ok text ∧
      (signer text).verifySignature text (lit "signature") = some .yes ∧
      ¬ ∀ file, file ∈ request.files ↔ file ∈ shifted.files := by
  refine ⟨by decide +kernel, by decide +kernel, rfl, by decide, by decide, by decide, fun h => ?_⟩
  exact absurd ((h ⟨lit "generate", lit "YQ=="⟩).mp (by decide)) (by decide)

end ReportFormats.OnDisk
