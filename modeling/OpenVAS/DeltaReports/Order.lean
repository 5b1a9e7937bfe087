import OpenVAS.DeltaReports.Basic

/-! The order of results turns its sign with its arguments, and results that it takes for equal
have the same port and NVT, and hosts that `collate_ip` does not tell apart. -/
namespace DeltaReports

open CString

theorem firstOf_map_neg (rets : List Int) : firstOf (rets.map (-·)) = -firstOf rets := by
  induction rets with
  | nil => rfl
  | cons ret rets ih =>
      rw [List.map_cons, firstOf, firstOf, ih]
      by_cases hZero : ret = 0
      · simp [hZero]
      · simp [hZero]

theorem firstOf_eq_zero_iff {rets : List Int} : firstOf rets = 0 ↔ ∀ ret ∈ rets, ret = 0 := by
  induction rets with
  | nil => simp [firstOf]
  | cons ret rets ih =>
      rw [firstOf, List.forall_mem_cons, ← ih]
      by_cases hZero : ret = 0
      · simp [hZero]
      · simp [hZero]

theorem collateIpCompare_swap (one two : CString) :
    collateIpCompare two one = -collateIpCompare one two := by
  rw [collateIpCompare, collateIpCompare]
  by_cases hEq : atoi one = atoi two
  · simp [hEq]
  · by_cases hLt : atoi one < atoi two
    · simp [hEq, Ne.symm hEq, hLt, Int32.lt_asymm hLt]
    · have hGt : atoi two < atoi one :=
        (Int32.lt_or_lt_of_ne hEq).resolve_left hLt
      simp [hEq, Ne.symm hEq, hLt, hGt]

theorem collateIp_swap {one two : CString} {ret : Int} (h : collateIp one two = some ret) :
    collateIp two one = some (-ret) := by
  rw [collateIp] at h ⊢
  cases hOne : scanAddress one with
  | none =>
      rw [hOne] at h
      have hRet := Option.some.inj h
      cases hTwo : scanAddress two with
      | none => rw [← hRet, Nat.min_comm, strncmp_swap]
      | some ip₂ => rw [← hRet, Nat.min_comm, strncmp_swap]
  | some ip₁ =>
      cases hTwo : scanAddress two with
      | none =>
          rw [hOne, hTwo] at h
          have hRet := Option.some.inj h
          rw [← hRet, Nat.min_comm, strncmp_swap]
      | some ip₂ =>
          rw [hOne, hTwo] at h
          dsimp only at h ⊢
          have hSwap : firstOf [collateIpCompare ip₂.a ip₁.a, collateIpCompare ip₂.b ip₁.b,
              collateIpCompare ip₂.c ip₁.c] = -firstOf [collateIpCompare ip₁.a ip₂.a,
                collateIpCompare ip₁.b ip₂.b, collateIpCompare ip₁.c ip₂.c] := by
            rw [← firstOf_map_neg, collateIpCompare_swap ip₁.a, collateIpCompare_swap ip₁.b,
              collateIpCompare_swap ip₁.c]
            rfl
          rw [hSwap]
          split at h
          · rename_i hFirst
            rw [if_pos (by omega), Option.some.inj h]
          · rename_i hFirst
            rw [if_neg (by omega)]
            split at h
            · rename_i hInside
              rw [if_pos hInside.symm, ← Option.some.inj h, collateIpCompare_swap]
            · cases h

theorem collateTypes_swap (one two : CString) (types : List CString) :
    collateTypes two one types = -collateTypes one two types := by
  induction types with
  | nil => rw [collateTypes, collateTypes, Nat.min_comm, strncmp_swap]
  | cons type types ih =>
      rw [collateTypes, collateTypes, ih]
      by_cases hOne : strncmp one.length one type = 0
      · by_cases hTwo : strncmp two.length two type = 0
        · simp [hOne, hTwo]
        · simp [hOne, hTwo]
      · by_cases hTwo : strncmp two.length two type = 0
        · simp [hOne, hTwo]
        · simp [hOne, hTwo]

theorem collateMessageType_swap (one two : CString) :
    collateMessageType two one = -collateMessageType one two :=
  collateTypes_swap one two messageTypes

theorem severityCmp_swap (severity deltaSeverity : ℚ) :
    severityCmp deltaSeverity severity = -severityCmp severity deltaSeverity := by
  rw [severityCmp, severityCmp]
  by_cases hBoth : severity ≥ 0 ∧ deltaSeverity ≥ 0
  · rw [if_pos hBoth, if_pos hBoth.symm]
    rcases lt_trichotomy severity deltaSeverity with hLt | hEq | hGt
    · simp [hLt, lt_asymm hLt]
    · simp [hEq]
    · simp [hGt, lt_asymm hGt]
  · rw [if_neg hBoth, if_neg fun h => hBoth h.symm]
    rfl

theorem resultCmpRest_swap (sortOrder : Int) (sortField : CString) (x y : Result) :
    resultCmpRest sortOrder sortField y x = -resultCmpRest sortOrder sortField x y := by
  rw [resultCmpRest, resultCmpRest, strcmp_swap x.port, severityCmp_swap x.severity,
    collateMessageType_swap x.type, strcmp_swap x.nvt]
  split <;> split <;> rw [← firstOf_map_neg] <;> rfl

theorem getD_eq_rowid_iff {sortField : Option CString} :
    sortField.getD (lit "type") = lit "ROWID" ↔ sortField = some (lit "ROWID") := by
  cases sortField with
  | none => exact iff_of_false (by decide) nofun
  | some sortField => simp

/-- The order without ROWIDs. -/
theorem resultCmp_eq_some_iff {sortOrder : Int} {sortField : Option CString}
    (hField : sortField ≠ some (lit "ROWID")) {x y : Result} {ret : Int} :
    resultCmp sortOrder sortField x y = some ret ↔ ∃ host, collateIp x.host y.host = some host ∧
      (if host ≠ 0 then host else
        resultCmpRest sortOrder (sortField.getD (lit "type")) x y) = ret := by
  have hName := mt getD_eq_rowid_iff.mp hField
  simp only [resultCmp, hName, if_false]
  cases hHost : collateIp x.host y.host with
  | none => simp
  | some host => simp

/-- Without ROWIDs, the order turns its sign with its arguments. -/
theorem resultCmp_swap {sortOrder : Int} {sortField : Option CString}
    (hField : sortField ≠ some (lit "ROWID")) {x y : Result} {ret : Int}
    (h : resultCmp sortOrder sortField x y = some ret) :
    resultCmp sortOrder sortField y x = some (-ret) := by
  obtain ⟨host, hHost, hRet⟩ := (resultCmp_eq_some_iff hField).mp h
  refine (resultCmp_eq_some_iff hField).mpr ⟨-host, collateIp_swap hHost, ?_⟩
  rw [← hRet]
  by_cases hZero : host = 0
  · simp [hZero, resultCmpRest_swap _ _ x y]
  · simp [hZero]

theorem resultCmpRest_eq_zero {sortOrder : Int} {sortField : CString} {x y : Result}
    (h : resultCmpRest sortOrder sortField x y = 0) : x.port = y.port ∧ x.nvt = y.nvt := by
  rw [← strcmp_eq_zero_iff, ← strcmp_eq_zero_iff]
  rw [resultCmpRest] at h
  split at h <;> split at h <;>
    simp only [firstOf_eq_zero_iff, List.forall_mem_cons, neg_eq_zero] at h
  · exact ⟨h.1, h.2.2.2.1⟩
  · exact ⟨h.2.2.1, h.2.2.2.1⟩
  · exact ⟨h.1, h.2.2.2.1⟩
  · exact ⟨h.2.2.1, h.2.2.2.1⟩

/-- Results that the order without ROWIDs takes for equal. -/
theorem resultCmp_eq_zero {sortOrder : Int} {sortField : Option CString}
    (hField : sortField ≠ some (lit "ROWID")) {x y : Result}
    (h : resultCmp sortOrder sortField x y = some 0) :
    collateIp x.host y.host = some 0 ∧ x.port = y.port ∧ x.nvt = y.nvt := by
  obtain ⟨host, hHost, hRet⟩ := (resultCmp_eq_some_iff hField).mp h
  by_cases hZero : host = 0
  · rw [if_neg (not_not.mpr hZero)] at hRet
    exact ⟨hZero ▸ hHost, resultCmpRest_eq_zero hRet⟩
  · rw [if_pos hZero] at hRet
    exact absurd hRet hZero

/-- What a delta report identifies a result by. -/
structure SameKey (x y : Result) : Prop where
  host : x.host = y.host
  port : x.port = y.port
  nvt : x.nvt = y.nvt
  severity : x.severity = y.severity
  type : x.type = y.type

/-- The order without ROWIDs sees only the keys. -/
theorem resultCmp_congr {sortOrder : Int} {sortField : Option CString}
    (hField : sortField ≠ some (lit "ROWID")) {x y z w : Result} (hLeft : SameKey x y)
    (hRight : SameKey z w) :
    resultCmp sortOrder sortField x z = resultCmp sortOrder sortField y w := by
  have hName := mt getD_eq_rowid_iff.mp hField
  simp only [resultCmp, hName, if_false, resultCmpRest, hLeft.host, hLeft.port, hLeft.nvt,
    hLeft.severity, hLeft.type, hRight.host, hRight.port, hRight.nvt, hRight.severity, hRight.type]

theorem SameKey.refl (x : Result) : SameKey x x := ⟨rfl, rfl, rfl, rfl, rfl⟩

theorem compatible_resultCmp {sortOrder : Int} {sortField : Option CString}
    (hField : sortField ≠ some (lit "ROWID")) :
    Merge.Compatible (resultCmp sortOrder sortField) SameKey where
  swap := resultCmp_swap hField
  left := fun hSame z => resultCmp_congr hField hSame (.refl z)
  right := fun hSame z => resultCmp_congr hField (.refl z) hSame

end DeltaReports
