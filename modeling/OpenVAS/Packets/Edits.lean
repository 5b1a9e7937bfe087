import OpenVAS.Packets.Ip

/-! What `set_ip_elements` changes. A field without an argument should keep its value, and a
field with one should be read back by `get_ip_element`. -/
namespace Packets

open CString Inet

inductive IpField where
  | hl
  | v
  | tos
  | len
  | id
  | off
  | ttl
  | p
  | src
  | dst
deriving DecidableEq

def IpField.name : IpField → String
  | hl => "ip_hl"
  | v => "ip_v"
  | tos => "ip_tos"
  | len => "ip_len"
  | id => "ip_id"
  | off => "ip_off"
  | ttl => "ip_ttl"
  | p => "ip_p"
  | src => "ip_src"
  | dst => "ip_dst"

/-- The value that a field has in memory. -/
def IpField.raw (h : IpHeader) : IpField → Nat
  | hl => h.ipHl.toNat
  | v => h.ipV.toNat
  | tos => h.ipTos.toNat
  | len => h.ipLen.toNat
  | id => h.ipId.toNat
  | off => h.ipOff.toNat
  | ttl => h.ipTtl.toNat
  | p => h.ipP.toNat
  | src => h.ipSrc.toNat
  | dst => h.ipDst.toNat

/-- The value given for a field, reduced to its width. There is none without an argument or
with a text that is no address, and none for the destination, which is not set. -/
def IpField.given (lexic : Lexic) : IpField → Option Argument
  | hl => (lexic "ip_hl").map fun arg => .int (ofNibble (toNibble (var2int (some arg) 0)))
  | v => (lexic "ip_v").map fun arg => .int (ofNibble (toNibble (var2int (some arg) 0)))
  | tos => (lexic "ip_tos").map fun arg => .int (ofChar (toChar (var2int (some arg) 0)))
  | len => (lexic "ip_len").map fun arg => .int (ofShort (toShort (var2int (some arg) 0)))
  | id => (lexic "ip_id").map fun arg => .int (ofShort (toShort (var2int (some arg) 0)))
  | off => (lexic "ip_off").map fun arg => .int (ofShort (toShort (var2int (some arg) 0)))
  | ttl => (lexic "ip_ttl").map fun arg => .int (ofChar (toChar (var2int (some arg) 0)))
  | p => (lexic "ip_p").map fun arg => .int (ofChar (toChar (var2int (some arg) 0)))
  | src => ((var2str (lexic "ip_src")).bind fun s => inetAton (cText s)).map fun address =>
      .str (inetNtoa address)
  | dst => none

/-- The call `get_ip_element (ip:ip, element:element)`. -/
def elementCall (ip : List UInt8) (element : String) : Lexic
  | "ip" => some (.str ip)
  | "element" => some (.str (lit element))
  | _ => none

/-- The result has the fields without an argument and the bytes behind the header from the
packet, and the fields with an argument are read back. -/
def KeepsRest (lexic : Lexic) (packet result : List UInt8) : Prop :=
  ∃ h h' rest, packet = IpHeader.bytes h ++ rest ∧ result = IpHeader.bytes h' ++ rest ∧
    (∀ field : IpField, field.given lexic = none → field.raw h' = field.raw h) ∧
    ∀ field : IpField, ∀ value, field.given lexic = some value →
      getIpElement (elementCall result field.name) = .ok (some value)

/-! The rewritten header. -/

theorem setIpHeader_eq (lexic : Lexic) (h : IpHeader) :
    ∃ sum, setIpHeader lexic h =
      { ipHl := toNibble (var2int (lexic "ip_hl") (ofNibble h.ipHl))
        ipV := toNibble (var2int (lexic "ip_v") (ofNibble h.ipV))
        ipTos := toChar (var2int (lexic "ip_tos") (ofChar h.ipTos))
        ipLen := htons (toShort (var2int (lexic "ip_len") (ofShort (ntohs h.ipLen))))
        ipId := htons (toShort (var2int (lexic "ip_id") (ofShort h.ipId)))
        ipOff := htons (toShort (var2int (lexic "ip_off") (ofShort (ntohs h.ipOff))))
        ipTtl := toChar (var2int (lexic "ip_ttl") (ofChar h.ipTtl))
        ipP := toChar (var2int (lexic "ip_p") (ofChar h.ipP))
        ipSum := sum
        ipSrc := readAddr (var2str (lexic "ip_src")) h.ipSrc
        ipDst := h.ipDst } := by
  rw [setIpHeader]
  dsimp only
  split
  · exact ⟨_, rfl⟩
  · exact ⟨_, rfl⟩

/-- An argument that is given replaces the old value, whatever that is. -/
theorem var2int_some (arg : Argument) (old : Int32) : var2int (some arg) old = var2int (some arg) 0 := by
  cases arg with
  | int v => rfl
  | str s => rfl

/-- A field without an argument keeps its value, except the identification. -/
theorem raw_setIpHeader {lexic : Lexic} {h : IpHeader} {field : IpField} (hId : field ≠ .id)
    (hGiven : field.given lexic = none) : field.raw (setIpHeader lexic h) = field.raw h := by
  obtain ⟨sum, hEq⟩ := setIpHeader_eq lexic h
  rw [hEq]
  cases field with
  | id => exact absurd rfl hId
  | dst => rfl
  | src =>
      have hNone : (var2str (lexic "ip_src")).bind (fun s => inetAton (cText s)) = none := by
        simpa [IpField.given] using hGiven
      simp [IpField.raw, readAddr, hNone]
  | _ =>
      rw [IpField.given, Option.map_eq_none_iff] at hGiven
      simp [IpField.raw, hGiven, var2int]

theorem raw_id {lexic : Lexic} {h : IpHeader} (hGiven : IpField.id.given lexic = none) :
    IpField.id.raw (setIpHeader lexic h) = (htons h.ipId).toNat := by
  obtain ⟨sum, hEq⟩ := setIpHeader_eq lexic h
  rw [IpField.given, Option.map_eq_none_iff] at hGiven
  rw [hEq]
  simp [IpField.raw, hGiven, var2int]

/-- What `get_ip_element` reads of a field. -/
def IpField.read (h : IpHeader) : IpField → Argument
  | hl => .int (ofNibble h.ipHl)
  | v => .int (ofNibble h.ipV)
  | tos => .int (ofChar h.ipTos)
  | len => .int (ofShort (ntohs h.ipLen))
  | id => .int (ofShort (ntohs h.ipId))
  | off => .int (ofShort (ntohs h.ipOff))
  | ttl => .int (ofChar h.ipTtl)
  | p => .int (ofChar h.ipP)
  | src => .str (snprintf 32 (inetNtoa (longBytes h.ipSrc)))
  | dst => .str (snprintf 32 (inetNtoa (longBytes h.ipDst)))

theorem getIpElement_bytes (h : IpHeader) (rest : List UInt8) (field : IpField) :
    getIpElement (elementCall (h.bytes ++ rest) field.name) = .ok (some (field.read h)) := by
  have hElement : ipElement h (cText (lit field.name)) = some (field.read h) := by
    cases field <;> rfl
  have hCall : getIpElement (elementCall (h.bytes ++ rest) field.name) =
      (viewIp (h.bytes ++ rest)).bind fun view => .ok (ipElement view.1 (cText (lit field.name))) := rfl
  rw [hCall, viewIp_bytes, ← hElement]
  rfl

theorem inetNtoa_longBytes {address : List UInt8} (h : address.length = 4) :
    snprintf 32 (inetNtoa (longBytes (inAddrOf address))) = inetNtoa address := by
  match address, h with
  | [a, b, c, d], _ =>
      rw [inAddrOf, longBytes_longOf]
      exact snprintf_of_lt ((length_inetNtoa a b c d).trans_lt (by decide))

/-- A field with an argument is read back. -/
theorem read_setIpHeader {lexic : Lexic} {h : IpHeader} {field : IpField} {value : Argument}
    (hGiven : field.given lexic = some value) : field.read (setIpHeader lexic h) = value := by
  obtain ⟨sum, hEq⟩ := setIpHeader_eq lexic h
  rw [hEq]
  cases field with
  | dst => cases hGiven
  | src =>
      obtain ⟨address, hAddress, rfl⟩ := Option.map_eq_some_iff.mp hGiven
      have hLength : address.length = 4 := by
        obtain ⟨s, _, hRead⟩ := Option.bind_eq_some_iff.mp hAddress
        exact length_inetAton hRead
      simp only [IpField.read, readAddr, hAddress, inetNtoa_longBytes hLength]
  | _ =>
      obtain ⟨arg, hArg, rfl⟩ := Option.map_eq_some_iff.mp hGiven
      simp only [IpField.read, hArg, ntohs_htons]
      rw [var2int_some]

theorem htons_eq_self_iff (h : IpHeader) (rest : List UInt8) :
    htons h.ipId = h.ipId ↔ (h.bytes ++ rest)[4]? = (h.bytes ++ rest)[5]? := by
  have hBytes : (h.bytes ++ rest)[4]? = some (UInt8.ofNat h.ipId.toNat) ∧
      (h.bytes ++ rest)[5]? = some (UInt8.ofNat (h.ipId.toNat / 256)) := ⟨rfl, rfl⟩
  rw [hBytes.1, hBytes.2, Option.some_inj]
  constructor
  · intro hSame
    have hShort := congrArg shortBytes hSame
    rw [htons, shortBytes_shortOf, shortBytes] at hShort
    exact (List.cons.inj hShort).1.symm
  · intro hSame
    calc htons h.ipId = shortOf (UInt8.ofNat h.ipId.toNat) (UInt8.ofNat (h.ipId.toNat / 256)) := by
          rw [htons, hSame]
      _ = h.ipId := shortOf_bytes h.ipId

theorem setIpElements_bytes {lexic : Lexic} {h : IpHeader} {rest : List UInt8}
    (hPacket : lexic "ip" = some (.str (h.bytes ++ rest))) :
    setIpElements lexic = .ok (some ((setIpHeader lexic h).bytes ++ rest)) := by
  have hTake : (h.bytes ++ rest).take (getLocalVarSizeByName lexic "ip") = h.bytes ++ rest := by
    rw [getLocalVarSizeByName, hPacket]
    exact List.take_length
  have hText : getStrLocalVarByName lexic "ip" = some (h.bytes ++ rest) := by
    rw [getStrLocalVarByName, hPacket]
    rfl
  simp only [setIpElements, hText, hTake, viewIp_bytes]
  rfl

theorem keepsRest_bytes {lexic : Lexic} {h h' : IpHeader} {rest : List UInt8} :
    KeepsRest lexic (h.bytes ++ rest) (h'.bytes ++ rest) ↔
      (∀ field : IpField, field.given lexic = none → field.raw h' = field.raw h) ∧
        ∀ field : IpField, ∀ value, field.given lexic = some value → field.read h' = value := by
  have hView : ∀ {h₁ h₂ : IpHeader} {rest₁ rest₂ : List UInt8},
      h₁.bytes ++ rest₁ = h₂.bytes ++ rest₂ → h₁ = h₂ := by
    intro h₁ h₂ rest₁ rest₂ hEq
    have hTwo := congrArg viewIp hEq
    rw [viewIp_bytes, viewIp_bytes] at hTwo
    exact congrArg Prod.fst (Except.ok.inj hTwo)
  constructor
  · rintro ⟨h₁, h₂, rest', hPacket, hResult, hKeep, hRead⟩
    obtain rfl := hView hPacket
    obtain rfl := hView hResult
    refine ⟨hKeep, fun field value hGiven => ?_⟩
    have hOk := hRead field value hGiven
    rw [getIpElement_bytes] at hOk
    exact Option.some.inj (Except.ok.inj hOk)
  · rintro ⟨hKeep, hRead⟩
    refine ⟨h, h', rest, rfl, rfl, hKeep, fun field value hGiven => ?_⟩
    rw [getIpElement_bytes, hRead field value hGiven]

/-- `set_ip_elements` keeps the rest of every packet exactly if the identification is given or
has two equal bytes: without an argument its bytes are swapped. -/
theorem set_keeps_rest_iff {lexic : Lexic} {packet : List UInt8}
    (hPacket : lexic "ip" = some (.str packet)) (hSize : sizeofIp ≤ packet.length) :
    (∃ result, setIpElements lexic = .ok (some result) ∧ KeepsRest lexic packet result) ↔
      lexic "ip_id" ≠ none ∨ packet[4]? = packet[5]? := by
  obtain ⟨h, rest, hView, rfl⟩ := viewIp_of_length hSize
  have hResult := setIpElements_bytes hPacket
  rw [← htons_eq_self_iff]
  constructor
  · rintro ⟨result, hOk, hKeeps⟩
    obtain rfl := Option.some.inj (Except.ok.inj (hResult.symm.trans hOk))
    by_cases hId : lexic "ip_id" = none
    · have hNone : IpField.id.given lexic = none := by simp [IpField.given, hId]
      have hRaw := (keepsRest_bytes.mp hKeeps).1 .id hNone
      rw [raw_id hNone] at hRaw
      exact .inr (UInt16.toNat_inj.mp hRaw)
    · exact .inl hId
  · intro hId
    refine ⟨_, hResult, keepsRest_bytes.mpr ⟨fun field hGiven => ?_,
      fun field value hGiven => read_setIpHeader hGiven⟩⟩
    by_cases hField : field = .id
    · subst hField
      have hNone : lexic "ip_id" = none := by simpa [IpField.given] using hGiven
      rw [raw_id hGiven, hId.resolve_left (not_not_intro hNone)]
      rfl
    · exact raw_setIpHeader hField hGiven

/-- A packet with the identification 0x1234. -/
def plainHeader : IpHeader where
  ipHl := 5
  ipV := 4
  ipTos := 0
  ipLen := htons 20
  ipId := htons 0x1234
  ipOff := 0
  ipTtl := 64
  ipP := 6
  ipSum := 0
  ipSrc := longOf 10 0 0 1
  ipDst := longOf 10 0 0 2

theorem set_keeps_rest_given : ∃ result,
    setIpElements (fun name => if name = "ip" then some (.str plainHeader.bytes)
      else if name = "ip_id" then some (.int 7) else none) = .ok (some result) ∧
    KeepsRest (fun name => if name = "ip" then some (.str plainHeader.bytes)
      else if name = "ip_id" then some (.int 7) else none) plainHeader.bytes result :=
  (@set_keeps_rest_iff (fun name => if name = "ip" then some (.str plainHeader.bytes)
    else if name = "ip_id" then some (.int 7) else none) plainHeader.bytes rfl (by decide)).mpr (.inl (by decide))

/-- Setting the time to live alone swaps the bytes of the identification. -/
theorem id_bytes_swapped : ¬ ∃ result,
    setIpElements (fun name => if name = "ip" then some (.str plainHeader.bytes)
      else if name = "ip_ttl" then some (.int 1) else none) = .ok (some result) ∧
    KeepsRest (fun name => if name = "ip" then some (.str plainHeader.bytes)
      else if name = "ip_ttl" then some (.int 1) else none) plainHeader.bytes result := by
  rintro ⟨result, hOk, hKeeps⟩
  rw [← List.append_nil plainHeader.bytes] at hOk hKeeps
  obtain rfl := Option.some.inj (Except.ok.inj ((setIpElements_bytes rfl).symm.trans hOk))
  have hRaw := (keepsRest_bytes.mp hKeeps).1 .id rfl
  rw [raw_id rfl] at hRaw
  exact absurd hRaw (by decide)

end Packets
