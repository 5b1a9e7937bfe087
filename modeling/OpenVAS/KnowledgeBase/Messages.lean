import OpenVAS.KnowledgeBase.Refinement
import OpenVAS.KnowledgeBase.Slashes

/-! Updates of the knowledge base by a plugin process. `plug_set_replace_key`
applies an update to the plugin's own copy and sends it as one message, which
the host process applies to its copy with `kb_parse`. -/
namespace KnowledgeBase

open CString

def internalCommMsgTypeKb : Nat := 1 <<< 17
def internalCommKbReplace : Nat := 1
def internalCommKbGet : Nat := 2
def internalCommKbSendingInt : Nat := 4
def internalCommKbSendingStr : Nat := 8
def internalCommKbError : Nat := 16

/-- A message on the internal socket; `none` is the NULL buffer. -/
structure Message where
  data : Option CString
  type : Nat
  deriving DecidableEq, Repr

/-- The text of an update. The buffer sizes are those the code allocates. -/
def plugMessageText (name : CString) : KbValue → CString
  | .str value =>
      let value := addslashes value
      snprintf (name.length + value.length + 10)
        (showInt kbTypeStr ++ ch ' ' :: name ++ ch '=' :: value ++ [ch ';', ch '\n'])
  | .int value =>
      snprintf (name.length + 20)
        (showInt kbTypeInt ++ ch ' ' :: name ++ ch '=' :: showInt value.toInt ++ [ch ';', ch '\n'])

/-- `plug_set_replace_key` on the plugin's copy, with the message it sends. The
integer 0 is the NULL pointer, which the code takes for a missing value. The
local update is an add whatever `replace` says. -/
def plugSetReplaceKey (kb : Kb) (soc : Int) (name : CString) (value : KbValue) (replace : Bool) :
    Kb × Option Message :=
  if value = .int 0 then (kb, none)
  else
    let kb := (kbItemAdd kb name value).2
    if soc ≠ 0 then
      let type := if replace then internalCommMsgTypeKb ||| internalCommKbReplace
        else internalCommMsgTypeKb
      (kb, some ⟨some (plugMessageText name value), type⟩)
    else (kb, none)

def plugSetKey (kb : Kb) (soc : Int) (name : CString) (value : KbValue) : Kb × Option Message :=
  plugSetReplaceKey kb soc name value false

def plugReplaceKey (kb : Kb) (soc : Int) (name : CString) (value : KbValue) : Kb × Option Message :=
  plugSetReplaceKey kb soc name value true

/-- How `kb_parse` cuts an update message into type, name and value text. The
value starts behind the first `=` of the whole message. -/
def kbParseSplit (buf : CString) : Option (Int32 × CString × CString) :=
  if buf = [] then none
  else
    let buf := if buf.getLast? = some (ch '\n') then buf.dropLast else buf
    let buf := match strrchr buf (ch ';') with
      | some c => buf.take c
      | none => buf
    match strchr buf (ch ' ') with
    | none => none
    | some t =>
        match strchr buf (ch '=') with
        | none => none
        | some e =>
            let name := if t < e then (buf.take e).drop (t + 1) else buf.drop (t + 1)
            some (atoi (buf.take t), name, buf.drop (e + 1))

/-- The effects of one `kb_parse`: the new knowledge base, the message sent
back, and the pair handed to `save_kb_write_*` when the knowledge base is
being saved. -/
structure KbParsed where
  kb : Kb
  reply : Option Message
  saved : Option (CString × KbValue)

def kbParseGet (kb : Kb) (buf : CString) : Message :=
  match kbItemGetSingle kb buf 0 with
  | none => ⟨none, internalCommMsgTypeKb ||| internalCommKbError⟩
  | some ⟨_, .str vStr⟩ => ⟨some vStr, internalCommMsgTypeKb ||| internalCommKbSendingStr⟩
  | some ⟨_, .int vInt⟩ =>
      ⟨some (snprintf 64 (showInt vInt.toInt)), internalCommMsgTypeKb ||| internalCommKbSendingInt⟩

/-- The value of an update message: every type but `ARG_INT` is a string. -/
def kbParseValue (type : Int32) (value : CString) : KbValue :=
  if type.toInt = kbTypeInt then .int (atoi value) else .str (rmslashes value)

def kbParse (saveKb : Bool) (kb : Kb) (message : Message) : KbParsed :=
  match message.data with
  | none => ⟨kb, none, none⟩
  | some buf =>
      if message.type &&& internalCommKbGet ≠ 0 then ⟨kb, some (kbParseGet kb buf), none⟩
      else match kbParseSplit buf with
        | none => ⟨kb, none, none⟩
        | some (type, name, text) =>
            let value := kbParseValue type text
            if message.type &&& internalCommKbReplace ≠ 0 then
              ⟨(kbItemSet kb name value).2, none, none⟩
            else
              ⟨(kbItemAdd kb name value).2, none, if saveKb then some (name, value) else none⟩

/-- The name the host reads: the part before the first `=`. -/
def nameRead (name : CString) : CString := name.takeWhile (· ≠ ch '=')

/-- The value text the host reads: a name with an `=` runs over into it. -/
def textRead (name text : CString) : CString :=
  if ch '=' ∈ name then (name.dropWhile (· ≠ ch '=')).tail ++ ch '=' :: text else text

/-- The value the host reads for an update of `name` to `value`. -/
def valueRead (name : CString) : KbValue → KbValue
  | .str value => .str (rmslashes (textRead name (addslashes value)))
  | .int value => .int (atoi (textRead name (showInt value.toInt)))

theorem not_mem_nameRead (name : CString) : ch '=' ∉ nameRead name := by
  intro hMem
  have h := List.mem_takeWhile_imp hMem
  simp at h

theorem nameRead_append_textRead (name text : CString) :
    name ++ ch '=' :: text = nameRead name ++ ch '=' :: textRead name text := by
  induction name with
  | nil => simp [nameRead, textRead]
  | cons c name ih =>
      by_cases hc : c = ch '='
      · subst hc
        simp [nameRead, textRead]
      · rw [List.cons_append, ih]
        simp [nameRead, textRead, hc, Ne.symm hc]

theorem nameRead_of_not_mem {name : CString} (h : ch '=' ∉ name) : nameRead name = name := by
  refine List.takeWhile_eq_self_iff.mpr fun c hc => ?_
  simpa using fun hEq : c = ch '=' => h (hEq ▸ hc)

theorem valueRead_of_not_mem {name : CString} (h : ch '=' ∉ name) (value : KbValue) :
    valueRead name value = value := by
  cases value with
  | str value => simp [valueRead, textRead, h, rmslashes_addslashes]
  | int value => simp [valueRead, textRead, h, atoi_showInt_self]

/-- `kb_parse` takes the terminator and the two separators off a message. -/
theorem kbParseSplit_message (type : Int32) (hType : ∀ c ∈ showInt type.toInt, isdigit c = true)
    (name text : CString) :
    kbParseSplit (showInt type.toInt ++ ch ' ' :: name ++ ch '=' :: text ++ [ch ';', ch '\n']) =
      some (type, nameRead name, textRead name text) := by
  let digits := showInt type.toInt
  let front := digits ++ ch ' ' :: nameRead name
  let body := front ++ ch '=' :: textRead name text
  have hBody : digits ++ ch ' ' :: name ++ ch '=' :: text = body := by
    have hName := nameRead_append_textRead name text
    simp only [body, front, List.append_assoc, List.cons_append] at hName ⊢
    rw [hName]
  have hSpace : strchr body (ch ' ') = some digits.length := by
    have hNot : ch ' ' ∉ digits := fun h => absurd (hType _ h) (by decide)
    simpa [body, front] using
      strchr_append_cons hNot (nameRead name ++ ch '=' :: textRead name text)
  have hEquals : strchr body (ch '=') = some front.length := by
    refine strchr_append_cons ?_ _
    simp only [front, List.mem_append, List.mem_cons, not_or]
    exact ⟨fun h => absurd (hType _ h) (by decide), by decide, not_mem_nameRead name⟩
  have hLess : digits.length < front.length := by
    simp only [front, List.length_append, List.length_cons]
    omega
  have hTerminated : digits ++ ch ' ' :: name ++ ch '=' :: text ++ [ch ';', ch '\n'] =
      (body ++ [ch ';']) ++ [ch '\n'] := by
    rw [hBody]
    simp
  have hAtoi : atoi digits = type := atoi_showInt_self type
  rw [hTerminated, kbParseSplit, if_neg (by simp)]
  simp only [List.getLast?_concat, if_true, List.dropLast_concat, strrchr_append_singleton,
    List.take_left, hSpace, hEquals, hLess]
  have hType' : body.take digits.length = digits := by simp [body, front]
  have hName' : (body.take front.length).drop (digits.length + 1) = nameRead name := by
    rw [show body.take front.length = front from List.take_left ..]
    simp [front, List.drop_append]
  have hText' : body.drop (front.length + 1) = textRead name text := by
    simp [body, List.drop_append]
  rw [hType', hName', hText', hAtoi]

/-- The text of an update before it is cut to its buffer. -/
def plugMessageFormat (name : CString) : KbValue → CString
  | .str value => showInt kbTypeStr ++ ch ' ' :: name ++ ch '=' :: addslashes value ++ [ch ';', ch '\n']
  | .int value => showInt kbTypeInt ++ ch ' ' :: name ++ ch '=' :: showInt value.toInt ++ [ch ';', ch '\n']

/-- The size of the buffer allocated for the text of an update. -/
def plugMessageSize (name : CString) : KbValue → Nat
  | .str value => name.length + (addslashes value).length + 10
  | .int _ => name.length + 20

theorem plugMessageText_eq_snprintf (name : CString) (value : KbValue) :
    plugMessageText name value = snprintf (plugMessageSize name value) (plugMessageFormat name value) := by
  cases value with
  | str value => rfl
  | int value => rfl

/-- The text and the NUL behind it fit the buffer. -/
theorem plugMessageFormat_fits (name : CString) (value : KbValue) :
    (plugMessageFormat name value).length < plugMessageSize name value := by
  cases value with
  | str value =>
      have hType : (showInt kbTypeStr).length = 1 := by decide
      simp only [plugMessageFormat, plugMessageSize, List.length_append, List.length_cons,
        List.length_nil, hType]
      omega
  | int value =>
      have hType : (showInt kbTypeInt).length = 1 := by decide
      have hValue := length_showInt_le value
      simp only [plugMessageFormat, plugMessageSize, List.length_append, List.length_cons,
        List.length_nil, hType]
      omega

theorem plugMessageText_eq (name : CString) (value : KbValue) :
    plugMessageText name value = plugMessageFormat name value := by
  rw [plugMessageText_eq_snprintf, snprintf_of_lt (plugMessageFormat_fits name value)]

/-- The host reads from an update the type and the value it stands for, up to `=` in the name. -/
theorem kbParseSplit_plugMessageText (name : CString) (value : KbValue) :
    ∃ type text, kbParseSplit (plugMessageText name value) = some (type, nameRead name, text) ∧
      type.toInt = value.type ∧ kbParseValue type text = valueRead name value := by
  rw [plugMessageText_eq]
  cases value with
  | str value =>
      exact ⟨1, textRead name (addslashes value),
        kbParseSplit_message 1 (by decide +kernel) name _, rfl, rfl⟩
  | int value =>
      exact ⟨3, textRead name (showInt value.toInt),
        kbParseSplit_message 3 (by decide +kernel) name _, rfl, rfl⟩

/-- An update whose name has no `=` fits its buffer and is read as what was sent: its type, its
name and its value. The host then adds or sets just that. -/
theorem plugMessage_round_trip {name : CString} {value : KbValue} (hName : ch '=' ∉ name)
    (hValue : value ≠ .int 0) :
    (plugMessageFormat name value).length < plugMessageSize name value ∧
      (∃ type text, kbParseSplit (plugMessageFormat name value) = some (type, name, text) ∧
        type.toInt = value.type ∧ kbParseValue type text = value) ∧
      ∀ kb soc replace, soc ≠ 0 → ∃ message,
        (plugSetReplaceKey kb soc name value replace).2 = some message ∧
        message.data = some (plugMessageFormat name value) ∧
        ∀ saveKb hostKb, (kbParse saveKb hostKb message).kb =
          if replace then (kbItemSet hostKb name value).2 else (kbItemAdd hostKb name value).2 := by
  obtain ⟨type, text, hSplit, hType, hRead⟩ := kbParseSplit_plugMessageText name value
  rw [nameRead_of_not_mem hName, plugMessageText_eq] at hSplit
  rw [valueRead_of_not_mem hName] at hRead
  refine ⟨plugMessageFormat_fits name value, ⟨type, text, hSplit, hType, hRead⟩,
    fun kb soc replace hSoc => ?_⟩
  cases replace with
  | false =>
      refine ⟨⟨some (plugMessageFormat name value), internalCommMsgTypeKb⟩, ?_, rfl,
        fun saveKb hostKb => ?_⟩
      · simp [plugSetReplaceKey, hValue, hSoc, plugMessageText_eq]
      · have hGet : internalCommMsgTypeKb &&& internalCommKbGet = 0 := by decide
        have hFlag : internalCommMsgTypeKb &&& internalCommKbReplace = 0 := by decide
        simp [kbParse, hGet, hFlag, hSplit, hRead]
  | true =>
      refine ⟨⟨some (plugMessageFormat name value), internalCommMsgTypeKb ||| internalCommKbReplace⟩,
        ?_, rfl, fun saveKb hostKb => ?_⟩
      · simp [plugSetReplaceKey, hValue, hSoc, plugMessageText_eq]
      · have hGet : (internalCommMsgTypeKb ||| internalCommKbReplace) &&& internalCommKbGet = 0 := by
          decide
        have hFlag : (internalCommMsgTypeKb ||| internalCommKbReplace) &&& internalCommKbReplace ≠ 0 := by
          decide
        simp [kbParse, hGet, hFlag, hSplit, hRead]

theorem plugMessage_round_trip_separators : ch '=' ∉ lit "a; b" ∧
    kbParseSplit (lit "1 a; b=;=\\\\ \\n;\n") = some (1, lit "a; b", lit ";=\\\\ \\n") ∧
    kbParseValue 1 (lit ";=\\\\ \\n") = .str (lit ";=\\ \n") := by
  have hName : ch '=' ∉ lit "a; b" := by decide
  obtain ⟨-, ⟨type, text, hSplit, -, hRead⟩, -⟩ :=
    @plugMessage_round_trip _ (.str (lit ";=\\ \n")) hName (by decide)
  have hFormat : plugMessageFormat (lit "a; b") (.str (lit ";=\\ \n")) =
      lit "1 a; b=;=\\\\ \\n;\n" := by decide +kernel
  have hKnown : kbParseSplit (lit "1 a; b=;=\\\\ \\n;\n") =
      some (1, lit "a; b", lit ";=\\\\ \\n") := by decide +kernel
  rw [hFormat, hKnown] at hSplit
  obtain ⟨rfl, hRest⟩ := Prod.mk.inj (Option.some.inj hSplit)
  obtain ⟨-, rfl⟩ := Prod.mk.inj hRest
  exact ⟨hName, hKnown, hRead⟩

end KnowledgeBase
