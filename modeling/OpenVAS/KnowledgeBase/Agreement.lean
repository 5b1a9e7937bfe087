import OpenVAS.KnowledgeBase.Messages

/-! The copy of the knowledge base that a plugin process works on and the copy
its host process keeps. Both start equal, and the host sees the plugin's
updates only as messages. -/
namespace KnowledgeBase

open CString

/-- One call of `plug_set_key`, or of `plug_replace_key` with `replace`. -/
structure PlugCall where
  name : CString
  value : KbValue
  replace : Bool
  deriving DecidableEq, Repr

structure Copies where
  plugin : Kb
  host : Kb

/-- One call in the plugin process, with its message applied by the host. -/
def plugStep (soc : Int) (saveKb : Bool) (copies : Copies) (call : PlugCall) : Copies :=
  let (plugin, message) :=
    if call.replace then plugReplaceKey copies.plugin soc call.name call.value
    else plugSetKey copies.plugin soc call.name call.value
  match message with
  | none => ⟨plugin, copies.host⟩
  | some message => ⟨plugin, (kbParse saveKb copies.host message).kb⟩

/-- Both copies store the same set of typed values under each name. -/
def Copies.Agree (copies : Copies) : Prop :=
  ∀ name value, value ∈ copies.plugin.items name ↔ value ∈ copies.host.items name

/-- A replace would overwrite nothing but the value itself or a value that is
stored a second time. -/
def NothingLost (values : List KbValue) (value : KbValue) (replace : Bool) : Prop :=
  replace = true → ∀ first ∈ values.head?, first = value ∨ first ∈ values.tail

/-- The host's copy takes the call the way the plugin's copy does. A name with
an `=` is read as another update, which is harmless only if neither of the
two changes anything. -/
def CallSafe (copies : Copies) (call : PlugCall) : Prop :=
  call.value = .int 0 ∨
  if ch '=' ∈ call.name then
    call.value ∈ copies.host.items call.name ∧
    valueRead call.name call.value ∈ copies.host.items (nameRead call.name) ∧
    NothingLost (copies.host.items (nameRead call.name)) (valueRead call.name call.value)
      call.replace
  else NothingLost (copies.host.items call.name) call.value call.replace

theorem plugStep_null (soc : Int) (saveKb : Bool) (copies : Copies) (call : PlugCall)
    (h : call.value = .int 0) : plugStep soc saveKb copies call = copies := by
  cases hReplace : call.replace <;>
    simp [plugStep, plugSetKey, plugReplaceKey, plugSetReplaceKey, h, hReplace]

/-- What one call does to the two copies, with the message read back. -/
theorem plugStep_eq {soc : Int} (hSoc : soc ≠ 0) (saveKb : Bool) (copies : Copies)
    (call : PlugCall) (h : call.value ≠ .int 0) :
    plugStep soc saveKb copies call =
      ⟨(kbItemAdd copies.plugin call.name call.value).2,
        if call.replace then
          (kbItemSet copies.host (nameRead call.name) (valueRead call.name call.value)).2
        else (kbItemAdd copies.host (nameRead call.name) (valueRead call.name call.value)).2⟩ := by
  obtain ⟨type, text, hSplit, -, hValue⟩ := kbParseSplit_plugMessageText call.name call.value
  cases hReplace : call.replace with
  | false =>
      have hGet : internalCommMsgTypeKb &&& internalCommKbGet = 0 := by decide
      have hFlag : internalCommMsgTypeKb &&& internalCommKbReplace = 0 := by decide
      simp [plugStep, plugSetKey, plugSetReplaceKey, h, hReplace, hSoc, kbParse, hGet, hFlag,
        hSplit, hValue]
  | true =>
      have hGet : (internalCommMsgTypeKb ||| internalCommKbReplace) &&& internalCommKbGet = 0 := by
        decide
      have hFlag : (internalCommMsgTypeKb ||| internalCommKbReplace) &&& internalCommKbReplace ≠ 0 := by
        decide
      simp [plugStep, plugReplaceKey, plugSetReplaceKey, h, hReplace, hSoc, kbParse, hGet, hFlag,
        hSplit, hValue]

theorem mem_add_iff (map : ItemMap) (name m : CString) (value w : KbValue) :
    w ∈ map.add name value m ↔ w ∈ map m ∨ (m = name ∧ w = value) := by
  rw [ItemMap.add]
  split
  · rename_i hMem
    refine ⟨Or.inl, ?_⟩
    rintro (h | ⟨rfl, rfl⟩)
    · exact h
    · exact hMem
  · by_cases hm : m = name
    · subst hm
      rw [Function.update_self, List.mem_cons]
      tauto
    · rw [Function.update_of_ne hm]
      simp [hm]

/-- A replace that loses nothing stores what an add stores. -/
theorem nothingLost_iff (values : List KbValue) (value : KbValue) (replace : Bool) :
    NothingLost values value replace ↔
      (replace = true → ∀ w ∈ values, w = value ∨ w ∈ values.tail) := by
  cases values with
  | nil => simp [NothingLost]
  | cons first rest =>
      simp only [NothingLost, List.head?_cons, Option.mem_def, Option.some.injEq, forall_eq',
        List.tail_cons, List.forall_mem_cons]
      exact forall_congr' fun _ => (and_iff_left fun w hw => Or.inr hw).symm

theorem mem_set_iff_of_nothingLost (map : ItemMap) (name m : CString) (value w : KbValue)
    (h : NothingLost (map name) value true) :
    w ∈ map.set name value m ↔ w ∈ map m ∨ (m = name ∧ w = value) := by
  rw [ItemMap.set]
  by_cases hm : m = name
  · subst hm
    have hAll := (nothingLost_iff _ _ _).mp h rfl
    rw [Function.update_self, List.mem_cons]
    constructor
    · rintro (rfl | hw)
      · exact Or.inr ⟨rfl, rfl⟩
      · exact Or.inl (List.mem_of_mem_tail hw)
    · rintro (hw | ⟨-, rfl⟩)
      · exact hAll w hw
      · exact Or.inl rfl
  · rw [Function.update_of_ne hm]
    simp [hm]

/-- The host's update of one name, as `kb_parse` performs it. -/
def hostUpdate (map : ItemMap) (name : CString) (value : KbValue) (replace : Bool) : ItemMap :=
  if replace then map.set name value else map.add name value

theorem mem_hostUpdate_iff (map : ItemMap) (name m : CString) (value w : KbValue) (replace : Bool)
    (h : NothingLost (map name) value replace) :
    w ∈ hostUpdate map name value replace m ↔ w ∈ map m ∨ (m = name ∧ w = value) := by
  cases replace with
  | false => exact mem_add_iff map name m value w
  | true => exact mem_set_iff_of_nothingLost map name m value w h

/-- Keeping every stored value is what the host's update needs to be an add. -/
theorem nothingLost_of_hostUpdate (map : ItemMap) (name : CString) (value : KbValue)
    (replace : Bool) (h : ∀ w ∈ map name, w ∈ hostUpdate map name value replace name) :
    NothingLost (map name) value replace := by
  rw [nothingLost_iff]
  rintro rfl w hw
  have hMem := h w hw
  rwa [hostUpdate, if_pos rfl, ItemMap.set, Function.update_self, List.mem_cons] at hMem

theorem plugStep_agree_iff {soc : Int} (hSoc : soc ≠ 0) (saveKb : Bool) {copies : Copies}
    (hAgree : copies.Agree) (call : PlugCall) (hValue : call.value ≠ .int 0) :
    (plugStep soc saveKb copies call).Agree ↔
      ∀ m w, (w ∈ copies.host.items m ∨ (m = call.name ∧ w = call.value)) ↔
        w ∈ hostUpdate copies.host.items (nameRead call.name) (valueRead call.name call.value)
          call.replace m := by
  have hHost : Kb.items (plugStep soc saveKb copies call).host =
      hostUpdate copies.host.items (nameRead call.name) (valueRead call.name call.value)
        call.replace := by
    rw [plugStep_eq hSoc saveKb copies call hValue, hostUpdate]
    cases call.replace with
    | false => exact kbItemAdd_items ..
    | true => exact kbItemSet_items ..
  have hPlugin : Kb.items (plugStep soc saveKb copies call).plugin =
      copies.plugin.items.add call.name call.value := by
    rw [plugStep_eq hSoc saveKb copies call hValue]
    exact kbItemAdd_items ..
  rw [Copies.Agree, hHost, hPlugin]
  refine forall_congr' fun m => forall_congr' fun w => ?_
  rw [mem_add_iff, hAgree m w]

/-- One call keeps two agreeing copies in agreement exactly when it is safe. -/
theorem agree_step {soc : Int} (hSoc : soc ≠ 0) (saveKb : Bool) (copies : Copies)
    (call : PlugCall) (hAgree : copies.Agree) :
    (plugStep soc saveKb copies call).Agree ↔ CallSafe copies call := by
  by_cases hValue : call.value = .int 0
  · rw [plugStep_null soc saveKb copies call hValue]
    exact ⟨fun _ => Or.inl hValue, fun _ => hAgree⟩
  rw [plugStep_agree_iff hSoc saveKb hAgree call hValue, CallSafe, or_iff_right hValue]
  let map := copies.host.items
  let n := nameRead call.name
  let v := valueRead call.name call.value
  -- Agreement alone forces the host to keep every value it had under the name it read.
  have hLost : (∀ m w, (w ∈ map m ∨ (m = call.name ∧ w = call.value)) ↔
      w ∈ hostUpdate map n v call.replace m) → NothingLost (map n) v call.replace :=
    fun h => nothingLost_of_hostUpdate map n v call.replace fun w hw => (h n w).mp (Or.inl hw)
  by_cases hEquals : ch '=' ∈ call.name
  · have hName : n ≠ call.name := by
      intro h
      have hNot := not_mem_nameRead call.name
      rw [show nameRead call.name = call.name from h] at hNot
      exact hNot hEquals
    rw [if_pos hEquals]
    constructor
    · intro h
      have hKeep := hLost h
      refine ⟨?_, (h n v).mpr ?_ |>.resolve_right fun hw => hName hw.1, hKeep⟩
      · have hw := (h call.name call.value).mp (Or.inr ⟨rfl, rfl⟩)
        rw [mem_hostUpdate_iff _ _ _ _ _ _ hKeep] at hw
        exact hw.resolve_right fun hw => hName hw.1.symm
      · rw [mem_hostUpdate_iff _ _ _ _ _ _ hKeep]
        exact Or.inr ⟨rfl, rfl⟩
    · rintro ⟨hOwn, hRead, hKeep⟩ m w
      rw [mem_hostUpdate_iff _ _ _ _ _ _ hKeep]
      constructor
      · rintro (hw | ⟨rfl, rfl⟩)
        · exact Or.inl hw
        · exact Or.inl hOwn
      · rintro (hw | ⟨rfl, rfl⟩)
        · exact Or.inl hw
        · exact Or.inl hRead
  · have hn : n = call.name := nameRead_of_not_mem hEquals
    have hv : v = call.value := valueRead_of_not_mem hEquals call.value
    rw [if_neg hEquals]
    constructor
    · intro h
      have hKeep := hLost h
      rwa [hn, hv] at hKeep
    · intro hKeep m w
      change _ ↔ w ∈ hostUpdate map n v call.replace m
      rw [hn, hv, mem_hostUpdate_iff _ _ _ _ _ _ hKeep]

/-- From any shared knowledge base, the copies agree after every prefix of a
sequence of calls exactly when every call of the sequence is safe. -/
theorem copies_agree_along_iff {soc : Int} (hSoc : soc ≠ 0) (saveKb : Bool) (kb : Kb)
    (calls : List PlugCall) :
    Run.AllStates (plugStep soc saveKb) Copies.Agree ⟨kb, kb⟩ calls ↔
      Run.AllSteps (plugStep soc saveKb) CallSafe ⟨kb, kb⟩ calls :=
  Run.allStates_iff_allSteps (agree_step hSoc saveKb) (fun _ _ => Iff.rfl) calls

/-- A set and a replace of it by the same value is such a sequence. -/
theorem copies_agree_along_set_replace :
    (4 : Int) ≠ 0 ∧
    Run.AllStates (plugStep 4 false) Copies.Agree ⟨kbNew, kbNew⟩
      [⟨lit "a", .int 1, false⟩, ⟨lit "a", .int 1, true⟩] := by
  refine ⟨by decide, (copies_agree_along_iff (by decide) false kbNew _).mpr ⟨?_, ?_, trivial⟩⟩
  · exact Or.inr (by simp only [NothingLost]; decide)
  · exact Or.inr (by simp only [NothingLost]; decide)

/-- A replace by another value leaves the old value in the plugin's copy only. -/
theorem replaced_value_stays_in_plugin :
    ¬ ([⟨lit "a", .int 1, false⟩, ⟨lit "a", .int 2, true⟩].foldl (plugStep 4 false)
      ⟨kbNew, kbNew⟩).Agree := by
  intro h
  exact absurd (h (lit "a") (.int 1)) (by decide)

end KnowledgeBase
