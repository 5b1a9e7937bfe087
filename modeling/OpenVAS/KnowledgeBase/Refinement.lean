import OpenVAS.KnowledgeBase.Basic

/-! The knowledge base as a map from names to lists of values. The map is what
a caller can observe of the chains; every operation of the code is shown to act
on it as an operation on the list of one name, whatever shares its chain. -/
namespace KnowledgeBase

open CString ChainTable

/-- The values a chain holds under a name, in chain order. -/
def chainValues (name : CString) (chain : List KbItem) : List KbValue :=
  (atKey KbItem.name name chain).map KbItem.v

/-- The abstract knowledge base. -/
abbrev ItemMap := CString → List KbValue

/-- The values stored under each name, in chain order. -/
def Kb.items (kb : Kb) : ItemMap := fun name =>
  (entries mkkey KbItem.name kb name).map KbItem.v

/-- Each item stands in the chain of its own name. -/
def Kb.Placed (kb : Kb) : Prop := ChainTable.Placed mkkey KbItem.name kb

namespace ItemMap

/-- A value already stored stays where it is, a new one goes in front. -/
def add (map : ItemMap) (name : CString) (value : KbValue) : ItemMap :=
  if value ∈ map name then map else Function.update map name (value :: map name)

/-- The first value is overwritten. The others stay behind it. -/
def set (map : ItemMap) (name : CString) (value : KbValue) : ItemMap :=
  Function.update map name (value :: (map name).tail)

def rmAll (map : ItemMap) (name : CString) : ItemMap := Function.update map name []

end ItemMap

def KbOp.applyMap (map : ItemMap) : KbOp → ItemMap
  | .add name value => map.add name value
  | .set name value => map.set name value
  | .rmAll name => map.rmAll name

theorem kbItemAdd_eq (kb : Kb) (name : CString) (value : KbValue) :
    kbItemAdd kb name value = kbItemAddset kb name value false := by
  cases value <;> rfl

theorem kbItemSet_eq (kb : Kb) (name : CString) (value : KbValue) :
    kbItemSet kb name value = kbItemAddset kb name value true := by
  cases value <;> rfl

theorem chainValues_cons_self (item : KbItem) (chain : List KbItem) :
    chainValues item.name (item :: chain) = item.v :: chainValues item.name chain := by
  simp [chainValues, atKey_cons_self]

theorem chainValues_cons_other {item : KbItem} {name : CString} (h : item.name ≠ name)
    (chain : List KbItem) : chainValues name (item :: chain) = chainValues name chain := by
  simp [chainValues, atKey_cons_other h]

/-- Without `replace` the walk only looks for the value. -/
theorem kbItemAddsetWalk_add (name : CString) (value : KbValue) (chain : List KbItem) :
    kbItemAddsetWalk name value false chain =
      if value ∈ chainValues name chain then .present else .absent := by
  induction chain with
  | nil => rfl
  | cons item next ih =>
      by_cases hName : item.name = name
      · subst hName
        by_cases hValue : item.v = value
        · simp [kbItemAddsetWalk, hValue, chainValues_cons_self]
        · have hMem : value ∈ chainValues item.name (item :: next) ↔
              value ∈ chainValues item.name next := by
            simp [chainValues_cons_self, Ne.symm hValue]
          simp only [kbItemAddsetWalk, hValue, ih, hMem, if_true, if_false, Bool.false_eq_true]
          split <;> rfl
      · simp only [kbItemAddsetWalk, hName, ih, chainValues_cons_other hName, if_false]
        split <;> rfl

/-- What a chain looks like after its first item of `name` was overwritten. -/
structure Overwritten (name : CString) (value : KbValue) (old new : List KbItem) : Prop where
  self : chainValues name new = value :: (chainValues name old).tail
  other : ∀ m, m ≠ name → atKey KbItem.name m new = atKey KbItem.name m old
  placed : ∀ item ∈ new, item.name = name ∨ item ∈ old

theorem Overwritten.cons {name : CString} {value : KbValue} {old new : List KbItem}
    (h : Overwritten name value old new) {item : KbItem} (hName : item.name ≠ name) :
    Overwritten name value (item :: old) (item :: new) where
  self := by rw [chainValues_cons_other hName, chainValues_cons_other hName, h.self]
  other := by
    intro m hm
    by_cases hItem : item.name = m
    · rw [atKey_cons_self hItem, atKey_cons_self hItem, h.other m hm]
    · rw [atKey_cons_other hItem, atKey_cons_other hItem, h.other m hm]
  placed := by
    intro entry hEntry
    rcases List.mem_cons.mp hEntry with rfl | hEntry
    · exact Or.inr (List.mem_cons_self ..)
    · exact (h.placed entry hEntry).imp_right (List.mem_cons_of_mem _)

/-- With `replace` only the first item of the name decides how the walk ends. -/
theorem kbItemAddsetWalk_set (name : CString) (value : KbValue) (chain : List KbItem) :
    match (chainValues name chain).head? with
    | none => kbItemAddsetWalk name value true chain = .absent
    | some first =>
        if first = value then kbItemAddsetWalk name value true chain = .present
        else ∃ new, kbItemAddsetWalk name value true chain = .replaced new ∧
          Overwritten name value chain new := by
  induction chain with
  | nil => rfl
  | cons item next ih =>
      by_cases hName : item.name = name
      · subst hName
        rw [chainValues_cons_self, List.head?_cons]
        dsimp only
        split
        · rename_i hValue
          simp [kbItemAddsetWalk, hValue]
        · rename_i hValue
          refine ⟨{ item with v := value } :: next, by simp [kbItemAddsetWalk, hValue], ?_, ?_, ?_⟩
          · simp [chainValues, atKey]
          · intro m hm
            simp [atKey, Ne.symm hm]
          · intro entry hEntry
            rcases List.mem_cons.mp hEntry with rfl | hEntry
            · exact Or.inl rfl
            · exact Or.inr (List.mem_cons_of_mem _ hEntry)
      · rw [chainValues_cons_other hName]
        cases hHead : (chainValues name next).head? with
        | none =>
            rw [hHead] at ih
            simp [kbItemAddsetWalk, hName, ih, Walk.past]
        | some first =>
            rw [hHead] at ih
            dsimp only at ih ⊢
            split at ih
            · rename_i hValue
              simp [kbItemAddsetWalk, hName, ih, Walk.past, hValue]
            · rename_i hValue
              obtain ⟨new, hWalk, hNew⟩ := ih
              rw [if_neg hValue]
              exact ⟨item :: new, by simp [kbItemAddsetWalk, hName, hWalk, Walk.past],
                hNew.cons hName⟩

theorem Kb.items_eq_chainValues (kb : Kb) (name : CString) :
    kb.items name = chainValues name (kb (mkkey name)) := rfl

/-- Rewriting the chain of `name` to `chain`, seen on the map. -/
theorem Kb.items_update (kb : Kb) (name : CString) (chain : List KbItem)
    (hOther : ∀ m, m ≠ name →
      atKey KbItem.name m chain = atKey KbItem.name m (kb (mkkey name))) :
    Kb.items (Function.update kb (mkkey name) chain) =
      Function.update kb.items name (chainValues name chain) := by
  funext m
  by_cases hm : m = name
  · subst hm
    rw [Function.update_self, Kb.items, entries_update_self]
    rfl
  · rw [Function.update_of_ne hm, Kb.items, entries_update_other kb (hOther m hm)]
    rfl

/-- Pushing a new item in front of its chain. -/
theorem Kb.items_push (kb : Kb) (name : CString) (value : KbValue) :
    Kb.items (Function.update kb (mkkey name) (⟨name, value⟩ :: kb (mkkey name))) =
      Function.update kb.items name (value :: kb.items name) := by
  rw [Kb.items_update]
  · rw [chainValues_cons_self ⟨name, value⟩]
    rfl
  · intro m hm
    exact atKey_cons_other (Ne.symm hm) _

/-- `kb_item_add_*` in full: a value that is present is reported and nothing
changes, otherwise exactly that value is added. -/
theorem kbItemAdd_spec (kb : Kb) (name : CString) (value : KbValue) :
    kbItemAdd kb name value =
      if value ∈ kb.items name then (-1, kb)
      else (0, Function.update kb (mkkey name) (⟨name, value⟩ :: kb (mkkey name))) := by
  rw [kbItemAdd_eq, kbItemAddset, kbItemAddsetWalk_add, Kb.items_eq_chainValues]
  by_cases h : value ∈ chainValues name (kb (mkkey name)) <;> simp [h]

theorem kbItemAdd_items (kb : Kb) (name : CString) (value : KbValue) :
    Kb.items (kbItemAdd kb name value).2 = kb.items.add name value := by
  rw [kbItemAdd_spec, ItemMap.add]
  by_cases h : value ∈ kb.items name
  · simp [h]
  · simp [h, Kb.items_push]

theorem kbItemSet_items (kb : Kb) (name : CString) (value : KbValue) :
    Kb.items (kbItemSet kb name value).2 = kb.items.set name value := by
  have hWalk := kbItemAddsetWalk_set name value (kb (mkkey name))
  rw [← Kb.items_eq_chainValues] at hWalk
  rw [kbItemSet_eq, ItemMap.set]
  cases hItems : kb.items name with
  | nil =>
      rw [hItems] at hWalk
      simp only [List.head?_nil] at hWalk
      rw [kbItemAddset, hWalk, Kb.items_push, hItems, List.tail_nil]
  | cons first rest =>
      rw [hItems] at hWalk
      simp only [List.head?_cons] at hWalk
      split at hWalk
      · rename_i hFirst
        rw [kbItemAddset, hWalk, List.tail_cons, ← hFirst, ← hItems, Function.update_eq_self]
      · obtain ⟨new, hNew, hOver⟩ := hWalk
        rw [kbItemAddset, hNew, Kb.items_update kb name new hOver.other, hOver.self,
          ← Kb.items_eq_chainValues, hItems]

theorem kbItemRmAllWalk_eq_filter (name : CString) (chain : List KbItem) :
    kbItemRmAllWalk name chain = chain.filter fun item => item.name ≠ name := by
  induction chain with
  | nil => rfl
  | cons item next ih =>
      by_cases h : item.name = name <;> simp [kbItemRmAllWalk, h, ih]

theorem kbItemRmAll_items (kb : Kb) (name : CString) :
    Kb.items (kbItemRmAll kb name) = kb.items.rmAll name := by
  rw [kbItemRmAll, kbItemRmAllWalk_eq_filter, Kb.items_update, ItemMap.rmAll]
  · congr 1
    simp [chainValues, atKey, List.filter_filter]
  · intro m hm
    rw [atKey, atKey, List.filter_filter]
    refine List.filter_congr fun item _ => ?_
    by_cases h : item.name = m
    · simp [h, hm]
    · simp [h]

/-- One operation of the code is the same operation on the map. -/
theorem KbOp.apply_items (kb : Kb) (op : KbOp) :
    Kb.items (op.apply kb) = op.applyMap kb.items := by
  cases op with
  | add name value => exact kbItemAdd_items kb name value
  | set name value => exact kbItemSet_items kb name value
  | rmAll name => exact kbItemRmAll_items kb name

theorem foldl_apply_items (ops : List KbOp) (kb : Kb) :
    Kb.items (ops.foldl KbOp.apply kb) = ops.foldl KbOp.applyMap kb.items := by
  induction ops generalizing kb with
  | nil => rfl
  | cons op ops ih => rw [List.foldl_cons, List.foldl_cons, ih, KbOp.apply_items]

theorem KbOp.applyMap_other (map : ItemMap) (op : KbOp) (m : CString) (hm : m ≠ op.name) :
    op.applyMap map m = map m := by
  cases op with
  | add name value =>
      change map.add name value m = map m
      rw [ItemMap.add]
      split
      · rfl
      · exact Function.update_of_ne hm _ _
  | set name value => exact Function.update_of_ne hm _ _
  | rmAll name => exact Function.update_of_ne hm _ _

theorem kbItemPush_placed {kb : Kb} (h : kb.Placed) (name : CString) (value : KbValue) :
    Kb.Placed (Function.update kb (mkkey name) (⟨name, value⟩ :: kb (mkkey name))) :=
  h.update (List.forall_mem_cons.mpr ⟨Or.inl rfl, fun _ hItem => Or.inr hItem⟩)

theorem kbItemAdd_placed {kb : Kb} (h : kb.Placed) (name : CString) (value : KbValue) :
    Kb.Placed (kbItemAdd kb name value).2 := by
  rw [kbItemAdd_spec]
  split
  · exact h
  · exact kbItemPush_placed h name value

theorem kbItemSet_placed {kb : Kb} (h : kb.Placed) (name : CString) (value : KbValue) :
    Kb.Placed (kbItemSet kb name value).2 := by
  have hWalk := kbItemAddsetWalk_set name value (kb (mkkey name))
  rw [kbItemSet_eq, kbItemAddset]
  split at hWalk
  · rw [hWalk]
    exact kbItemPush_placed h name value
  · split at hWalk
    · rw [hWalk]
      exact h
    · obtain ⟨new, hNew, hOver⟩ := hWalk
      rw [hNew]
      exact h.update hOver.placed

theorem KbOp.apply_placed {kb : Kb} (h : kb.Placed) (op : KbOp) : Kb.Placed (op.apply kb) := by
  cases op with
  | add name value => exact kbItemAdd_placed h name value
  | set name value => exact kbItemSet_placed h name value
  | rmAll name =>
      refine h.update fun item hItem => Or.inr ?_
      rw [kbItemRmAllWalk_eq_filter] at hItem
      exact List.mem_of_mem_filter hItem

theorem kbNew_placed : kbNew.Placed := by
  intro _ item hItem
  exact absurd hItem List.not_mem_nil

theorem kbAfter_placed (ops : List KbOp) : (kbAfter ops).Placed :=
  Run.foldl_invariant Kb.Placed (fun _ op h => KbOp.apply_placed h op) kbNew_placed ops

/-- Looking up one item is looking up one value of the name's list. -/
theorem kbItemGetSingle_eq (kb : Kb) (name : CString) (type : Int) :
    kbItemGetSingle kb name type =
      ((kb.items name).find? fun v => type = 0 ∨ v.type = type).map (KbItem.mk name) := by
  rw [kbItemGetSingle, Kb.items_eq_chainValues]
  induction kb (mkkey name) with
  | nil => rfl
  | cons item next ih =>
      by_cases hName : item.name = name
      · subst hName
        rw [chainValues_cons_self]
        by_cases hType : type = 0 ∨ item.v.type = type
        · rw [List.find?_cons_of_pos (by simpa using hType),
            List.find?_cons_of_pos (by simpa using hType)]
          rfl
        · rw [List.find?_cons_of_neg (by simpa using hType),
            List.find?_cons_of_neg (by simpa using hType), ih]
      · rw [chainValues_cons_other hName, List.find?_cons_of_neg (by simp [hName]), ih]

theorem kbItemGetAll_eq (kb : Kb) (name : CString) :
    kbItemGetAll kb name = ((kb.items name).map (KbItem.mk name)).reverse := by
  have hFold : ∀ (chain ret : List KbItem),
      chain.foldl (fun ret k => if k.name = name then k :: ret else ret) ret =
        ((chainValues name chain).map (KbItem.mk name)).reverse ++ ret := by
    intro chain
    induction chain with
    | nil => intro ret; rfl
    | cons item next ih =>
        intro ret
        rw [List.foldl_cons, ih]
        by_cases hName : item.name = name
        · subst hName
          simp [chainValues_cons_self]
        · simp [hName, chainValues_cons_other hName]
  rw [kbItemGetAll, hFold, List.append_nil]
  rfl

/-- After a set the value is the first of its name, so both lookups find it. -/
theorem kbItemGetSingle_set (kb : Kb) (name : CString) (value : KbValue) (type : Int)
    (hType : type = 0 ∨ value.type = type) :
    kbItemGetSingle (kbItemSet kb name value).2 name type = some ⟨name, value⟩ := by
  rw [kbItemGetSingle_eq, kbItemSet_items, ItemMap.set, Function.update_self, List.find?_cons]
  simp only [hType, decide_true, Option.map_some]

/-- The hashed knowledge base refines the map from names to value lists. The
whole history is simulated by the map, and on every reachable knowledge base
each operation on `n` does to the list of `n` what its name says and nothing
to the list of any other name. -/
theorem kb_refines_item_map (history : List KbOp) (n : CString) :
    let kb := kbAfter history
    kb.items = history.foldl KbOp.applyMap (fun _ => []) ∧
    kb.Placed ∧
    (∀ op : KbOp, op.name = n → ∀ m, m ≠ n → Kb.items (op.apply kb) m = kb.items m) ∧
    (∀ value, kbItemGetSingle (kbItemSet kb n value).2 n value.type = some ⟨n, value⟩ ∧
      kbItemGetSingle (kbItemSet kb n value).2 n 0 = some ⟨n, value⟩) ∧
    (∀ value, value ∈ kb.items n → (kbItemAdd kb n value).2 = kb) ∧
    (∀ value, value ∉ kb.items n →
      Kb.items (kbItemAdd kb n value).2 n = value :: kb.items n) ∧
    Kb.items (kbItemRmAll kb n) n = [] ∧
    kbItemGetAll kb n = ((kb.items n).map (KbItem.mk n)).reverse := by
  intro kb
  refine ⟨foldl_apply_items history kbNew, kbAfter_placed history, ?_, ?_, ?_, ?_, ?_, ?_⟩
  · intro op hName m hm
    rw [KbOp.apply_items]
    exact KbOp.applyMap_other _ op m (hName ▸ hm)
  · intro value
    exact ⟨kbItemGetSingle_set kb n value _ (Or.inr rfl),
      kbItemGetSingle_set kb n value _ (Or.inl rfl)⟩
  · intro value hMem
    rw [kbItemAdd_spec, if_pos hMem]
  · intro value hMem
    rw [kbItemAdd_items, ItemMap.add, if_neg hMem, Function.update_self]
  · rw [kbItemRmAll_items, ItemMap.rmAll, Function.update_self]
  · exact kbItemGetAll_eq kb n

end KnowledgeBase
