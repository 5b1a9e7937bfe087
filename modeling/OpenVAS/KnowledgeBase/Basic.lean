import OpenVAS.Lib.CString
import OpenVAS.Lib.ChainTable
import OpenVAS.Lib.Run

/-! The knowledge base of `misc/kb.c`: a fixed array of chains of typed items,
indexed by a hash of the item name. -/
namespace KnowledgeBase

open CString

/-- `KB_TYPE_STR`, which is `ARG_STRING`. -/
def kbTypeStr : Int := 1

/-- `KB_TYPE_INT`, which is `ARG_INT`. -/
def kbTypeInt : Int := 3

/-- The tagged union of an item: its `type` field selects the member of `v`. -/
inductive KbValue where
  | str (vStr : CString)
  | int (vInt : Int32)
  deriving DecidableEq, Repr

def KbValue.type : KbValue → Int
  | .str _ => kbTypeStr
  | .int _ => kbTypeInt

structure KbItem where
  name : CString
  v : KbValue
  deriving DecidableEq, Repr

/-- `HASH_MAX` of `kb.c`. -/
abbrev hashMax : Nat := 65537

/-- Chain index of a name. The accumulator is a 32-bit unsigned int, so the
shifts drop the high bits. -/
def mkkey (name : CString) : Fin hashMax :=
  let h : UInt32 := name.foldl (fun h p => (h <<< 3) + p.toUInt32) 0
  ⟨h.toNat % hashMax, Nat.mod_lt _ (by decide)⟩

/-- A knowledge base: `HASH_MAX` chains, the head of a chain first. -/
abbrev Kb := Fin hashMax → List KbItem

def kbNew : Kb := fun _ => []

/-- The walk of `kb_item_get_single` along one chain; type 0 means any type. -/
def kbItemGetSingle (kb : Kb) (name : CString) (type : Int) : Option KbItem :=
  (kb (mkkey name)).find? fun ret => ret.name = name ∧ (type = 0 ∨ ret.v.type = type)

/-- The copies are prepended one by one, so they come out in reverse chain order. -/
def kbItemGetAll (kb : Kb) (name : CString) : List KbItem :=
  (kb (mkkey name)).foldl (fun ret k => if k.name = name then k :: ret else ret) []

/-- How the walk of `kb_item_addset_*` along a chain ends. -/
inductive Walk where
  | present
  | replaced (chain : List KbItem)
  | absent

/-- The walk goes on to the next item and leaves `item` as it is. -/
def Walk.past (item : KbItem) : Walk → Walk
  | .present => .present
  | .replaced chain => .replaced (item :: chain)
  | .absent => .absent

/-- The common walk of `kb_item_addset_str` and `kb_item_addset_int`. It stops
at the first item of the name that has the value already or, with `replace`,
at the first item of the name at all. -/
def kbItemAddsetWalk (name : CString) (value : KbValue) (replace : Bool) : List KbItem → Walk
  | [] => .absent
  | item :: next =>
      if item.name = name then
        if item.v = value then .present
        else if replace then .replaced ({ item with v := value } :: next)
        else (kbItemAddsetWalk name value replace next).past item
      else (kbItemAddsetWalk name value replace next).past item

/-- The return code of the C function, then the new knowledge base. -/
def kbItemAddset (kb : Kb) (name : CString) (value : KbValue) (replace : Bool) : Int × Kb :=
  let h := mkkey name
  match kbItemAddsetWalk name value replace (kb h) with
  | .present => (-1, kb)
  | .replaced chain => (0, Function.update kb h chain)
  | .absent => (0, Function.update kb h (⟨name, value⟩ :: kb h))

def kbItemAddsetStr (kb : Kb) (name value : CString) (replace : Bool) : Int × Kb :=
  kbItemAddset kb name (.str value) replace

def kbItemAddsetInt (kb : Kb) (name : CString) (value : Int32) (replace : Bool) : Int × Kb :=
  kbItemAddset kb name (.int value) replace

def kbItemAddStr (kb : Kb) (name value : CString) : Int × Kb := kbItemAddsetStr kb name value false

def kbItemSetStr (kb : Kb) (name value : CString) : Int × Kb := kbItemAddsetStr kb name value true

def kbItemAddInt (kb : Kb) (name : CString) (value : Int32) : Int × Kb :=
  kbItemAddsetInt kb name value false

def kbItemSetInt (kb : Kb) (name : CString) (value : Int32) : Int × Kb :=
  kbItemAddsetInt kb name value true

/-- `kb_item_add_str` or `kb_item_add_int`, by the type of the value. -/
def kbItemAdd (kb : Kb) (name : CString) : KbValue → Int × Kb
  | .str value => kbItemAddStr kb name value
  | .int value => kbItemAddInt kb name value

/-- `kb_item_set_str` or `kb_item_set_int`, by the type of the value. -/
def kbItemSet (kb : Kb) (name : CString) : KbValue → Int × Kb
  | .str value => kbItemSetStr kb name value
  | .int value => kbItemSetInt kb name value

/-- The relinking walk of `kb_item_rm_all`: the items of the name are freed. -/
def kbItemRmAllWalk (name : CString) : List KbItem → List KbItem
  | [] => []
  | k :: next =>
      if k.name = name then kbItemRmAllWalk name next
      else k :: kbItemRmAllWalk name next

def kbItemRmAll (kb : Kb) (name : CString) : Kb :=
  Function.update kb (mkkey name) (kbItemRmAllWalk name (kb (mkkey name)))

/-- One call of the operations that change a knowledge base: the two
`kb_item_add_*`, the two `kb_item_set_*` and `kb_item_rm_all`. -/
inductive KbOp where
  | add (name : CString) (value : KbValue)
  | set (name : CString) (value : KbValue)
  | rmAll (name : CString)
  deriving DecidableEq, Repr

def KbOp.name : KbOp → CString
  | .add name _ | .set name _ | .rmAll name => name

def KbOp.apply (kb : Kb) : KbOp → Kb
  | .add name value => (kbItemAdd kb name value).2
  | .set name value => (kbItemSet kb name value).2
  | .rmAll name => kbItemRmAll kb name

/-- The knowledge base that a sequence of calls leaves, starting from `kb_new`. -/
def kbAfter (ops : List KbOp) : Kb := ops.foldl KbOp.apply kbNew

end KnowledgeBase
