import Mathlib.Data.List.Nodup
import Mathlib.Logic.Function.Basic

/-! Chained hash tables in the abstract. A table maps each bucket to a chain of
entries; the entries of one key are those of its own chain that carry it. An
operation on a key rewrites a single chain, and the lemmas here say what it
has to leave alone for the other keys, colliding ones included. -/
namespace ChainTable

variable {Bucket Key Entry : Type*} [DecidableEq Bucket] [DecidableEq Key]
variable (bucketOf : Key → Bucket) (keyOf : Entry → Key)

/-- The entries of a chain that carry `key`, in chain order. -/
def atKey (key : Key) (chain : List Entry) : List Entry :=
  chain.filter fun entry => keyOf entry = key

/-- The entries stored under `key`, in chain order. -/
def entries (table : Bucket → List Entry) (key : Key) : List Entry :=
  atKey keyOf key (table (bucketOf key))

/-- Each entry stands in the chain of its own key. -/
def Placed (table : Bucket → List Entry) : Prop :=
  ∀ bucket, ∀ entry ∈ table bucket, bucketOf (keyOf entry) = bucket

variable {bucketOf keyOf}

theorem mem_atKey {key : Key} {chain : List Entry} {entry : Entry} :
    entry ∈ atKey keyOf key chain ↔ entry ∈ chain ∧ keyOf entry = key := by
  simp [atKey]

@[simp] theorem atKey_nil (key : Key) : atKey keyOf key [] = [] := rfl

theorem atKey_cons_self {key : Key} {entry : Entry} (h : keyOf entry = key)
    (chain : List Entry) :
    atKey keyOf key (entry :: chain) = entry :: atKey keyOf key chain := by
  simp [atKey, h]

theorem atKey_cons_other {key : Key} {entry : Entry} (h : keyOf entry ≠ key)
    (chain : List Entry) :
    atKey keyOf key (entry :: chain) = atKey keyOf key chain := by
  simp [atKey, h]

/-- The entries of the key whose chain was rewritten. -/
theorem entries_update_self (table : Bucket → List Entry) (key : Key) (chain : List Entry) :
    entries bucketOf keyOf (Function.update table (bucketOf key) chain) key =
      atKey keyOf key chain := by
  simp [entries]

/-- Rewriting the chain of `key` keeps the entries of another key, provided
the new chain holds the same entries of that other key. -/
theorem entries_update_other (table : Bucket → List Entry) {key other : Key}
    {chain : List Entry}
    (hKeep : atKey keyOf other chain = atKey keyOf other (table (bucketOf key))) :
    entries bucketOf keyOf (Function.update table (bucketOf key) chain) other =
      entries bucketOf keyOf table other := by
  by_cases h : bucketOf other = bucketOf key
  · simp [entries, h, hKeep]
  · simp [entries, Function.update_of_ne h]

omit [DecidableEq Key] in
theorem Placed.update {table : Bucket → List Entry} (h : Placed bucketOf keyOf table)
    {key : Key} {chain : List Entry}
    (hChain : ∀ entry ∈ chain, keyOf entry = key ∨ entry ∈ table (bucketOf key)) :
    Placed bucketOf keyOf (Function.update table (bucketOf key) chain) := by
  intro bucket entry hEntry
  by_cases hBucket : bucket = bucketOf key
  · subst hBucket
    rw [Function.update_self] at hEntry
    rcases hChain entry hEntry with hKey | hOld
    · rw [hKey]
    · exact h _ entry hOld
  · rw [Function.update_of_ne hBucket] at hEntry
    exact h bucket entry hEntry

omit [DecidableEq Bucket] in
/-- In a placed table a chain repeats no entry exactly when no key stored in
it repeats one. -/
theorem Placed.nodup_iff {table : Bucket → List Entry} (h : Placed bucketOf keyOf table) :
    (∀ bucket, (table bucket).Nodup) ↔ ∀ key, (entries bucketOf keyOf table key).Nodup := by
  constructor
  · intro hAll key
    exact (hAll _).filter _
  · intro hKeys bucket
    rw [List.nodup_iff_sublist]
    intro first hSub
    have hMem : first ∈ table bucket := hSub.subset (by simp)
    have hBucket := h bucket first hMem
    have hFilter := hSub.filter fun entry => keyOf entry = keyOf first
    have hTwice : [first, first].Sublist (entries bucketOf keyOf table (keyOf first)) := by
      simpa [entries, atKey, hBucket] using hFilter
    exact (List.nodup_iff_sublist.mp (hKeys (keyOf first))) first hTwice

end ChainTable
