import Mathlib.Data.List.Nodup
import Mathlib.Logic.Function.Basic

/-! Doubly linked lists in memory. Several lists, each with a pointer to its first cell, share
the cells; a cell is put in front of a list and taken out of its middle by changing pointers. -/
namespace LinkedLists

variable {ι α : Type*}

/-- The first cells of the lists and the pointers of the cells; `none` is NULL. -/
structure Store (ι α : Type*) where
  head : ι → Option α
  next : α → Option α
  prev : α → Option α

def Store.empty : Store ι α := ⟨fun _ => none, fun _ => none, fun _ => none⟩

section Operations

variable [DecidableEq ι] [DecidableEq α]

/-- A new cell in front of a list. -/
def pushFront (s : Store ι α) (i : ι) (a : α) : Store ι α where
  head := Function.update s.head i (some a)
  next := Function.update s.next a (s.head i)
  prev :=
    match s.head i with
    | none => Function.update s.prev a none
    | some b => Function.update (Function.update s.prev a none) b (some a)

/-- The cells around a cell are joined. -/
def unlink (s : Store ι α) (i : ι) (a : α) : Store ι α where
  head :=
    match s.prev a with
    | none => Function.update s.head i (s.next a)
    | some _ => s.head
  next :=
    match s.prev a with
    | none => s.next
    | some b => Function.update s.next b (s.next a)
  prev :=
    match s.next a with
    | none => s.prev
    | some c => Function.update s.prev c (s.prev a)

/-- The walk along a list that takes out cells. The fuel bounds its steps. -/
def removeWhere (drop : α → Bool) (i : ι) : Nat → Option α → Store ι α → Option (Store ι α)
  | _, none, s => some s
  | 0, some _, _ => none
  | fuel + 1, some a, s =>
      if drop a then removeWhere drop i fuel (s.next a) (unlink s i a)
      else removeWhere drop i fuel (s.next a) s

end Operations

/-- The cells `xs` follow each other from the pointer `here` to the pointer `stop`, and the
first of them points back to `before`. -/
def Segment (s : Store ι α) : Option α → Option α → List α → Option α → Prop
  | _, here, [], stop => here = stop
  | before, here, a :: rest, stop =>
      here = some a ∧ s.prev a = before ∧ Segment s (some a) (s.next a) rest stop

theorem Segment.head {s : Store ι α} {before here stop : Option α} {xs : List α}
    (h : Segment s before here xs stop) : here = xs.head?.or stop := by
  cases xs with
  | nil => exact h
  | cons a rest => exact h.1

/-- Only the pointers of its own cells matter to a segment. -/
theorem Segment.congr {s s' : Store ι α} {before here stop : Option α} {xs : List α}
    (h : Segment s before here xs stop)
    (hSame : ∀ x ∈ xs, s'.next x = s.next x ∧ s'.prev x = s.prev x) :
    Segment s' before here xs stop := by
  induction xs generalizing before here with
  | nil => exact h
  | cons a rest ih =>
      obtain ⟨hHere, hPrev, hRest⟩ := h
      obtain ⟨hNext, hBack⟩ := hSame a (by simp)
      refine ⟨hHere, hBack.trans hPrev, ?_⟩
      rw [hNext]
      exact ih hRest fun x hx => hSame x (List.mem_cons_of_mem _ hx)

theorem segment_append {s : Store ι α} {before here stop : Option α} {xs ys : List α} :
    Segment s before here (xs ++ ys) stop ↔
      Segment s before here xs (ys.head?.or stop) ∧
        Segment s (xs.getLast?.or before) (ys.head?.or stop) ys stop := by
  induction xs generalizing before here with
  | nil =>
      constructor
      · intro h
        have hHere := Segment.head h
        subst hHere
        exact ⟨rfl, h⟩
      · rintro ⟨hHere, hRest⟩
        rw [List.nil_append, show here = _ from hHere]
        exact hRest
  | cons a rest ih =>
      have hLast : (a :: rest).getLast?.or before = rest.getLast?.or (some a) := by
        rw [List.getLast?_cons]
        cases rest.getLast? with
        | none => rfl
        | some b => rfl
      rw [List.cons_append, Segment, Segment, ih, hLast, and_assoc, and_assoc]

/-- The lists that the pointers stand for. -/
structure Represents (s : Store ι α) (lists : ι → List α) : Prop where
  linked : ∀ i, Segment s none (s.head i) (lists i) none
  nodup : ∀ i, (lists i).Nodup
  disjoint : ∀ i j, i ≠ j → ∀ a ∈ lists i, a ∉ lists j

theorem Represents.head_eq {s : Store ι α} {lists : ι → List α} (h : Represents s lists) (i : ι) :
    s.head i = (lists i).head? := by
  rw [(h.linked i).head, Option.or_none]

theorem Represents.head_mem {s : Store ι α} {lists : ι → List α} (h : Represents s lists) {i : ι}
    {a : α} (hHead : s.head i = some a) : a ∈ lists i :=
  List.mem_of_mem_head? (by rw [← h.head_eq i, hHead]; rfl)

theorem represents_empty : Represents (Store.empty : Store ι α) fun _ => [] where
  linked _ := rfl
  nodup _ := List.nodup_nil
  disjoint _ _ _ _ h := absurd h List.not_mem_nil

variable [DecidableEq ι] [DecidableEq α]

/-- A cell that is in no list may go in front of one. -/
theorem Represents.pushFront {s : Store ι α} {lists : ι → List α} (h : Represents s lists) (i : ι)
    {a : α} (hNew : ∀ j, a ∉ lists j) :
    Represents (pushFront s i a) (Function.update lists i (a :: lists i)) := by
  have hOther : ∀ j x, x ∈ lists j → (j = i → s.head i ≠ some x) →
      (LinkedLists.pushFront s i a).next x = s.next x ∧
        (LinkedLists.pushFront s i a).prev x = s.prev x := by
    intro j x hx hHead
    have hx' : x ≠ a := fun hEq => hNew j (hEq ▸ hx)
    refine ⟨Function.update_of_ne hx' _ _, ?_⟩
    cases hi : s.head i with
    | none => simp [LinkedLists.pushFront, hi, hx']
    | some b =>
        have hb : x ≠ b := by
          rintro rfl
          by_cases hj : j = i
          · exact hHead hj hi
          · exact h.disjoint j i hj x hx (h.head_mem hi)
        simp [LinkedLists.pushFront, hi, hx', hb]
  refine ⟨fun j => ?_, fun j => ?_, fun j k hjk x hx => ?_⟩
  · by_cases hj : j = i
    · subst hj
      rw [Function.update_self]
      refine ⟨Function.update_self .., ?_, ?_⟩
      · cases hHead : s.head j with
        | none => simp [LinkedLists.pushFront, hHead]
        | some b =>
            have hb : a ≠ b := fun hEq => hNew j (hEq ▸ h.head_mem hHead)
            simp [LinkedLists.pushFront, hHead, hb]
      · have hNext : (LinkedLists.pushFront s j a).next a = s.head j := Function.update_self ..
        have hLinked := h.linked j
        have hNodup := h.nodup j
        rw [hNext]
        cases hList : lists j with
        | nil => rwa [hList] at hLinked
        | cons b rest =>
            rw [hList] at hLinked hNodup
            obtain ⟨hHead, -, hRest⟩ := hLinked
            have hb : b ≠ a := fun hEq => hNew j (by simp [hList, hEq])
            refine ⟨hHead, by simp [LinkedLists.pushFront, hHead], ?_⟩
            rw [show (LinkedLists.pushFront s j a).next b = s.next b from Function.update_of_ne hb _ _]
            refine hRest.congr fun x hx => hOther j x (by simp [hList, hx]) fun _ hEq => ?_
            obtain rfl := Option.some.inj (hHead.symm.trans hEq)
            exact (List.nodup_cons.mp hNodup).1 hx
    · rw [Function.update_of_ne hj]
      rw [show (LinkedLists.pushFront s i a).head j = s.head j from Function.update_of_ne hj _ _]
      exact (h.linked j).congr fun x hx => hOther j x hx fun hEq => absurd hEq hj
  · by_cases hj : j = i
    · subst hj
      rw [Function.update_self]
      exact List.nodup_cons.mpr ⟨hNew j, h.nodup j⟩
    · rw [Function.update_of_ne hj]
      exact h.nodup j
  · by_cases hj : j = i
    · subst hj
      rw [Function.update_self] at hx
      rw [Function.update_of_ne (Ne.symm hjk)]
      rcases List.mem_cons.mp hx with rfl | hMem
      · exact hNew k
      · exact h.disjoint j k hjk x hMem
    · rw [Function.update_of_ne hj] at hx
      by_cases hk : k = i
      · subst hk
        rw [Function.update_self, List.mem_cons, not_or]
        exact ⟨fun hEq => hNew j (hEq ▸ hx), h.disjoint j k hjk x hx⟩
      · rw [Function.update_of_ne hk]
        exact h.disjoint j k hjk x hx

/-- The pointers that change when a cell is taken out. -/
theorem unlink_segment {s : Store ι α} {i : ι} {a : α} {kept rest : List α}
    (h : Segment s none (s.head i) (kept ++ a :: rest) none) (hNodup : (kept ++ a :: rest).Nodup) :
    Segment (unlink s i a) none ((unlink s i a).head i) (kept ++ rest) none ∧
      (∀ j, j ≠ i → (unlink s i a).head j = s.head j) ∧
      ∀ x, x ∉ kept ++ a :: rest →
        (unlink s i a).next x = s.next x ∧ (unlink s i a).prev x = s.prev x := by
  obtain ⟨hKept, hHere⟩ := segment_append.mp h
  obtain ⟨-, hPrev, hRest⟩ := hHere
  rw [Option.or_none] at hPrev
  have hNext : s.next a = rest.head? := by rw [hRest.head, Option.or_none]
  obtain ⟨hKeptNodup, hRestNodup, hApart⟩ := List.nodup_append'.mp hNodup
  -- A cell of the front keeps its back pointer, one behind `a` its forward pointer.
  have hPrevSame : ∀ x, x ∉ rest → (unlink s i a).prev x = s.prev x := by
    intro x hx
    cases rest with
    | nil => simp [unlink, hNext]
    | cons c rest =>
        have hc : x ≠ c := fun hEq => hx (by simp [hEq])
        simp [unlink, hNext, hc]
  have hNextSame : ∀ x, x ∉ kept → (unlink s i a).next x = s.next x := by
    intro x hx
    cases hLast : kept.getLast? with
    | none => simp [unlink, hPrev, hLast]
    | some b =>
        have hb : x ≠ b := fun hEq => hx (hEq ▸ List.mem_of_getLast? hLast)
        simp [unlink, hPrev, hLast, hb]
  have hNotKept : ∀ x ∈ rest, x ∉ kept := fun x hx hk => hApart hk (List.mem_cons_of_mem _ hx)
  refine ⟨segment_append.mpr ⟨?_, ?_⟩, fun j hj => ?_, fun x hx => ?_⟩
  · -- The front now ends at what stood behind `a`.
    rw [Option.or_none]
    rcases List.eq_nil_or_concat kept with rfl | ⟨front, b, rfl⟩
    · simp [Segment, unlink, hPrev, hNext]
    · have hHead : (unlink s i a).head i = s.head i := by simp [unlink, hPrev]
      rw [List.concat_eq_append] at *
      obtain ⟨hFront, hHere, hBack, -⟩ := segment_append.mp hKept
      have hFrontNodup := List.nodup_append'.mp hKeptNodup
      rw [hHead]
      refine segment_append.mpr ⟨?_, rfl, ?_, ?_⟩
      · refine hFront.congr fun x hx => ⟨?_, hPrevSame x fun hr => hNotKept x hr (by simp [hx])⟩
        have hb : x ≠ b := by
          rintro rfl
          exact hFrontNodup.2.2 hx (by simp)
        simp [unlink, hPrev, hb]
      · rw [hPrevSame b fun hr => hNotKept b hr (by simp)]
        exact hBack
      · simp [Segment, unlink, hPrev, hNext]
  · -- What stood behind `a` now points back to the front.
    rw [Option.or_none, Option.or_none]
    cases rest with
    | nil => rfl
    | cons c rest =>
        obtain ⟨-, -, hTail⟩ := hRest
        obtain ⟨hcNotMem, -⟩ := List.nodup_cons.mp (List.nodup_cons.mp hRestNodup).2
        refine ⟨rfl, by simp [unlink, hNext, hPrev], ?_⟩
        rw [hNextSame c (hNotKept c (by simp))]
        refine hTail.congr fun x hx => ⟨hNextSame x (hNotKept x (by simp [hx])), ?_⟩
        have hc : x ≠ c := fun hEq => hcNotMem (hEq ▸ hx)
        simp [unlink, hNext, hc]
  · cases hBefore : s.prev a with
    | none => simp [unlink, hBefore, hj]
    | some b => simp [unlink, hBefore]
  · simp only [List.mem_append, List.mem_cons, not_or] at hx
    exact ⟨hNextSame x hx.1, hPrevSame x hx.2.2⟩

/-- A cell is taken out of its list, and the others stay as they are. -/
theorem Represents.unlink {s : Store ι α} {lists : ι → List α} (h : Represents s lists) {i : ι}
    {a : α} {kept rest : List α} (hList : lists i = kept ++ a :: rest) :
    Represents (unlink s i a) (Function.update lists i (kept ++ rest)) := by
  have hLinked := h.linked i
  have hNodup := h.nodup i
  rw [hList] at hLinked hNodup
  obtain ⟨hHere, hHead, hSame⟩ := unlink_segment hLinked hNodup
  have hSub : (kept ++ rest).Sublist (lists i) := by
    rw [hList]
    exact (List.Sublist.refl kept).append (List.sublist_cons_self a rest)
  have hMem : ∀ j x, x ∈ Function.update lists i (kept ++ rest) j → x ∈ lists j := by
    intro j x hx
    by_cases hj : j = i
    · subst hj
      rw [Function.update_self] at hx
      exact hSub.subset hx
    · rwa [Function.update_of_ne hj] at hx
  refine ⟨fun j => ?_, fun j => ?_, fun j k hjk x hx hk => ?_⟩
  · by_cases hj : j = i
    · subst hj
      rwa [Function.update_self]
    · rw [Function.update_of_ne hj, hHead j hj]
      refine (h.linked j).congr fun x hx => hSame x ?_
      rw [← hList]
      exact h.disjoint j i hj x hx
  · by_cases hj : j = i
    · subst hj
      rw [Function.update_self]
      exact (h.nodup j).sublist hSub
    · rw [Function.update_of_ne hj]
      exact h.nodup j
  · exact h.disjoint j k hjk x (hMem j x hx) (hMem k x hk)

/-- The walk ends and leaves the cells that are not to be dropped, in their order. -/
theorem Represents.removeWhere {s : Store ι α} {lists : ι → List α} (h : Represents s lists)
    (drop : α → Bool) {i : ι} {kept rest : List α} (hList : lists i = kept ++ rest) {fuel : Nat}
    (hFuel : rest.length ≤ fuel) :
    ∃ s', removeWhere drop i fuel rest.head? s = some s' ∧
      Represents s' (Function.update lists i (kept ++ rest.filter fun a => !drop a)) := by
  induction rest generalizing s lists kept fuel with
  | nil =>
      have hSame : Function.update lists i (kept ++ List.filter (fun a => !drop a) []) = lists := by
        rw [List.filter_nil, ← hList, Function.update_eq_self]
      refine ⟨s, by cases fuel <;> rfl, ?_⟩
      rwa [hSame]
  | cons a rest ih =>
      cases fuel with
      | zero => simp at hFuel
      | succ fuel =>
          have hShort : rest.length ≤ fuel := Nat.le_of_succ_le_succ hFuel
          have hNext : s.next a = rest.head? := by
            have hLinked := h.linked i
            rw [hList] at hLinked
            obtain ⟨-, -, -, hRest⟩ := segment_append.mp hLinked
            rw [hRest.head, Option.or_none]
          rw [List.head?_cons, LinkedLists.removeWhere, hNext]
          cases hDrop : drop a with
          | true =>
              obtain ⟨s', hEq, hRep⟩ := ih (h.unlink hList) (Function.update_self ..) hShort
              refine ⟨s', by simpa using hEq, ?_⟩
              rw [Function.update_idem] at hRep
              simpa [hDrop] using hRep
          | false =>
              have hList' : lists i = (kept ++ [a]) ++ rest := by rw [hList]; simp
              obtain ⟨s', hEq, hRep⟩ := ih h hList' hShort
              refine ⟨s', by simpa using hEq, ?_⟩
              simpa [hDrop] using hRep

end LinkedLists
