import Mathlib.Data.List.Infix
import OpenVAS.Lib.CString

/-! Files and directories, by the names on the way to them from the root. Symbolic links are
entries of their own; no path leads through one. -/
namespace Files

open CString

abbrev Place := List CString

/-- What a component of a path says. -/
inductive Step where
  | stay
  | up
  | down (name : CString)
  deriving DecidableEq

def toStep (part : CString) : Step :=
  if part = [] ∨ part = lit "." then .stay else if part = lit ".." then .up else .down part

def steps (path : CString) : List Step := (path.splitOn (ch '/')).map toStep

def move (place : Place) : Step → Place
  | .stay => place
  | .up => place.dropLast
  | .down name => place ++ [name]

/-- Where a path leads, whatever there is on the way. -/
def resolve (place : Place) (path : List Step) : Place := path.foldl move place

inductive Entry where
  | directory
  | file (bytes : List UInt8)
  | link (target : CString)
  deriving DecidableEq

abbrev Tree := Place → Option Entry

section Walks

variable {tree tree' : Tree} {place q : Place}

/-- Where a path leads if all that it goes through are directories. -/
def walk (tree : Tree) (place : Place) : List Step → Option Place
  | [] => some place
  | step :: rest => if tree place = some .directory then walk tree (move place step) rest else none

theorem walk_eq_some {path : List Step} (h : walk tree place path = some q) :
    q = resolve place path := by
  induction path generalizing place with
  | nil => exact (Option.some_inj.mp h).symm
  | cons step rest ih =>
      rw [walk] at h
      split at h
      · exact ih h
      · cases h

theorem walk_congr (h : ∀ p, tree p = some .directory ↔ tree' p = some .directory)
    (path : List Step) : walk tree place path = walk tree' place path := by
  induction path generalizing place with
  | nil => rfl
  | cons step rest ih => simp only [walk, h, ih]

/-- The place of a file that a path names, in a directory; a directory is no file. -/
def target (tree : Tree) (place : Place) (path : List Step) : Option Place :=
  match path.getLast? with
  | some (.down _) => (walk tree place path).filter fun p => tree p ≠ some .directory
  | _ => none

theorem target_eq_some {path : List Step} (h : target tree place path = some q) :
    q = resolve place path ∧ tree q ≠ some .directory := by
  rw [target] at h
  split at h
  · obtain ⟨hWalk, hEntry⟩ := Option.filter_eq_some_iff.mp h
    exact ⟨walk_eq_some hWalk, of_decide_eq_true hEntry⟩
  · cases h

theorem target_congr (h : ∀ p, tree p = some .directory ↔ tree' p = some .directory)
    (path : List Step) : target tree place path = target tree' place path := by
  rw [target, target, walk_congr h]
  simp only [ne_eq, h]

end Walks

section Changes

variable {tree : Tree} {place p : Place}

def set (tree : Tree) (place : Place) (entry : Entry) : Tree :=
  fun p => if p = place then some entry else tree p

@[simp] theorem set_self (entry : Entry) : set tree place entry place = some entry := if_pos rfl

theorem set_of_ne (h : p ≠ place) (entry : Entry) : set tree place entry p = tree p := if_neg h

/-- A file in the place of something that is no directory changes no directory. -/
theorem set_directory_iff (h : tree place ≠ some .directory) (bytes : List UInt8) (p : Place) :
    set tree place (.file bytes) p = some .directory ↔ tree p = some .directory := by
  rw [set]
  split
  · rename_i hSame
    exact iff_of_false (by simp) (hSame ▸ h)
  · exact Iff.rfl

/-- What stays of a place when it is removed, if some of what is below it is left. -/
def Stays (left : List Place) (place p : Place) : Prop := ∃ rest ∈ left, p <+: place ++ rest

instance (left : List Place) (place p : Place) : Decidable (Stays left place p) :=
  inferInstanceAs (Decidable (∃ rest ∈ left, p <+: place ++ rest))

theorem not_stays_nil : ¬ Stays [] place p := fun ⟨_, hRest, _⟩ => absurd hRest List.not_mem_nil

theorem stays_self {left : List Place} (h : left ≠ []) : Stays left place place := by
  obtain ⟨rest, others, rfl⟩ := List.exists_cons_of_ne_nil h
  exact ⟨rest, List.mem_cons_self, List.prefix_append place rest⟩

/-- Removes a place with all that is below it, but for what is left. -/
def removeRecurse (left : List Place) (place : Place) (tree : Tree) : Tree :=
  fun p => if place <+: p ∧ ¬ Stays left place p then none else tree p

theorem removeRecurse_of_not_below (left : List Place) (h : ¬ place <+: p) :
    removeRecurse left place tree p = tree p := if_neg fun hBelow => h hBelow.1

theorem removeRecurse_of_below {left : List Place} (h : place <+: p) :
    removeRecurse left place tree p = if Stays left place p then tree p else none := by
  rw [removeRecurse]
  by_cases hStays : Stays left place p
  · rw [if_neg fun hGone => hGone.2 hStays, if_pos hStays]
  · rw [if_pos ⟨h, hStays⟩, if_neg hStays]

theorem removeRecurse_nil_of_below (h : place <+: p) : removeRecurse [] place tree p = none :=
  if_pos ⟨h, not_stays_nil⟩

end Changes

section Directories

variable (refuses : Place → Bool)

/-- Makes the directories on the way down the names, and answers whether it got there and which
ones it made. -/
def mkdirWithParents (here : Place) : List CString → Tree → Bool × Tree × List Place
  | [], tree => (true, tree, [])
  | name :: rest, tree =>
      match tree (here ++ [name]) with
      | some .directory => mkdirWithParents (here ++ [name]) rest tree
      | some _ => (false, tree, [])
      | none =>
          if refuses (here ++ [name]) then (false, tree, [])
          else
            let (done, after, made) :=
              mkdirWithParents (here ++ [name]) rest (set tree (here ++ [name]) .directory)
            (done, after, (here ++ [name]) :: made)

/-- There is a directory, or one can be made. -/
def Passable (tree : Tree) (p : Place) : Prop :=
  tree p = some .directory ∨ (tree p = none ∧ refuses p = false)

instance (tree : Tree) (p : Place) : Decidable (Passable refuses tree p) :=
  inferInstanceAs (Decidable (_ ∨ _))

/-- A missing directory that is made on the way down the names. -/
def Made (tree : Tree) (here : Place) (names : List CString) (p : Place) : Prop :=
  tree p = none ∧ ∃ front, front <+: names ∧ front ≠ [] ∧ p = here ++ front ∧
    ∀ before, before <+: front → before ≠ [] → Passable refuses tree (here ++ before)

variable {refuses} {tree tree' : Tree} {here p : Place} {name : CString} {rest : List CString}

theorem made_nil : ¬ Made refuses tree here [] p := by
  rintro ⟨-, front, hFront, hNe, -⟩
  exact hNe (List.prefix_nil.mp hFront)

theorem made_cons : Made refuses tree here (name :: rest) p ↔
    Passable refuses tree (here ++ [name]) ∧
      ((p = here ++ [name] ∧ tree p = none) ∨ Made refuses tree (here ++ [name]) rest p) := by
  constructor
  · rintro ⟨hMissing, front, hFront, hNe, rfl, hPassable⟩
    rcases List.prefix_cons_iff.mp hFront with rfl | ⟨front, rfl, hRest⟩
    · exact absurd rfl hNe
    refine ⟨hPassable [name] (List.prefix_append [name] front) (List.cons_ne_nil _ _), ?_⟩
    rcases eq_or_ne front [] with rfl | hFrontNe
    · exact .inl ⟨rfl, hMissing⟩
    refine .inr ⟨hMissing, front, hRest, hFrontNe, by simp, fun before hBefore hBeforeNe => ?_⟩
    rw [List.append_assoc]
    exact hPassable (name :: before) (List.prefix_cons_inj name |>.mpr hBefore) (List.cons_ne_nil _ _)
  · rintro ⟨hHere, ⟨rfl, hMissing⟩ | ⟨hMissing, front, hFront, hNe, rfl, hPassable⟩⟩
    · refine ⟨hMissing, [name], List.prefix_append [name] rest, List.cons_ne_nil _ _, rfl, ?_⟩
      intro before hBefore hBeforeNe
      rcases List.prefix_cons_iff.mp hBefore with rfl | ⟨front, rfl, hFront⟩
      · exact absurd rfl hBeforeNe
      · rw [List.prefix_nil.mp hFront]
        exact hHere
    · refine ⟨hMissing, name :: front, List.prefix_cons_inj name |>.mpr hFront,
        List.cons_ne_nil _ _, by simp, fun before hBefore hBeforeNe => ?_⟩
      rcases List.prefix_cons_iff.mp hBefore with rfl | ⟨before, rfl, hTail⟩
      · exact absurd rfl hBeforeNe
      · rcases eq_or_ne before [] with rfl | hNe'
        · exact hHere
        · have hNext := hPassable before hTail hNe'
          rwa [List.append_assoc] at hNext

theorem made_congr (h : ∀ q, here <+: q → q ≠ here → tree q = tree' q) :
    Made refuses tree here rest p ↔ Made refuses tree' here rest p := by
  have hSame : ∀ front : List CString, front ≠ [] → tree (here ++ front) = tree' (here ++ front) :=
    fun front hNe => h _ (List.prefix_append here front) fun hSame => hNe (by simpa using hSame)
  constructor
  · rintro ⟨hMissing, front, hFront, hNe, rfl, hPassable⟩
    refine ⟨hSame front hNe ▸ hMissing, front, hFront, hNe, rfl, fun before hBefore hBeforeNe => ?_⟩
    rw [Passable, ← hSame before hBeforeNe]
    exact hPassable before hBefore hBeforeNe
  · rintro ⟨hMissing, front, hFront, hNe, rfl, hPassable⟩
    refine ⟨hSame front hNe ▸ hMissing, front, hFront, hNe, rfl, fun before hBefore hBeforeNe => ?_⟩
    rw [Passable, hSame before hBeforeNe]
    exact hPassable before hBefore hBeforeNe

theorem mkdirWithParents_cases (here : Place) (name : CString) (rest : List CString) (tree : Tree) :
    (tree (here ++ [name]) = some .directory ∧
      mkdirWithParents refuses here (name :: rest) tree =
        mkdirWithParents refuses (here ++ [name]) rest tree) ∨
    (¬ Passable refuses tree (here ++ [name]) ∧
      mkdirWithParents refuses here (name :: rest) tree = (false, tree, [])) ∨
    (tree (here ++ [name]) = none ∧ refuses (here ++ [name]) = false ∧
      ∃ done after made, mkdirWithParents refuses (here ++ [name]) rest
          (set tree (here ++ [name]) .directory) = (done, after, made) ∧
        mkdirWithParents refuses here (name :: rest) tree =
          (done, after, (here ++ [name]) :: made)) := by
  rw [mkdirWithParents]
  cases hEntry : tree (here ++ [name]) with
  | some entry =>
      cases entry with
      | directory => exact .inl ⟨rfl, rfl⟩
      | file bytes => exact .inr (.inl ⟨by simp [Passable, hEntry], rfl⟩)
      | link target => exact .inr (.inl ⟨by simp [Passable, hEntry], rfl⟩)
  | none =>
      cases hRefuses : refuses (here ++ [name]) with
      | true => exact .inr (.inl ⟨by simp [Passable, hEntry, hRefuses], by simp⟩)
      | false => exact .inr (.inr ⟨rfl, rfl, _, _, _, rfl, by simp⟩)

/-- A directory made on the way does not change what is made behind it. -/
theorem made_set : Made refuses (set tree here .directory) here rest p ↔
    Made refuses tree here rest p :=
  made_congr fun _ _ hNe => set_of_ne hNe _

theorem mem_made_iff (names : List CString) :
    p ∈ (mkdirWithParents refuses here names tree).2.2 ↔ Made refuses tree here names p := by
  induction names generalizing here tree with
  | nil => exact iff_of_false List.not_mem_nil made_nil
  | cons name rest ih =>
      rw [made_cons]
      rcases mkdirWithParents_cases here name rest tree with ⟨hEntry, hEq⟩ | ⟨hBlocked, hEq⟩ |
        ⟨hMissing, hRefuses, done, after, made, hRest, hEq⟩
      · rw [hEq, ih]
        constructor
        · exact fun h => ⟨.inl hEntry, .inr h⟩
        · rintro ⟨-, ⟨rfl, hNone⟩ | h⟩
          · rw [hEntry] at hNone
            cases hNone
          · exact h
      · rw [hEq]
        exact iff_of_false List.not_mem_nil fun h => hBlocked h.1
      · have hMade := @ih (set tree (here ++ [name]) .directory) (here ++ [name])
        rw [hRest, made_set] at hMade
        rw [hEq, List.mem_cons, hMade]
        constructor
        · rintro (rfl | h)
          · exact ⟨.inr ⟨hMissing, hRefuses⟩, .inl ⟨rfl, hMissing⟩⟩
          · exact ⟨.inr ⟨hMissing, hRefuses⟩, .inr h⟩
        · rintro ⟨-, ⟨rfl, -⟩ | h⟩
          · exact .inl rfl
          · exact .inr h

/-- There is a directory in every place where one is made, and no other change. -/
theorem mkdirWithParents_tree (names : List CString) :
    (mkdirWithParents refuses here names tree).2.1 p =
      if p ∈ (mkdirWithParents refuses here names tree).2.2 then some .directory else tree p := by
  induction names generalizing here tree with
  | nil => rfl
  | cons name rest ih =>
      rcases mkdirWithParents_cases here name rest tree with ⟨hEntry, hEq⟩ | ⟨hBlocked, hEq⟩ |
        ⟨hMissing, hRefuses, done, after, made, hRest, hEq⟩
      · rw [hEq, ih]
      · rw [hEq]
        rfl
      · have hTree := @ih (set tree (here ++ [name]) .directory) (here ++ [name])
        simp only [hRest] at hTree
        rw [hEq]
        simp only [List.mem_cons, hTree]
        by_cases hSame : p = here ++ [name]
        · simp [hSame]
        · simp [hSame, set_of_ne]

theorem mkdirWithParents_done (names : List CString) :
    (mkdirWithParents refuses here names tree).1 = true ↔
      ∀ before, before <+: names → before ≠ [] → Passable refuses tree (here ++ before) := by
  induction names generalizing here tree with
  | nil => exact iff_of_true rfl fun before hBefore hNe => absurd (List.prefix_nil.mp hBefore) hNe
  | cons name rest ih =>
      have hCons : (∀ before, before <+: name :: rest → before ≠ [] →
            Passable refuses tree (here ++ before)) ↔
          Passable refuses tree (here ++ [name]) ∧ ∀ before, before <+: rest → before ≠ [] →
            Passable refuses tree (here ++ [name] ++ before) := by
        constructor
        · intro h
          refine ⟨h [name] (List.prefix_append [name] rest) (List.cons_ne_nil _ _), ?_⟩
          intro before hBefore _
          rw [List.append_assoc]
          exact h (name :: before) (List.prefix_cons_inj name |>.mpr hBefore) (List.cons_ne_nil _ _)
        · rintro ⟨hHere, hRest⟩ before hBefore hNe
          rcases List.prefix_cons_iff.mp hBefore with rfl | ⟨tail, rfl, hTail⟩
          · exact absurd rfl hNe
          · rcases eq_or_ne tail [] with rfl | hTailNe
            · exact hHere
            · have hNext := hRest tail hTail hTailNe
              rwa [List.append_assoc] at hNext
      rw [hCons]
      rcases mkdirWithParents_cases here name rest tree with ⟨hEntry, hEq⟩ | ⟨hBlocked, hEq⟩ |
        ⟨hMissing, hRefuses, done, after, made, hRest, hEq⟩
      · rw [hEq, ih]
        exact (and_iff_right (.inl hEntry)).symm
      · rw [hEq]
        exact iff_of_false Bool.false_ne_true fun h => hBlocked h.1
      · have hDone := @ih (set tree (here ++ [name]) .directory) (here ++ [name])
        rw [hRest] at hDone
        rw [hEq, hDone, and_iff_right (.inr ⟨hMissing, hRefuses⟩)]
        have hSame : ∀ before : List CString, before ≠ [] →
            set tree (here ++ [name]) .directory (here ++ [name] ++ before) =
              tree (here ++ [name] ++ before) :=
          fun before hNe => set_of_ne (fun h => hNe (by simpa using h)) _
        refine forall_congr' fun before => imp_congr_right fun _ => forall_congr' fun hNe => ?_
        rw [Passable, Passable, hSame before hNe]

end Directories

end Files
