import OpenVAS.Passwords.Search

/-! What the lines of a policy say, and the passwords that are accepted. -/
namespace Passwords

open CString Lines Stdio

/-- What a line of a policy asks for. -/
inductive Rule where
  | nothing
  | search (fname : CString)
  | username
  | unknown
  | regex (rev : Bool) (pattern : CString)
  | word (text : CString)
  deriving DecidableEq

def Rule.ofLine (line : CString) : Rule :=
  let line := line.dropWhile gAsciiIsspace
  if line = [] then .nothing
  else if line.take 2 = lit "#+" then
    if (isKeyword (line.drop 2) (lit "desc")).isSome ∨ (isKeyword (line.drop 2) (lit "nodesc")).isSome then
      .nothing
    else
      match isKeyword (line.drop 2) (lit "search") with
      | some fname => .search fname
      | none => if (isKeyword (line.drop 2) (lit "username")).isSome then .username else .unknown
  else if line.take 1 = lit "#" then .nothing
  else if line.take 1 = lit "/" ∨ line.take 2 = lit "!/" then
    let rev : Bool := line.take 1 = lit "!"
    let line := line.drop (if rev then 2 else 1)
    .regex rev (if line.getLast? = some (ch '/') then line.dropLast else line)
  else .word line

/-- Whether a rule rejects a password, `hits` being the files that a search for it hits. -/
def Rule.Rejects (env : Env) (hits : CString → Prop) (password : CString) (username : Option CString) :
    Rule → Prop
  | .nothing => False
  | .search fname => hits fname
  | .username => ∃ u, username = some u ∧
      (strcaseeq password u = true ∨ u <:+: password ∨ password <:+: u)
  | .unknown => True
  | .regex rev pattern => env.regexMatch pattern password ≠ rev
  | .word text => strcaseeq text password = true

/-- A line is passed over exactly when its rule does not reject the password. -/
theorem parsePatternLine_none_iff (env : Env) (line fname : CString) (lineno : Nat)
    (desc : Option CString) (password : CString) (username : Option CString) :
    (parsePatternLine env line fname lineno desc password username).1 = none ↔
      ¬ (Rule.ofLine line).Rejects env (fun p => searchFile env p password ≠ 0) password username := by
  unfold parsePatternLine Rule.ofLine
  dsimp only
  generalize line.dropWhile gAsciiIsspace = line
  by_cases hEmpty : line = []
  · rw [if_pos hEmpty, if_pos hEmpty]
    simp [Rule.Rejects]
  · rw [if_neg hEmpty, if_neg hEmpty]
    by_cases hInstruction : line.take 2 = lit "#+"
    · rw [if_pos hInstruction, if_pos hInstruction]
      cases hDesc : isKeyword (line.drop 2) (lit "desc") with
      | some p => simp [Rule.Rejects]
      | none =>
          cases hNodesc : isKeyword (line.drop 2) (lit "nodesc") with
          | some p => simp [Rule.Rejects]
          | none =>
              cases hSearch : isKeyword (line.drop 2) (lit "search") with
              | some p =>
                  dsimp only
                  by_cases hFailed : searchFile env p password = -1
                  · simp [hFailed, Rule.Rejects]
                  · by_cases hFound : searchFile env p password = 0
                    · simp [hFound, Rule.Rejects]
                    · simp [hFailed, hFound, Rule.Rejects]
              | none =>
                  cases hUsername : isKeyword (line.drop 2) (lit "username") with
                  | none => simp [Rule.Rejects]
                  | some p =>
                      cases username with
                      | none => simp [Rule.Rejects]
                      | some u =>
                          simp only [Rule.Rejects, Option.isSome_none, Option.isSome_some, or_self,
                            Bool.false_eq_true, if_false, if_true, strstr_isSome_iff,
                            Option.some.injEq, exists_eq_left']
                          by_cases hSame : strcaseeq password u = true
                          · simp [hSame]
                          · by_cases hPart : u <:+: password
                            · simp [hSame, hPart]
                            · by_cases hWhole : password <:+: u
                              · simp [hSame, hPart, hWhole]
                              · simp [hSame, hPart, hWhole]
    · rw [if_neg hInstruction, if_neg hInstruction]
      by_cases hComment : line.take 1 = lit "#"
      · rw [if_pos hComment, if_pos hComment]
        simp [Rule.Rejects]
      · rw [if_neg hComment, if_neg hComment]
        by_cases hRegex : line.take 1 = lit "/" ∨ line.take 2 = lit "!/"
        · rw [if_pos hRegex, if_pos hRegex, Rule.Rejects]
          generalize decide (line.take 1 = lit "!") = rev
          cases env.regexMatch _ password <;> cases rev <;> simp
        · rw [if_neg hRegex, if_neg hRegex, Rule.Rejects]
          by_cases hSame : strcaseeq line password = true
          · simp [hSame]
          · simp [hSame]

/-! One line of the policy. -/

section line

variable (env : Env) (patternfile password : CString) (username : Option CString) {fp : Stream}
  (lineno : Nat) (desc : Option CString)

theorem policyLoop_none (h : fgets 255 fp = none) :
    policyLoop env patternfile password username fp lineno desc = none := by
  rw [policyLoop]
  split
  · rfl
  · rename_i hSome
    exact absurd (h.symm.trans hSome) (by simp)

theorem policyLoop_some {buffer : List UInt8} {next : Stream} (h : fgets 255 fp = some (buffer, next)) :
    policyLoop env patternfile password username fp lineno desc =
      if cText buffer = [] ∨ (cText buffer).getLast? ≠ some (ch '\n') then some policyCheckingFailed
      else
        match parsePatternLine env (chopCr (cText buffer).dropLast) patternfile (lineno + 1) desc
            password username with
        | (some ret, _) => some ret
        | (none, desc) => policyLoop env patternfile password username next (lineno + 1) desc := by
  rw [policyLoop]
  split
  · rename_i hNone
    exact absurd (h.symm.trans hNone) (by simp)
  · rename_i buffer' next' hSome
    obtain ⟨rfl, rfl⟩ := Prod.mk.inj (Option.some.inj (h.symm.trans hSome))
    rfl

end line

/-- A line of a policy that is read as it is. -/
def Readable (line : CString) : Prop := line.length < 254 ∧ (0 : UInt8) ∉ line

instance (line : CString) : Decidable (Readable line) := inferInstanceAs (Decidable (_ ∧ _))

/-- The policy is passed exactly when all its terminated lines are read and do not reject the
password, and nothing, or a read error, is behind them. -/
theorem policyLoop_none_iff (env : Env) (patternfile password : CString) (username : Option CString)
    {ls : List CString} (hLines : ∀ l ∈ ls, ch '\n' ∉ l) {last : CString} (hLast : ch '\n' ∉ last)
    (failed : Bool) (lineno : Nat) (desc : Option CString) :
    policyLoop env patternfile password username ⟨unlines (ch '\n') ls ++ last, failed⟩ lineno desc =
        none ↔
      (∀ l ∈ ls, Readable l ∧ ¬ (Rule.ofLine (chopCr l)).Rejects env
        (fun p => searchFile env p password ≠ 0) password username) ∧
        (last = [] ∨ failed = true ∧ last.length < 254) := by
  induction ls generalizing lineno desc with
  | nil =>
      rw [unlines_nil, List.nil_append]
      by_cases hNil : last = []
      · rw [hNil, policyLoop_none _ _ _ _ _ _ (fgets_nil 255 failed)]
        simp
      · by_cases hStop : failed = true ∧ last.length < 254
        · rw [hStop.1, policyLoop_none _ _ _ _ _ _ (fgets_failed hLast hStop.2)]
          simp [hStop.2]
        · have hRead : failed = false ∨ 255 - 1 ≤ last.length := by
            cases failed with
            | false => exact Or.inl rfl
            | true => exact Or.inr (Nat.le_of_not_lt fun hShort => hStop ⟨rfl, hShort⟩)
          have hFree : ch '\n' ∉ last.take (255 - 1) := fun hMem => hLast (List.mem_of_mem_take hMem)
          rw [policyLoop_some _ _ _ _ _ _ (fgets_last hLast hNil (by decide) hRead),
            if_pos (Or.inr (cText_getLast_of_not_mem hFree))]
          exact iff_of_false (by simp) fun h => h.2.elim hNil hStop
  | cons l ls ih =>
      have hLine := hLines l List.mem_cons_self
      have hRest := ih fun m hm => hLines m (List.mem_cons_of_mem l hm)
      rw [unlines_cons, List.append_assoc, List.cons_append, List.forall_mem_cons]
      by_cases hLong : 254 ≤ l.length
      · have hFree : ch '\n' ∉ l.take (255 - 1) := fun hMem => hLine (List.mem_of_mem_take hMem)
        rw [policyLoop_some _ _ _ _ _ _ (fgets_long hLine (by decide) (by omega) _ failed),
          if_pos (Or.inr (cText_getLast_of_not_mem hFree))]
        exact iff_of_false (by simp) fun h => absurd h.1.1.1.1 (Nat.not_lt.mpr hLong)
      · have hRead := @fgets_line l hLine 255 (by omega) (unlines (ch '\n') ls ++ last) failed
        rw [policyLoop_some _ _ _ _ _ _ hRead]
        by_cases hZero : (0 : UInt8) ∈ l
        · rw [if_pos (Or.inr (cText_getLast hLine hZero))]
          exact iff_of_false (by simp) fun h => h.1.1.1.2 hZero
        · rw [cText_line hZero, if_neg (by simp), List.dropLast_concat]
          have hParse := parsePatternLine_none_iff env (chopCr l) patternfile (lineno + 1) desc password
            username
          cases hResult : parsePatternLine env (chopCr l) patternfile (lineno + 1) desc password
              username with
          | mk ret desc' =>
              rw [hResult] at hParse
              cases ret with
              | some message =>
                  exact iff_of_false (by simp) fun h =>
                    absurd (hParse.mpr h.1.1.2) (by simp)
              | none =>
                  dsimp only
                  rw [hRest (lineno + 1) desc']
                  have hPassed := hParse.mp rfl
                  have hReadable : Readable l := ⟨Nat.lt_of_not_le hLong, hZero⟩
                  simp [hPassed, hReadable]

/-! The accepted passwords. -/

/-- The search of a file ends with a hit or an error. -/
def SeenHit (env : Env) (password fname : CString) : Prop :=
  ∀ words, env.fopen fname = some words → words.failed = true ∨ Seen words password

/-- A file that cannot be read to its end, or one with the password among its words. -/
def Hit (env : Env) (password fname : CString) : Prop :=
  ∀ words, env.fopen fname = some words → words.failed = true ∨ Listed words password

theorem SeenHit.hit {env : Env} {password fname : CString} (h : SeenHit env password fname) :
    Hit env password fname := fun words hWords => (h words hWords).imp_right Seen.listed

/-- A password is accepted exactly when the policy can be opened, its terminated lines are read
and do not reject the password, and nothing, or a read error, is behind them. -/
theorem openvasValidatePassword_none_iff (env : Env) (patternfile : CString)
    (password username : Option CString) :
    openvasValidatePassword env patternfile false password username = none ↔
      password.getD [] ≠ [] ∧ ∃ policy, env.fopen patternfile = some policy ∧
        (∀ l ∈ lines (ch '\n') policy.rest, Readable l ∧ ¬ (Rule.ofLine (chopCr l)).Rejects env
          (SeenHit env (password.getD [])) (password.getD []) username) ∧
        (lastLine policy.rest = [] ∨ policy.failed = true ∧ (lastLine policy.rest).length < 254) := by
  rw [openvasValidatePassword, if_neg Bool.false_ne_true]
  by_cases hEmpty : password.getD [] = []
  · rw [if_pos hEmpty]
    exact iff_of_false (by simp) fun h => h.1 hEmpty
  · rw [if_neg hEmpty]
    have hSearch : (fun p => searchFile env p (password.getD []) ≠ 0) = SeenHit env (password.getD []) :=
      funext fun p => propext (searchFile_ne_zero_iff env p hEmpty)
    cases hOpen : env.fopen patternfile with
    | none => exact iff_of_false (by simp) fun h => nomatch h.2.choose_spec.1
    | some policy =>
        obtain ⟨text, failed⟩ := policy
        obtain ⟨ls, last, hLines, hLast, rfl⟩ := exists_lines text
        have hPolicy := policyLoop_none_iff env patternfile (password.getD []) username hLines hLast
          failed 0 none
        rw [hSearch] at hPolicy
        refine hPolicy.trans ?_
        constructor
        · intro h
          refine ⟨hEmpty, _, rfl, ?_⟩
          dsimp only
          rw [lines_append hLines hLast, lastLine_append ls hLast]
          exact h
        · rintro ⟨_, policy, hSame, h⟩
          rw [← Option.some.inj hSame] at h
          dsimp only at h
          rw [lines_append hLines hLast, lastLine_append ls hLast] at h
          exact h

/-- An accepted password has passed a policy that was read to its end, all lines of it. -/
def Guarded (env : Env) (patternfile : CString) (password username : Option CString) : Prop :=
  openvasValidatePassword env patternfile false password username = none →
    ∃ policy, env.fopen patternfile = some policy ∧ policy.failed = false ∧
      ∀ l ∈ allLines policy.rest, ¬ (Rule.ofLine (chopCr l)).Rejects env
        (Hit env (password.getD [])) (password.getD []) username

/-- Nothing that is read rejects the password, but the policy cannot be read to its end, or it
names a file with the password on a line that the search does not see. -/
def Slips (env : Env) (patternfile : CString) (password username : Option CString) : Prop :=
  password.getD [] ≠ [] ∧ ∃ policy, env.fopen patternfile = some policy ∧
    (∀ l ∈ lines (ch '\n') policy.rest, Readable l ∧ ¬ (Rule.ofLine (chopCr l)).Rejects env
      (SeenHit env (password.getD [])) (password.getD []) username) ∧
    (policy.failed = true ∧ (lastLine policy.rest).length < 254 ∨
      lastLine policy.rest = [] ∧ ∃ l ∈ lines (ch '\n') policy.rest, ∃ fname words,
        Rule.ofLine (chopCr l) = .search fname ∧ env.fopen fname = some words ∧
          Listed words (password.getD []) ∧ ¬ Seen words (password.getD []))

/-- A rule that rejects for what is listed and not for what is seen is a search for an unseen
word. -/
theorem Rule.search_of_rejects {env : Env} {password : CString} {username : Option CString} {rule : Rule}
    (hListed : rule.Rejects env (Hit env password) password username)
    (hSeen : ¬ rule.Rejects env (SeenHit env password) password username) :
    ∃ fname words, rule = .search fname ∧ env.fopen fname = some words ∧ Listed words password ∧
      ¬ Seen words password := by
  cases rule with
  | search fname =>
      have hNot : ¬ ∀ words, env.fopen fname = some words → words.failed = true ∨ Seen words password :=
        hSeen
      push Not at hNot
      obtain ⟨words, hWords, hRead, hUnseen⟩ := hNot
      exact ⟨fname, words, rfl, hWords, (hListed words hWords).resolve_left hRead, hUnseen⟩
  | nothing => exact absurd hListed hSeen
  | username => exact absurd hListed hSeen
  | unknown => exact absurd hListed hSeen
  | regex rev pattern => exact absurd hListed hSeen
  | word text => exact absurd hListed hSeen

/-- The check guards the passwords exactly when none slips through. -/
theorem guarded_iff (env : Env) (patternfile : CString) (password username : Option CString) :
    Guarded env patternfile password username ↔ ¬ Slips env patternfile password username := by
  rw [Guarded, openvasValidatePassword_none_iff]
  constructor
  · rintro hGuarded ⟨hSome, policy, hOpen, hPassed, hSlip⟩
    have hEnd : lastLine policy.rest = [] ∨ policy.failed = true ∧ (lastLine policy.rest).length < 254 :=
      hSlip.symm.imp_left And.left
    obtain ⟨policy', hOpen', hRead, hAll⟩ := hGuarded ⟨hSome, policy, hOpen, hPassed, hEnd⟩
    obtain rfl := Option.some.inj (hOpen.symm.trans hOpen')
    rcases hSlip with ⟨hFailed, _⟩ | ⟨_, l, hl, fname, words, hRule, hWords, hListed, _⟩
    · exact absurd (hFailed.symm.trans hRead) (by simp)
    · apply hAll l (List.mem_append_left _ hl)
      rw [hRule]
      intro words' hWords'
      rw [← Option.some.inj (hWords.symm.trans hWords')]
      exact Or.inr hListed
  · rintro hNot ⟨hSome, policy, hOpen, hPassed, hEnd⟩
    have hRead : policy.failed = false := by
      by_contra hFailed
      have hShort : (lastLine policy.rest).length < 254 := by
        rcases hEnd with hEnd | hEnd
        · rw [hEnd]
          decide
        · exact hEnd.2
      exact hNot ⟨hSome, policy, hOpen, hPassed, Or.inl ⟨Bool.eq_true_of_not_eq_false hFailed, hShort⟩⟩
    have hLast : lastLine policy.rest = [] :=
      hEnd.resolve_right fun h => absurd (h.1.symm.trans hRead) (by simp)
    refine ⟨policy, hOpen, hRead, ?_⟩
    intro l hl hRejects
    rw [allLines, if_pos hLast, List.append_nil] at hl
    obtain ⟨fname, words, hSearch⟩ := Rule.search_of_rejects hRejects (hPassed l hl).2
    exact hNot ⟨hSome, policy, hOpen, hPassed, Or.inr ⟨hLast, l, hl, fname, words, hSearch⟩⟩

/-- A policy that searches a file of one word, without a line end behind it. -/
def oneWord : Env where
  fopen fname :=
    if fname = lit "pwpolicy.conf" then some ⟨lit "#+search words\n", false⟩
    else if fname = lit "words" then some ⟨lit "secret", false⟩
    else none
  regexMatch _ _ := false

/-- The word is accepted as a password. -/
theorem guarded_oneWord : ¬ Guarded oneWord (lit "pwpolicy.conf") (some (lit "secret")) none := by
  have hUnseen : ¬ SeenHit oneWord (lit "secret") (lit "words") := by
    intro h
    rcases h ⟨lit "secret", false⟩ rfl with hFailed | hSeen
    · exact Bool.false_ne_true hFailed
    · exact absurd hSeen (by decide)
  have hLines : lines (ch '\n') (lit "#+search words\n") = [lit "#+search words"] := by decide
  have hRule : Rule.ofLine (chopCr (lit "#+search words")) = .search (lit "words") := by decide
  intro hGuarded
  have hAccepted : openvasValidatePassword oneWord (lit "pwpolicy.conf") false (some (lit "secret")) none =
      none := by
    rw [openvasValidatePassword_none_iff]
    refine ⟨by decide, ⟨lit "#+search words\n", false⟩, rfl, ?_, Or.inl (by decide)⟩
    dsimp only
    rw [hLines]
    intro l hl
    rw [List.mem_singleton.mp hl]
    refine ⟨by decide, ?_⟩
    rw [hRule]
    exact hUnseen
  obtain ⟨policy, hOpen, _, hAll⟩ := hGuarded hAccepted
  obtain rfl := Option.some.inj hOpen
  apply hAll (lit "#+search words") (by decide)
  rw [hRule]
  intro words hWords
  obtain rfl := Option.some.inj hWords
  exact Or.inr (by decide)

end Passwords
