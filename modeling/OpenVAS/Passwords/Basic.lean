import OpenVAS.Lib.Stdio

/-! The password policy of `pwpolicy.c`. -/
namespace Passwords

open CString Stdio

/-- The files that can be opened, and `g_regex_match_simple` with `G_REGEX_CASELESS`,
applied to a pattern and a text. -/
structure Env where
  fopen : CString → Option Stream
  regexMatch : CString → CString → Bool

/-- A line without its optional CR. -/
def chopCr (line : CString) : CString :=
  if line.getLast? = some (ch '\r') then line.dropLast else line

/-- The loop of `search_file`, and what follows it. -/
def searchLoop (password : CString) (fp : Stream) : Int :=
  match h : fgets 255 fp with
  | none => if fp.failed then -1 else 0
  | some (buffer, next) =>
      let line := cText buffer
      if line = [] ∨ line.getLast? ≠ some (ch '\n') then searchLoop password (eatLine next)
      else
        let line := chopCr line.dropLast
        if line = [] then searchLoop password next
        else if strcaseeq line password then 1
        else searchLoop password next
termination_by fp.rest.length
decreasing_by
  all_goals
    have hNext := fgets_lt h
    have hEaten := eatLine_le next
    omega

def searchFile (env : Env) (fname password : CString) : Int :=
  match env.fopen fname with
  | none => -1
  | some fp => searchLoop password fp

def isKeyword (string keyword : CString) : Option CString :=
  if strncmp keyword.length string keyword = 0 then
    let value := string.drop keyword.length
    let value := if value.head? = some (ch ':') then value.tail else value
    if value = [] ∨ (∃ c ∈ value.head?, gAsciiIsspace c) then some (value.dropWhile gAsciiIsspace)
    else none
  else none

def policyCheckingFailed : CString := lit "Password policy checking failed (internal error)"

def weakPassword (reason : CString) : CString := lit "Weak password (" ++ reason ++ lit ")"

/-- The message for a line that a password matches. -/
def weakLine (desc : Option CString) (fname : CString) (lineno : Nat) : CString :=
  weakPassword (desc.getD (lit "see '" ++ fname ++ lit "' line " ++ showNat lineno))

/-- `parse_pattern_line`: what it returns, and the description it leaves. -/
def parsePatternLine (env : Env) (line fname : CString) (lineno : Nat) (desc : Option CString)
    (password : CString) (username : Option CString) : Option CString × Option CString :=
  let line := line.dropWhile gAsciiIsspace
  if line = [] then (none, desc)
  else if line.take 2 = lit "#+" then
    let line := line.drop 2
    match isKeyword line (lit "desc") with
    | some p => (none, if p = [] then none else some p)
    | none =>
    match isKeyword line (lit "nodesc") with
    | some _ => (none, none)
    | none =>
    match isKeyword line (lit "search") with
    | some p =>
        let sret := searchFile env p password
        if sret = -1 then (some policyCheckingFailed, desc)
        else if sret ≠ 0 then
          (some (weakPassword (desc.getD (lit "found in '" ++ p ++ lit "'"))), desc)
        else (none, desc)
    | none =>
    match isKeyword line (lit "username") with
    | some _ =>
        match username with
        | none => (none, desc)
        | some username =>
            if strcaseeq password username then
              (some (weakPassword (lit "user name matches password")), desc)
            else if (strstr password username).isSome then
              (some (weakPassword (lit "user name is part of the password")), desc)
            else if (strstr username password).isSome then
              (some (weakPassword (lit "password is part of the user name")), desc)
            else (none, desc)
    | none => (some policyCheckingFailed, desc)
  else if line.take 1 = lit "#" then (none, desc)
  else if line.take 1 = lit "/" ∨ line.take 2 = lit "!/" then
    let rev : Bool := line.take 1 = lit "!"
    let line := line.drop (if rev then 2 else 1)
    let pattern := if line.getLast? = some (ch '/') then line.dropLast else line
    if (!env.regexMatch pattern password ^^ rev) then (none, desc)
    else (some (weakLine desc fname lineno), desc)
  else if strcaseeq line password then (some (weakLine desc fname lineno), desc)
  else (none, desc)

/-- The loop of `openvas_validate_password`. -/
def policyLoop (env : Env) (patternfile password : CString) (username : Option CString)
    (fp : Stream) (lineno : Nat) (desc : Option CString) : Option CString :=
  match _ : fgets 255 fp with
  | none => none
  | some (buffer, next) =>
      let line := cText buffer
      if line = [] ∨ line.getLast? ≠ some (ch '\n') then some policyCheckingFailed
      else
        match parsePatternLine env (chopCr line.dropLast) patternfile (lineno + 1) desc password
            username with
        | (some ret, _) => some ret
        | (none, desc) => policyLoop env patternfile password username next (lineno + 1) desc
termination_by fp.rest.length
decreasing_by exact fgets_lt ‹fgets 255 fp = some (buffer, next)›

/-- `openvas_validate_password`; `patternfile` is `PWPOLICY_FILE_NAME`. -/
def openvasValidatePassword (env : Env) (patternfile : CString) (disablePasswordPolicy : Bool)
    (password username : Option CString) : Option CString :=
  if disablePasswordPolicy then none
  else if password.getD [] = [] then some (lit "Empty password")
  else
    match env.fopen patternfile with
    | none => some policyCheckingFailed
    | some fp => policyLoop env patternfile (password.getD []) username fp 0 none

end Passwords
