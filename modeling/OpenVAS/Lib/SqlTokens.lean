import OpenVAS.Lib.Sql

/-! The words of a statement, as SQLite reads them. The reader takes one byte after the
other, so that the words of a text put together from pieces are put together from theirs. -/
namespace Sql

open CString

/-- A word, a name in quotes, a text between apostrophes, a number, or an operator or other
sign. What no statement may contain is illegal. -/
inductive Token where
  | word (text : CString)
  | name (text : CString)
  | literal (text : CString)
  | number (text : CString)
  | sign (text : CString)
  | illegal (c : UInt8)
  deriving DecidableEq

/-- Where in a word the reader stands. At the end of a literal or name the quote may be
doubled, and behind some signs the next byte may belong to the sign. -/
inductive Mode where
  | between
  | word (text : CString)
  | number (text : CString)
  | literal (text : CString)
  | literalEnd (text : CString)
  | name (close : UInt8) (text : CString)
  | nameEnd (close : UInt8) (text : CString)
  | sign (c : UInt8)
  | lineComment
  | blockComment
  | blockStar
  deriving DecidableEq

/-- White space between words; the vertical tab is none. -/
def isSpace (c : UInt8) : Bool := c = ch ' ' || (9 ≤ c && c ≤ 13 && c ≠ 11)

def isLetter (c : UInt8) : Bool :=
  (ch 'a' ≤ c && c ≤ ch 'z') || (ch 'A' ≤ c && c ≤ ch 'Z') || c = ch '_' || 128 ≤ c

/-- The bytes inside of words. -/
def isWordByte (c : UInt8) : Bool := isLetter c || isdigit c || c = ch '$'

/-- The signs that are always alone. -/
def isSingle (c : UInt8) : Bool := c ∈ lit "();+*%,&~."

/-- The signs that may begin a longer one. -/
def isOpening (c : UInt8) : Bool := c ∈ lit "-/<>=!|"

/-- The first byte of a word. -/
def start (c : UInt8) : List Token × Mode :=
  if isSpace c then ([], .between)
  else if c = apostrophe then ([], .literal [])
  else if c = ch '"' || c = 96 then ([], .name c [])
  else if c = ch '[' then ([], .name (ch ']') [])
  else if isdigit c then ([], .number [c])
  else if isLetter c then ([], .word [c])
  else if isSingle c then ([.sign [c]], .between)
  else if isOpening c then ([], .sign c)
  else ([.illegal c], .between)

/-- A word that ends in front of a byte. -/
def startBehind (token : Token) (c : UInt8) : List Token × Mode :=
  (token :: (start c).1, (start c).2)

def closeSign (c : UInt8) : Token := if c = ch '!' then .illegal c else .sign [c]

def step (mode : Mode) (c : UInt8) : List Token × Mode :=
  match mode with
  | .between => start c
  | .word text =>
      if isWordByte c then ([], .word (text ++ [c])) else startBehind (.word text) c
  | .number text =>
      if isWordByte c || c = ch '.' then ([], .number (text ++ [c]))
      else if (c = ch '+' || c = ch '-') && (text.getLast? = some (ch 'e') ||
          text.getLast? = some (ch 'E')) then ([], .number (text ++ [c]))
      else startBehind (.number text) c
  | .literal text =>
      if c = apostrophe then ([], .literalEnd text) else ([], .literal (text ++ [c]))
  | .literalEnd text =>
      if c = apostrophe then ([], .literal (text ++ [c])) else startBehind (.literal text) c
  | .name close text =>
      if c = close then ([], .nameEnd close text) else ([], .name close (text ++ [c]))
  | .nameEnd close text =>
      -- Brackets are not doubled.
      if c = close && close ≠ ch ']' then ([], .name close (text ++ [c]))
      else startBehind (.name text) c
  | .sign first =>
      if first = ch '-' && c = ch '-' then ([], .lineComment)
      else if first = ch '/' && c = ch '*' then ([], .blockComment)
      else if [first, c] ∈ [lit "<=", lit "<>", lit "<<", lit ">=", lit ">>", lit "==", lit "!=",
          lit "||"] then ([.sign [first, c]], .between)
      else startBehind (closeSign first) c
  | .lineComment => if c = ch '\n' then ([], .between) else ([], .lineComment)
  | .blockComment => if c = ch '*' then ([], .blockStar) else ([], .blockComment)
  | .blockStar =>
      if c = ch '/' then ([], .between)
      else if c = ch '*' then ([], .blockStar)
      else ([], .blockComment)

/-- The words that end in a text, and where the reader stands behind it. -/
def run (mode : Mode) : CString → List Token × Mode
  | [] => ([], mode)
  | c :: rest =>
      let one := step mode c
      let more := run one.2 rest
      (one.1 ++ more.1, more.2)

/-- The word that ends with the text. -/
def finish : Mode → List Token
  | .between | .lineComment | .blockComment | .blockStar => []
  | .word text => [.word text]
  | .number text => [.number text]
  | .literal _ => [.illegal apostrophe]
  | .literalEnd text => [.literal text]
  | .name close _ => [.illegal close]
  | .nameEnd _ text => [.name text]
  | .sign c => [closeSign c]

def tokens (text : CString) : List Token :=
  (run .between text).1 ++ finish (run .between text).2

theorem run_append (mode : Mode) (front back : CString) :
    run mode (front ++ back) =
      ((run mode front).1 ++ (run (run mode front).2 back).1, (run (run mode front).2 back).2) := by
  induction front generalizing mode with
  | nil => rfl
  | cons c front ih =>
      rw [List.cons_append, run, ih]
      simp only [run, List.append_assoc]

/-- How a piece of a text reads. -/
def Reads (mode : Mode) (text : CString) (words : List Token) (mode' : Mode) : Prop :=
  run mode text = (words, mode')

/-- The bytes of a constant, without its encoding as a string. -/
theorem lit_ofList (chars : List Char) : lit (String.ofList chars) = chars.map ch :=
  congrArg (List.map ch) String.toList_ofList

/-- Words and signs, as they are written in programs. -/
abbrev word (text : String) : Token := .word (lit text)

abbrev sign (text : String) : Token := .sign (lit text)

instance (mode : Mode) (text : CString) (words : List Token) (mode' : Mode) :
    Decidable (Reads mode text words mode') :=
  inferInstanceAs (Decidable (run mode text = (words, mode')))

section Pieces

variable {mode mode' mode'' : Mode} {front back text : CString} {words words' : List Token}

theorem Reads.append (h : Reads mode front words mode') (h' : Reads mode' back words' mode'') :
    Reads mode (front ++ back) (words ++ words') mode'' := by
  rw [Reads] at h h' ⊢
  rw [run_append, h]
  exact congrArg (fun result : List Token × Mode => (words ++ result.1, result.2)) h'

theorem Reads.tokens (h : Reads .between text words .between) : tokens text = words := by
  rw [Sql.tokens, h]
  exact List.append_nil words

theorem Reads.nil : Reads mode [] [] mode := rfl

/-- Bytes that a word takes up one by one. -/
theorem reads_absorbed {open' : CString → Mode} {string : CString}
    (h : ∀ text, ∀ c ∈ string, step (open' text) c = ([], open' (text ++ [c]))) :
    Reads (open' text) string [] (open' (text ++ string)) := by
  induction string generalizing text with
  | nil =>
      rw [List.append_nil]
      exact Reads.nil
  | cons c string ih =>
      have hOne : Reads (open' text) [c] [] (open' (text ++ [c])) := by
        rw [Reads, run, h text c List.mem_cons_self]
        rfl
      have hAll := hOne.append (ih fun text d hd => h text d (List.mem_cons_of_mem c hd))
      rwa [List.append_assoc] at hAll

/-- A word, which begins with a letter. -/
def IsName (string : CString) : Prop :=
  ∃ c rest, string = c :: rest ∧ isLetter c = true ∧ ∀ d ∈ rest, isWordByte d = true

theorem start_letter {c : UInt8} (h : isLetter c = true) : start c = ([], .word [c]) := by
  have hAll : ∀ n < 256, isLetter (UInt8.ofNat n) = true →
      start (UInt8.ofNat n) = ([], .word [UInt8.ofNat n]) := by decide +kernel
  have hOne := hAll c.toNat c.toNat_lt
  rw [UInt8.ofNat_toNat] at hOne
  exact hOne h

theorem reads_name {string : CString} (h : IsName string) :
    Reads .between string [] (.word string) := by
  obtain ⟨c, rest, rfl, hLetter, hRest⟩ := h
  have hFirst : Reads .between [c] [] (.word [c]) := by
    rw [Reads, run, step, start_letter hLetter]
    rfl
  have hOthers : Reads (.word [c]) rest [] (.word ([c] ++ rest)) :=
    reads_absorbed fun text d hd => by rw [step, if_pos (hRest d hd)]
  exact hFirst.append hOthers

/-- A quoted text is read into a literal byte for byte. -/
theorem reads_quote (string : CString) :
    Reads (.literal text) (quote string) [] (.literal (text ++ string)) := by
  induction string generalizing text with
  | nil =>
      rw [List.append_nil]
      exact Reads.nil
  | cons c string ih =>
      have hOne : Reads (.literal text) (if c = apostrophe then [c, c] else [c]) []
          (.literal (text ++ [c])) := by
        by_cases hc : c = apostrophe
        · rw [if_pos hc, hc]
          rfl
        · rw [if_neg hc]
          simp [Reads, run, step, hc]
      have hAll := hOne.append (@ih (text ++ [c]))
      rwa [List.append_assoc] at hAll

theorem quote_unquote {string plain : CString} (h : unquote string = some plain) :
    quote plain = string := by
  induction string using unquote.induct generalizing plain with
  | case1 =>
      obtain rfl := Option.some.inj h
      rfl
  | case2 => simp [unquote] at h
  | case3 c hc =>
      obtain rfl : [c] = plain := by simpa [unquote, hc] using h
      simp [quote, hc]
  | case4 rest ih =>
      obtain ⟨plain, hPlain, rfl⟩ : ∃ a, unquote rest = some a ∧ apostrophe :: a = plain := by
        simpa [unquote] using h
      rw [quote, List.flatMap_cons, if_pos rfl]
      exact congrArg (apostrophe :: apostrophe :: ·) (ih hPlain)
  | case5 d rest hd => simp [unquote, hd] at h
  | case6 c d rest hc ih =>
      obtain ⟨plain, hPlain, rfl⟩ : ∃ a, unquote (d :: rest) = some a ∧ c :: a = plain := by
        simpa [unquote, hc] using h
      rw [quote, List.flatMap_cons, if_neg hc]
      exact congrArg (c :: ·) (ih hPlain)

/-- A text whose apostrophes are all doubled stays inside of a literal. -/
theorem reads_literal {string plain : CString} (h : unquote string = some plain) :
    Reads (.literal text) string [] (.literal (text ++ plain)) :=
  quote_unquote h ▸ reads_quote plain

/-- A word ends in front of a byte that does not belong to it. -/
theorem Reads.behind {token : Token} (hEnd : ∀ c ∈ text.head?, step mode c = startBehind token c)
    (hNe : text ≠ []) (h : Reads .between text words mode') : Reads mode text (token :: words) mode' := by
  obtain ⟨c, rest, rfl⟩ := List.exists_cons_of_ne_nil hNe
  rw [Reads, run] at h ⊢
  rw [hEnd c rfl, startBehind]
  obtain ⟨hWords, hMode⟩ := Prod.mk.inj h
  exact Prod.ext (congrArg (token :: ·) hWords) hMode

/-- A literal ends in front of a text that does not go on with an apostrophe. -/
theorem Reads.closed {plain : CString} (hNext : text.head?.any (· ≠ apostrophe) = true)
    (h : Reads .between text words mode') :
    Reads (.literal plain) (apostrophe :: text) (.literal plain :: words) mode' := by
  have hNe : text ≠ [] := by
    rintro rfl
    cases hNext
  have hClose : Reads (.literal plain) [apostrophe] [] (.literalEnd plain) := rfl
  refine hClose.append (Reads.behind (fun c hc => ?_) hNe h)
  have hOther : c ≠ apostrophe := by
    rw [Option.mem_def.mp hc] at hNext
    simpa using hNext
  rw [step, if_neg hOther]

/-- A piece closes a literal and goes on behind it. -/
structure Closes (piece : CString) (words : List Token) (mode : Mode) : Prop where
  quote : piece.head? = some apostrophe
  next : piece.tail.head?.any (· ≠ apostrophe) = true
  reads : Reads .between piece.tail words mode

instance (piece : CString) (words : List Token) (mode : Mode) :
    Decidable (Closes piece words mode) :=
  decidable_of_iff (piece.head? = some apostrophe ∧
    piece.tail.head?.any (· ≠ apostrophe) = true ∧ Reads .between piece.tail words mode)
    ⟨fun h => ⟨h.1, h.2.1, h.2.2⟩, fun h => ⟨h.quote, h.next, h.reads⟩⟩

theorem Closes.literal (h : Closes back words mode) (plain : CString) :
    Reads (.literal plain) back (.literal plain :: words) mode := by
  obtain ⟨hQuote, hNext, hReads⟩ := h
  cases back with
  | nil => cases hQuote
  | cons c rest =>
      obtain rfl : c = apostrophe := Option.some.inj hQuote
      exact hReads.closed hNext

theorem head?_any_append {p : UInt8 → Bool} (h : front.head?.any p = true) :
    (front ++ back).head?.any p = true := by
  cases front with
  | nil => cases h
  | cons c front => exact h

/-- A piece that closes a literal, and goes on with what follows it. -/
theorem Closes.append {piece : CString} {words' : List Token}
    (hPiece : Closes piece words mode) (hText : Reads mode text words' mode') :
    Closes (piece ++ text) (words ++ words') mode' := by
  obtain ⟨hQuote, hNext, hReads⟩ := hPiece
  cases piece with
  | nil => cases hQuote
  | cons c rest => exact ⟨hQuote, head?_any_append hNext, hReads.append hText⟩

/-- A name in front of a piece that does not go on with it. -/
theorem Reads.name (hName : IsName text) (hNext : back.head?.any (!isWordByte ·) = true)
    (hBack : Reads .between back words mode') :
    Reads .between (text ++ back) (.word text :: words) mode' := by
  have hNe : back ≠ [] := by
    rintro rfl
    cases hNext
  have hBehind : Reads (.word text) back (.word text :: words) mode' := by
    refine hBack.behind (fun c hc => ?_) hNe
    have hOther : isWordByte c = false := by
      rw [Option.mem_def.mp hc] at hNext
      simpa using hNext
    rw [step, hOther]
    rfl
  exact (reads_name hName).append hBehind

end Pieces

end Sql
