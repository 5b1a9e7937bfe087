import OpenVAS.Lib.Bytes
import OpenVAS.Lib.CString

/-! Stored credentials: `lsc_crypt_encrypt` writes name and value pairs as a block
of length-prefixed texts, and `lsc_crypt_decrypt` looks a name up in the decrypted
block and remembers what it found. -/
namespace Credentials

open CString

/-- A C string: its text ends in front of the NUL byte. -/
abbrev Text := { text : CString // 0 ∉ text }

def maxValueLength : Nat := 128 * 1024

/-- Ways in which a call does not return. -/
inductive Fault where
  /-- `g_assert (plaintextlen)`. -/
  | assertion
  /-- A byte outside the plaintext is read. -/
  | outside
  /-- The loop does not come to its end. -/
  | endless
  deriving DecidableEq, Repr

/-- The layers under the block: OpenPGP and base64. -/
structure Layers where
  gpgEncrypt : List UInt8 → Option (List UInt8)
  gpgDecrypt : List UInt8 → Option (List UInt8)
  base64Encode : List UInt8 → CString
  base64Decode : CString → List UInt8

namespace Layers

def doEncrypt (layers : Layers) (plaintext : List UInt8) : Option CString :=
  (layers.gpgEncrypt plaintext).map layers.base64Encode

def doDecrypt (layers : Layers) (cipherstring : CString) : Option (List UInt8) :=
  let ciphertext := layers.base64Decode cipherstring
  if ciphertext = [] then none else layers.gpgDecrypt ciphertext

/-- The layers decode what they encode. -/
structure Sound (layers : Layers) : Prop where
  gpg : ∀ plaintext, plaintext ≠ [] → ∃ ciphertext, ciphertext ≠ [] ∧
    layers.gpgEncrypt plaintext = some ciphertext ∧ layers.gpgDecrypt ciphertext = some plaintext
  base64 : ∀ bytes, layers.base64Decode (layers.base64Encode bytes) = bytes

end Layers

/-- A 32 bit number in network byte order. -/
def put32 (value : Nat) : List UInt8 := Bytes.ofValue 4 (value % 2 ^ 32)

/-- The block of the pairs with a name, unless a value is too long. A missing
value is empty. -/
def block : List (Text × Option Text) → Option (List UInt8)
  | [] => some []
  | (name, value) :: pairs =>
      let value := (value.map Subtype.val).getD []
      if name.1 = [] then block pairs
      else if maxValueLength < value.length then none
      else (block pairs).map fun rest =>
        put32 name.1.length ++ name.1 ++ (put32 value.length ++ value) ++ rest

def lscCryptEncrypt (layers : Layers) (pairs : List (Text × Option Text)) :
    Except Fault (Option CString) :=
  match block pairs with
  | none => .ok none
  | some plaintext =>
      if plaintext = [] then .error .assertion else .ok (layers.doEncrypt plaintext)

/-- What is remembered of a lookup: a value of its own, or where a value starts in
the plaintext, or that there is none. -/
structure Entry where
  name : CString
  valoff : Nat
  value : Option CString
  deriving DecidableEq, Repr

structure Context where
  plaintext : Option (List UInt8) := none
  namelist : List Entry := []
  deriving DecidableEq, Repr

/-- The bytes of a part of the plaintext. -/
def slice (plaintext : List UInt8) (p n : Nat) : Except Fault (List UInt8) :=
  if p + n ≤ plaintext.length then .ok ((plaintext.drop p).take n) else .error .outside

def get32 (plaintext : List UInt8) (p : Nat) : Except Fault Nat :=
  (slice plaintext p 4).map Bytes.value

/-- The C string that starts at a place of the plaintext. -/
def stringAt (plaintext : List UInt8) (p : Nat) : Except Fault CString :=
  if 0 ∈ plaintext.drop p then .ok ((plaintext.drop p).takeWhile (· ≠ 0)) else .error .outside

/-- How the search for a name ends. -/
inductive Found where
  | valoff (p : Nat)
  | copy (value : CString)
  | tooLong
  | missing
  deriving DecidableEq, Repr

/-- `n == namelen && !memcmp (p, name, namelen)`. -/
def sameName (plaintext : List UInt8) (p n : Nat) (name : CString) : Except Fault Bool :=
  if n = name.length then (slice plaintext p n).map (· == name) else .ok false

/-- `n + 1 < len && p[n] == 0`. -/
def terminated (plaintext : List UInt8) (p len n : Nat) : Except Fault Bool :=
  if n + 1 < len then (slice plaintext (p + n) 1).map (· == [0]) else .ok false

/-- What is made of the value that starts at `p`, with `n` bytes of the `len` that
are left. The byte behind it is its end where it is 0. -/
def findValue (plaintext : List UInt8) (p len n : Nat) : Except Fault Found := do
  if maxValueLength < n then return .tooLong
  if ← terminated plaintext p len n then return .valoff p
  else return .copy ((← slice plaintext p n).takeWhile (· ≠ 0))

/-- The loop over the pairs of the block, of which `len` bytes are left from `p`. A
block that does not fit its lengths has no further names. -/
def parse (plaintext : List UInt8) (name : CString) : Nat → Nat → Nat → Except Fault Found
  | 0, _, _ => .error .endless
  | fuel + 1, p, len => do
      if len = 0 then return .missing
      if len < 4 then return .missing
      let n ← get32 plaintext p
      let p := p + 4
      let len := len - 4
      if len < n then return .missing
      let found ← sameName plaintext p n name
      let p := p + n
      let len := len - n
      if len < 4 then return .missing
      let n ← get32 plaintext p
      let p := p + 4
      let len := len - 4
      if len < n then return .missing
      if found then findValue plaintext p len n
      else parse plaintext name fuel (p + n) (len - n)

/-- The answer of an entry. -/
def Entry.answer (plaintext : List UInt8) (entry : Entry) : Except Fault (Option CString) :=
  match entry.value with
  | some value => .ok (some value)
  | none =>
      if entry.valoff = 0 then .ok none else (stringAt plaintext entry.valoff).map some

/-- The part of a lookup behind the decryption. -/
def lookup (ctx : Context) (plaintext : List UInt8) (name : CString) :
    Except Fault (Option CString × Context) := do
  match ctx.namelist.find? (·.name = name) with
  | some entry => return (← entry.answer plaintext, ctx)
  | none =>
      let add (entry : Entry) : Except Fault (Option CString × Context) := do
        return (← entry.answer plaintext, { ctx with namelist := entry :: ctx.namelist })
      match ← parse plaintext name (plaintext.length + 1) 0 plaintext.length with
      | .valoff p => add ⟨name, p, none⟩
      | .copy value => add ⟨name, 0, some value⟩
      | .missing => add ⟨name, 0, none⟩
      | .tooLong => return (none, ctx)

/-- `disabled` is the option that turns decryption off. -/
def lscCryptDecrypt (layers : Layers) (disabled : Bool) (ctx : Context)
    (ciphertext : Option CString) (name : CString) : Except Fault (Option CString × Context) :=
  if name = [] ∨ disabled then .ok (none, ctx)
  else match ctx.plaintext with
    | some plaintext => lookup ctx plaintext name
    | none =>
        match ciphertext.bind layers.doDecrypt with
        | none => .ok (none, ctx)
        | some plaintext => lookup { ctx with plaintext := some plaintext } plaintext name

/-- Lookups one after another on one context. -/
def lookups (layers : Layers) (disabled : Bool) (ciphertext : Option CString) :
    Context → List CString → Except Fault (List (Option CString))
  | _, [] => .ok []
  | ctx, name :: names => do
      let (answer, ctx) ← lscCryptDecrypt layers disabled ctx ciphertext name
      return answer :: (← lookups layers disabled ciphertext ctx names)

end Credentials
