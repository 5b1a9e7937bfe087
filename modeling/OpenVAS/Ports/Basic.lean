import OpenVAS.Lib.CString

/-! Port lists, as `openvas_networking.c` checks them. -/
namespace Ports

open CString

/-- A port number at the start of a text and the text behind it and its blanks;
`none` when the number does not fit a `long`, is zero or exceeds 65535. -/
def readPort (s : CString) : Option (Int × CString) :=
  let (number, rest) := strtol s
  if strtolErange s || number = 0 || 65535 < number then none
  else some (number, rest.dropWhile isblank)

/-- The element without a leading `T:` or `U:`. -/
def dropTypeSpecifier : CString → CString
  | t :: c :: rest =>
      if (t = ch 'T' || t = ch 'U') && c = ch ':' then rest else t :: c :: rest
  | element => element

/-- Whether one element is blank, a port or a range of ports. -/
def validPortElement (stripped : CString) : Bool :=
  let element := dropTypeSpecifier stripped
  match strchr element (ch '-') with
  | some i =>
      let first := element.dropWhile isblank
      let second := (element.drop (i + 1)).dropWhile isblank
      match readPort first, readPort second with
      | some (number1, rest1), some (number2, rest2) =>
          first.head? ≠ some (ch '-') && rest1.head? = some (ch '-') && second ≠ [] && rest2 = [] &&
            number1 ≤ number2
      | _, _ => false
  | none =>
      let only := element.dropWhile isblank
      only = [] || match readPort only with
        | some (_, rest) => rest = []
        | none => false

/-- Whether `validate_port_range` returns 0. -/
def validatePortRange (portRange : Option CString) : Bool :=
  match portRange with
  | none => false
  | some portRange =>
      let portRange := portRange.dropWhile isblank
      portRange ≠ [] &&
        ((portRange.map newlineToComma).splitOn (ch ',')).all fun point =>
          validPortElement (gStrstrip point)

end Ports
