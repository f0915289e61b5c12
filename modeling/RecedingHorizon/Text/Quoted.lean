import RecedingHorizon.Text.Printable

/-!
# Quoted text

A text between quotation marks, so that it can be told from the words around it. Single quotes are
used unless the text holds a single quote and no double one. A backslash, the chosen quote, the
three usual control characters and every character that is not printable are escaped.
-/

namespace RecedingHorizon

namespace Quoted

/-- The lower-case hexadecimal digits of a number, with at least `width` of them. -/
def hexadecimal (width n : Nat) : List Char :=
  let digits := Nat.toDigits 16 n
  List.replicate (width - digits.length) '0' ++ digits

/-- One character between the given quotes. -/
def escape (quote c : Char) : List Char :=
  if c = quote || c = '\\' then ['\\', c]
  else if c = '\n' then ['\\', 'n']
  else if c = '\r' then ['\\', 'r']
  else if c = '\t' then ['\\', 't']
  else if isPrintable c then [c]
  else if c.toNat < 0x100 then '\\' :: 'x' :: hexadecimal 2 c.toNat
  else if c.toNat < 0x10000 then '\\' :: 'u' :: hexadecimal 4 c.toNat
  else '\\' :: 'U' :: hexadecimal 8 c.toNat

/-- The quotation mark for a text. -/
def mark (cs : List Char) : Char := if cs.contains '\'' && !cs.contains '"' then '"' else '\''

end Quoted

def quoted (s : String) : String :=
  let cs := s.toList
  let quote := Quoted.mark cs
  String.ofList (quote :: cs.flatMap (Quoted.escape quote) ++ [quote])

end RecedingHorizon
