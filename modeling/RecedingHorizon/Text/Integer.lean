/-!
# Whole numbers in text

A whole number is an optional sign and digits, with single underscores between them if desired and
blanks around.
-/

namespace RecedingHorizon

namespace Integer

/-- The characters that may stand around a number. -/
def isBlank (c : Char) : Bool :=
  c == ' ' || (9 ≤ c.toNat && c.toNat ≤ 13) || (28 ≤ c.toNat && c.toNat ≤ 31) || c.toNat == 0x85
    || c.toNat == 0xA0

/-- The number that digits stand for after `sofar`; an underscore needs a digit on both sides. -/
def ofDigits? (sofar : Nat) : (afterDigit : Bool) → List Char → Option Nat
  | afterDigit, [] => if afterDigit then some sofar else none
  | afterDigit, c :: rest =>
    if c.isDigit then ofDigits? (10 * sofar + (c.toNat - '0'.toNat)) true rest
    else if c = '_' && afterDigit then ofDigits? sofar false rest
    else none

/-- The whole number that a text stands for. -/
def ofText? (s : String) : Option Int :=
  let trimmed := ((s.toList.dropWhile isBlank).reverse.dropWhile isBlank).reverse
  match trimmed with
  | '-' :: digits => (ofDigits? 0 false digits).map fun n => -(n : Int)
  | '+' :: digits => (ofDigits? 0 false digits).map Int.ofNat
  | digits => (ofDigits? 0 false digits).map Int.ofNat

end Integer

end RecedingHorizon
