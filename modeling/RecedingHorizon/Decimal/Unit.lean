import RecedingHorizon.Decimal.Text

/-!
# Numbers that are shown together

The entries of a table are rounded to one unit, a power of ten: it leaves the largest entry a given
number of significant digits, and no entry more than a given number of places. `commonUnit` finds the
unit and `inUnit` writes a number that is rounded to it, without trailing zeros.
-/

namespace RecedingHorizon.Decimal

/-- How many significant digits and how many places a table has at most. -/
structure Precision where
  digits : Nat
  places : Nat
  deriving Repr, DecidableEq

/-- The exponent of the unit for a list of numbers. Only finite ones count. -/
def commonUnit (p : Precision) (xs : List Float) : Int :=
  let largest := xs.foldl (fun m x => if x.isFinite && m < x.abs then x.abs else m) 0.0
  let finest := -(p.places : Int)
  match Binary.ofFloat? largest with
  | none => finest
  | some b =>
    if b.mantissa = 0 then finest
    else max ((roundSignificant b.numerator b.denominator p.digits).lead - (p.digits - 1 : Nat)) finest

/-- A decimal number without trailing zeros: with an exponent if its last digit is more than sixteen
places before the point, or if its first digit is more than five behind it. -/
def compact (d : Digits) : String :=
  let digits := Nat.toDigits 10 d.digits
  let count : Int := digits.length
  if 0 ≤ d.exponent ∧ count + d.exponent ≤ 16 then
    String.ofList (digits ++ List.replicate d.exponent.toNat '0')
  else if d.exponent < 0 ∧ -5 < count + d.exponent then
    let whole := (count + d.exponent).toNat
    let zeros := (-(count + d.exponent)).toNat
    (if whole = 0 then "0" else String.ofList (digits.take whole)) ++ "." ++
      String.ofList (List.replicate zeros '0' ++ digits.drop whole)
  else String.ofList digits ++ "e" ++ toString d.exponent

/-- A number rounded to a unit. Zero has no sign. -/
def inUnit (unit : Int) (x : Float) : String :=
  match Binary.ofFloat? x with
  | none => special x
  | some b =>
    let count := roundToPower b.numerator b.denominator unit
    if count = 0 then "0" else signed b.negative (compact (Digits.mk count unit).strip)

end RecedingHorizon.Decimal
