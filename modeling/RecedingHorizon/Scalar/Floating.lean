import RecedingHorizon.Scalar
import RecedingHorizon.Decimal.Text

/-!
# Floating-point scalars

Double precision as a `Scalar`. Infinities and undefined values are the ones of the number format,
so that `Scalar.classify` and `Scalar.ofExtended` are inverse to each other on what they can reach.
-/

namespace RecedingHorizon

/-- The extended value that a floating-point number is. -/
def Float.classify (x : Float) : Extended Float :=
  if x.isNaN then .undefined
  else if x.isInf then (if 0.0 < x then .top else .bottom)
  else .finite x

/-- The floating-point number that an extended value is. -/
def Float.ofExtended : Extended Float → Float
  | .undefined => 0.0 / 0.0
  | .bottom => -1.0 / 0.0
  | .top => 1.0 / 0.0
  | .finite x => x

/-- The integer at or above a finite number. -/
def Float.ceilInt (x : Float) : Int :=
  match Decimal.Binary.ofFloat? x with
  | some b => b.ceil
  | none => 0

/-- A finite number as a fraction. -/
def Float.fraction? (x : Float) : Option Rat :=
  (Decimal.Binary.ofFloat? x).map fun b => mkRat b.signedNumerator b.denominator

instance : Scalar Float where
  zero := 0.0
  one := 1.0
  decLe := inferInstance
  decLt := inferInstance
  ofInt := Float.ofInt
  sqrt := Float.sqrt
  abs := Float.abs
  log := Float.log
  cos := Float.cos
  sin := Float.sin
  pi := 3.141592653589793
  classify := Float.classify
  ofExtended := Float.ofExtended
  ceil := Float.ceilInt
  fraction? := Float.fraction?
  render := Decimal.shortest

end RecedingHorizon
