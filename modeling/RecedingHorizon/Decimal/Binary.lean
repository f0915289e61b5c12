import RecedingHorizon.Decimal.Rounding

/-!
# Binary fractions

A finite floating-point number is `± mantissa * 2 ^ exponent` with a natural mantissa. `ofFloat?`
reads this form off the bits, and `numerator` and `denominator` turn it into a quotient of
naturals, on which decimal rounding is exact.
-/

namespace RecedingHorizon.Decimal

/-- The number `± mantissa * 2 ^ exponent`. -/
structure Binary where
  negative : Bool
  mantissa : Nat
  exponent : Int
  deriving Repr, DecidableEq

namespace Binary

/-- The mantissa's leading bit, which is not stored. -/
def hiddenBit : Nat := Nat.pow 2 52

/-- The parts of a finite floating-point number; infinities and undefined values have none. -/
def ofFloat? (x : Float) : Option Binary :=
  let bits : Nat := x.toBits.toNat
  let negative := bits / Nat.pow 2 63 = 1
  let biased : Nat := bits / hiddenBit % Nat.pow 2 11
  let fraction := bits % hiddenBit
  if biased = 2047 then none
  else if biased = 0 then some ⟨negative, fraction, -1074⟩
  else some ⟨negative, fraction + hiddenBit, (biased : Int) - 1075⟩

def numerator (b : Binary) : Nat := b.mantissa * Nat.pow 2 b.exponent.toNat

def denominator (b : Binary) : Nat := Nat.pow 2 (-b.exponent).toNat

theorem denominator_pos (b : Binary) : 0 < b.denominator := Nat.two_pow_pos _

def signedNumerator (b : Binary) : Int := if b.negative then -b.numerator else b.numerator

def floor (b : Binary) : Int := b.signedNumerator.fdiv b.denominator

def ceil (b : Binary) : Int := -(-b.signedNumerator).fdiv b.denominator

/-- The integer part, toward zero. -/
def truncate (b : Binary) : Int := if b.negative then b.ceil else b.floor

/-- True of whole numbers. -/
def isWhole (b : Binary) : Bool := b.numerator % b.denominator = 0

end Binary

end RecedingHorizon.Decimal
