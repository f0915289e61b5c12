import RecedingHorizon.Scalar.Bounds

/-!
# Logarithms of zero and quotients of infinities

The logarithm of zero lies below all numbers and that of a negative number does not exist. Quotients
and roundings of such values follow the sign: an infinity divided by a number keeps or changes its
sign, a number divided by an infinity is zero, and a number divided by zero is infinite unless it is
zero itself.
-/

namespace RecedingHorizon.Extended

variable {α : Type} [Scalar α]

def log (x : α) : Extended α :=
  if x == 0 then bottom else if x < 0 then undefined else ofScalar (Scalar.log x)

/-- The infinity with the sign of a number; zero has none. -/
def signed (x : α) : Extended α := if 0 < x then top else if x < 0 then bottom else undefined

def div : Extended α → Extended α → Extended α
  | finite a, finite b => if b == 0 then signed a else ofScalar (a / b)
  | finite _, top => finite 0
  | finite _, bottom => finite 0
  | top, finite b => if b < 0 then bottom else top
  | bottom, finite b => if b < 0 then top else bottom
  | _, _ => undefined

def ceil : Extended α → Extended Int
  | undefined => undefined
  | bottom => bottom
  | finite a => finite (Scalar.ceil a)
  | top => top

/-- The smaller of two values, or the one that exists. -/
def smaller : Extended Int → Extended Int → Extended Int
  | undefined, y => y
  | x, undefined => x
  | bottom, _ => bottom
  | _, bottom => bottom
  | top, y => y
  | x, top => x
  | finite a, finite b => finite (min a b)

end RecedingHorizon.Extended
