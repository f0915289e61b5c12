import RecedingHorizon.Scalar.Extended

/-!
# Scalars

The library is written once over a type of scalars. A `Scalar` has the four operations, an order,
square roots, logarithms and the circular functions, and says for each of its values whether it is
a number, an infinity or undefined. Floating-point numbers are one instance and the real numbers
are another, in which every value is a number.

Literals are written in scientific form (`0.5`, `1e-10`), which every scalar type reads.
-/

namespace RecedingHorizon

/-- The arithmetic that the library computes with. -/
class Scalar (α : Type) extends Add α, Sub α, Mul α, Div α, Neg α, Zero α, One α, LE α, LT α,
    BEq α, OfScientific α where
  decLe : DecidableLE α
  decLt : DecidableLT α
  ofInt : Int → α
  sqrt : α → α
  abs : α → α
  log : α → α
  cos : α → α
  sin : α → α
  /-- Half the circumference of the unit circle. -/
  pi : α
  /-- Whether the value is a number, an infinity or undefined. -/
  classify : α → Extended α
  /-- The scalar that stands for an extended value, where the type has one. -/
  ofExtended : Extended α → α
  /-- The least integer not below a number. -/
  ceil : α → Int
  /-- The value as a fraction, where it is one. -/
  fraction? : α → Option Rat
  render : α → String

instance (priority := 100) Scalar.decidableLE {α : Type} [Scalar α] : DecidableLE α := Scalar.decLe
instance (priority := 100) Scalar.decidableLT {α : Type} [Scalar α] : DecidableLT α := Scalar.decLt

namespace Scalar

variable {α : Type} [Scalar α]

def ofNat (n : Nat) : α := ofInt n

/-- Neither an infinity nor undefined. -/
def isFinite (x : α) : Bool := (classify x).isFinite

/-- No comparison with the value holds. -/
def isUndefined (x : α) : Bool := (classify x).isUndefined

/-- The value that no comparison accepts. -/
def undefined : α := ofExtended .undefined

/-- The value above all numbers. -/
def infinity : α := ofExtended .top

/-- The larger of two values; an undefined one wins. -/
def maximum (x y : α) : α :=
  if isUndefined x then x else if isUndefined y then y else if x < y then y else x

/-- The smaller of two values; an undefined one wins. -/
def minimum (x y : α) : α :=
  if isUndefined x then x else if isUndefined y then y else if y < x then y else x

/-- The first value, unless the second one is strictly larger. -/
def orLarger (x y : α) : α := if x < y then y else x

def wholePart (x : α) : Int := if x < 0 then ceil x else -ceil (-x)

/-- The whole part of a value as a signed word of 64 bits; a value without one is the least word. -/
def word (x : α) : Int :=
  let n := wholePart x
  let least := Int64.minValue.toInt
  if isFinite x && decide (least ≤ n ∧ n ≤ Int64.maxValue.toInt) then n else least

/-- Two values within an absolute tolerance, or equal, as two infinities are. -/
def near (tolerance x y : α) : Bool :=
  (isFinite y && decide (abs (x - y) ≤ tolerance)) || x == y

end Scalar

end RecedingHorizon
