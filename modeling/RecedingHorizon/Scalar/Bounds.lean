import RecedingHorizon.Scalar

/-!
# Arithmetic with infinite bounds

Sums, differences, comparisons, maxima and minima of extended values. An operation on two numbers
is the scalar one; with an infinity it follows the sign, and the difference of two equal infinities
is undefined. An undefined operand makes every comparison false and every result undefined.
-/

namespace RecedingHorizon

namespace Extended

variable {α : Type} [Scalar α]

/-- The extended value that a scalar is. -/
def ofScalar (x : α) : Extended α := Scalar.classify x

/-- The scalar that an extended value is, where the scalar type has one. -/
def toScalar (e : Extended α) : α := Scalar.ofExtended e

/-- The opposite value. -/
def neg : Extended α → Extended α
  | undefined => undefined
  | bottom => top
  | finite a => finite (-a)
  | top => bottom

/-- The sum; opposite infinities have none. -/
def add : Extended α → Extended α → Extended α
  | undefined, _ => undefined
  | _, undefined => undefined
  | finite a, finite b => ofScalar (a + b)
  | top, bottom => undefined
  | bottom, top => undefined
  | top, _ => top
  | _, top => top
  | bottom, _ => bottom
  | _, bottom => bottom

/-- The difference; equal infinities have none. -/
def sub (x y : Extended α) : Extended α := add x (neg y)

/-- Less than or equal; false as soon as one side is undefined. -/
def le : Extended α → Extended α → Bool
  | undefined, _ => false
  | _, undefined => false
  | bottom, _ => true
  | _, top => true
  | finite a, finite b => decide (a ≤ b)
  | _, _ => false

/-- Strictly less; false as soon as one side is undefined. -/
def lt : Extended α → Extended α → Bool
  | undefined, _ => false
  | _, undefined => false
  | finite a, finite b => decide (a < b)
  | bottom, bottom => false
  | top, top => false
  | bottom, _ => true
  | _, top => true
  | _, _ => false

/-- The larger of two values; an undefined one wins. -/
def maximum (x y : Extended α) : Extended α :=
  if x.isUndefined || y.isUndefined then undefined else if lt x y then y else x

/-- The smaller of two values; an undefined one wins. -/
def minimum (x y : Extended α) : Extended α :=
  if x.isUndefined || y.isUndefined then undefined else if lt y x then y else x

/-- The first value, unless the second one is strictly larger. -/
def orLarger (x y : Extended α) : Extended α := if lt x y then y else x

instance : Neg (Extended α) := ⟨neg⟩
instance : Add (Extended α) := ⟨add⟩
instance : Sub (Extended α) := ⟨sub⟩
instance : Zero (Extended α) := ⟨finite 0⟩

/-- A value moved into the interval from `lower` to `upper`. -/
def clamp (lower upper x : Extended α) : Extended α := minimum (maximum x lower) upper

@[simp] theorem neg_finite (a : α) : -(finite a) = finite (-a) := rfl
@[simp] theorem neg_top : -(top : Extended α) = bottom := rfl
@[simp] theorem neg_bottom : -(bottom : Extended α) = top := rfl
@[simp] theorem le_finite (a b : α) : le (finite a) (finite b) = decide (a ≤ b) := rfl
@[simp] theorem lt_finite (a b : α) : lt (finite a) (finite b) = decide (a < b) := rfl

end Extended

end RecedingHorizon
