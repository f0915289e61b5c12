/-!
# Extended values

A bound may be infinite, and a difference of infinite bounds has no value. `Extended α` adds both
to a scalar type: `bottom` and `top` are the infinities, `undefined` is the result that no
comparison accepts. The arithmetic itself is in `RecedingHorizon.Scalar.Bounds`, once scalars are
known.
-/

namespace RecedingHorizon

/-- A scalar, an infinity of either sign, or no value at all. -/
inductive Extended (α : Type) where
  | undefined
  | bottom
  | finite (a : α)
  | top
  deriving Repr, DecidableEq, Inhabited

namespace Extended

variable {α : Type}

/-- True of scalars only: neither infinity is finite, and nor is the undefined value. -/
def isFinite : Extended α → Bool
  | finite _ => true
  | _ => false

/-- True of the undefined value only. -/
def isUndefined : Extended α → Bool
  | undefined => true
  | _ => false

def finite? : Extended α → Option α
  | finite a => some a
  | _ => none

@[simp] theorem isFinite_finite (a : α) : (finite a).isFinite = true := rfl
@[simp] theorem isFinite_top : (top : Extended α).isFinite = false := rfl
@[simp] theorem isFinite_bottom : (bottom : Extended α).isFinite = false := rfl
@[simp] theorem isFinite_undefined : (undefined : Extended α).isFinite = false := rfl

end Extended

end RecedingHorizon
