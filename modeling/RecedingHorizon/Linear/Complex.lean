import RecedingHorizon.Scalar

/-!
# Complex numbers

Pairs of scalars with complex arithmetic. A quotient divides by the larger part of the denominator
first, so that it neither overflows nor vanishes early.
-/

namespace RecedingHorizon

/-- The complex number `re + im i`. -/
structure Complex (α : Type) where
  re : α
  im : α
  deriving Repr, DecidableEq

namespace Complex

variable {α : Type} [Scalar α]

def ofReal (x : α) : Complex α := ⟨x, 0⟩

instance : Zero (Complex α) := ⟨⟨0, 0⟩⟩
instance : One (Complex α) := ⟨⟨1, 0⟩⟩
instance : Add (Complex α) := ⟨fun z w => ⟨z.re + w.re, z.im + w.im⟩⟩
instance : Sub (Complex α) := ⟨fun z w => ⟨z.re - w.re, z.im - w.im⟩⟩
instance : Neg (Complex α) := ⟨fun z => ⟨-z.re, -z.im⟩⟩
instance : Mul (Complex α) :=
  ⟨fun z w => ⟨z.re * w.re - z.im * w.im, z.re * w.im + z.im * w.re⟩⟩

/-- The quotient, scaled by the larger part of the denominator. -/
def div (z w : Complex α) : Complex α :=
  if Scalar.abs w.im ≤ Scalar.abs w.re then
    let ratio := w.im / w.re
    let size := w.re + w.im * ratio
    ⟨(z.re + z.im * ratio) / size, (z.im - z.re * ratio) / size⟩
  else
    let ratio := w.re / w.im
    let size := w.re * ratio + w.im
    ⟨(z.re * ratio + z.im) / size, (z.im * ratio - z.re) / size⟩

instance : Div (Complex α) := ⟨div⟩

/-- The number with the sign of its imaginary part changed. -/
def conjugate (z : Complex α) : Complex α := ⟨z.re, -z.im⟩

/-- The sum of the magnitudes of both parts. -/
def sizeOne (z : Complex α) : α := Scalar.abs z.re + Scalar.abs z.im

def magnitude (z : Complex α) : α :=
  let a := Scalar.abs z.re
  let b := Scalar.abs z.im
  let (large, small) := if a < b then (b, a) else (a, b)
  if small == 0 then large
  else
    let ratio := small / large
    large * Scalar.sqrt (1 + ratio * ratio)

def scale (c : α) (z : Complex α) : Complex α := ⟨c * z.re, c * z.im⟩

def onCircle (angle : α) : Complex α := ⟨Scalar.cos angle, Scalar.sin angle⟩

instance : BEq (Complex α) := ⟨fun z w => z.re == w.re && z.im == w.im⟩

end Complex

end RecedingHorizon
