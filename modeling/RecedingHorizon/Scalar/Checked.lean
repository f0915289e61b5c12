import RecedingHorizon.Error
import RecedingHorizon.Scalar

/-!
# Operations that refuse

Single numbers are divided and squared with care: zero does not divide, and a finite number whose
square is out of range has none.
-/

namespace RecedingHorizon.Scalar

variable {α : Type} [Scalar α]

def quotient (x y : α) : Except Fault α := if y == 0 then .error .divisionByZero else .ok (x / y)

def square (x : α) : Except Fault α :=
  let y := x * x
  if isFinite x && !isFinite y then .error .tooLarge else .ok y

end RecedingHorizon.Scalar
