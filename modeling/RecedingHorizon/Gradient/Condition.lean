import RecedingHorizon.Gradient.Iteration
import RecedingHorizon.Scalar.Bounds

/-!
# Stopping conditions

A condition looks at an iteration and says whether it is good enough. The gradient test estimates the
distance from the minimum by the length of the projected gradient step, the conjugate test by the
inner product of the new point with its gradient; both compare their estimate with a tolerance, which
may be meant for all variables together. The gradient test has no estimate for an objective that is
not strictly convex: the estimate is then infinite, unless the step has length zero.
-/

namespace RecedingHorizon.Gradient

variable {α V σ : Type} [Scalar α]

/-- A tolerance. When it is scaled, it is divided by the number of variables. -/
structure Tolerance (α : Type) where
  eps : α
  isScaled : Bool := true
  size : Int := 1

/-- The number that an estimate has to stay below. -/
def Tolerance.threshold (t : Tolerance α) : Except Fault α :=
  if t.isScaled then Scalar.quotient t.eps (Scalar.ofInt t.size) else .ok t.eps

/-- The gradient test, with bounds `L` and `μ` on the eigenvalues of the Hessian. -/
structure GradientTest (α : Type) where
  tolerance : Tolerance α
  largest : α
  smallest : α

namespace GradientTest

def ofTolerance (tolerance : Tolerance α) : GradientTest α := ⟨tolerance, 1, 1⟩

/-- The factor `½ (1/μ - 1/L)` of the estimate. -/
def coefficient (t : GradientTest α) : Except Fault (Extended α) := do
  if t.smallest ≤ 0 then return .top
  let inverse ← Scalar.quotient 1 t.smallest
  return .ofScalar (0.5 * (inverse - (← Scalar.quotient 1 t.largest)))

/-- The magnitude of the product of a factor and a square. -/
def magnitude (factor : Extended α) (square : α) : Extended α :=
  match factor with
  | .finite c => .ofScalar (Scalar.abs (c * square))
  | .undefined => .undefined
  | .top | .bottom => if Scalar.isUndefined square then .undefined else .top

variable [Space α V]

/-- The estimate `½ (1/μ - 1/L) ‖L (y - x₊)‖²`; zero if the points agree. -/
def value (t : GradientTest α) (s : Iteration V σ) : Except Fault (Extended α) := do
  let length := Space.norm (Space.scale t.largest (← Space.sub s.y s.xNext))
  let square := length * length
  -- Without this, the infinite factor of an objective that is not strictly convex would meet a zero.
  if square == 0 then return .finite 0
  return magnitude (← t.coefficient) square

def holds (t : GradientTest α) (s : Iteration V σ) : Except Fault Bool := do
  let value ← t.value s
  return Extended.lt value (.ofScalar (← t.tolerance.threshold))

end GradientTest

variable [Space α V]

/-- The conjugate estimate `|x₊' g + ‖g‖₁|`, where `g` is the gradient at `x₊`. -/
def conjugateResidual (s : Iteration V σ) : Except Fault α := do
  let length ← Space.normOne s.gradientAtXNext
  return Scalar.abs ((← Space.inner s.xNext s.gradientAtXNext) + length)

def Tolerance.holdsConjugate (t : Tolerance α) (s : Iteration V σ) : Except Fault Bool := do
  let residual ← conjugateResidual s
  return decide (residual < (← t.threshold))

/-- When a run has come far enough. -/
inductive Condition (α : Type) where
  | gradient (test : GradientTest α)
  | conjugate (tolerance : Tolerance α)
  /-- One of the two tests holds. -/
  | either (gradient : GradientTest α) (conjugate : Tolerance α)
  /-- The iteration has a number, or a later one. -/
  | iteration (count : α)
  /-- The gradient at the new point is short. -/
  | smallGradient (eps : α)
  | unspecified

namespace Condition

/-- One of the two tests holds, with tolerances `eps₁` and `eps₂`. -/
def best (eps₁ eps₂ : α) (isScaled : Bool) : Condition α :=
  either (.ofTolerance { eps := eps₁, isScaled }) { eps := eps₂, isScaled }

/-- The condition when nothing else is asked for. -/
def standard : Condition α := best 1e-4 1e-4 true

/-- The condition for a program with `size` variables and bounds `L` and `μ` on the eigenvalues of its
Hessian. -/
def forProgram (size : Int) (largest smallest : α) : Condition α → Condition α
  | gradient test => gradient (fit test)
  | conjugate tolerance => conjugate { tolerance with size }
  | either test tolerance => either (fit test) { tolerance with size }
  | other => other
where
  fit (test : GradientTest α) : GradientTest α := ⟨{ test.tolerance with size }, largest, smallest⟩

/-- The condition holds for an iteration. The gradient test goes first. -/
def holds (c : Condition α) (s : Iteration V σ) : Except Fault Bool := do
  match c with
  | gradient test => test.holds s
  | conjugate tolerance => tolerance.holdsConjugate s
  | either test tolerance => if ← test.holds s then return true else tolerance.holdsConjugate s
  | iteration count => return decide (count ≤ Scalar.ofNat s.count)
  | smallGradient eps => return decide (Space.norm s.gradientAtXNext < eps)
  | unspecified => throw .missingMethod

end Condition

end RecedingHorizon.Gradient
