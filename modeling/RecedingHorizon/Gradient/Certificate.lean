import RecedingHorizon.Gradient.Minimization
import RecedingHorizon.Program.Inequality
import RecedingHorizon.Scalar.Checked
import RecedingHorizon.Scalar.Logarithm

/-!
# How many iterations are enough

Before a run it can be said how many iterations it takes from the origin to come within `ε` of the
minimum. With `x` the point of `G x ≤ g` nearest to the origin, the initial distance is estimated by
`Δ = (L/2) ‖x‖²`. It shrinks by the factor `1 - 1/√κ` with every iteration, and after `k` iterations
it is `4 Δ / (k + 2)²` at most; the bound is the smaller one of the two counts that follow.
-/

namespace RecedingHorizon.Gradient

variable {α : Type} [Scalar α]

/-- A method for programs with inequalities. -/
abbrev ProgramSolver (α : Type) := InequalityProgram α → Except Fault (Tensor α)

def squareOf (t : Tensor α) : Except Fault (Σ n, Mat α n n) :=
  match t with
  | ⟨[m, n], rows⟩ =>
    let M : Mat α m n := ⟨rows⟩
    if h : m = n then .ok ⟨n, h ▸ M⟩ else .error .singular
  | _ => .error .singular

/-- The bound on the eigenvalues: given, or the largest eigenvalue of a Hessian that is given. -/
def largestEigenvalue (kit : Kernels α) (hessian? : Option (Tensor α)) (largest : Argument α) :
    Except Fault α := do
  if largest.isGiven then return ← largest.toScalar
  match hessian? with
  | none => throw .eigenvalueMissing
  | some hessian =>
    let ⟨_, H⟩ ← squareOf hessian
    match (← kit.eigenvalues H).toList.getLast? with
    | some value => return value
    | none => throw .outOfRange

/-- The estimate `Δ` of the initial distance, for a bound `L` on the eigenvalues. -/
def initialGap (solver : ProgramSolver α) (coefficients bounds : Tensor α) (largest : α) :
    Except Fault α := do
  let x ← solver (← InequalityProgram.nearestToOrigin coefficients bounds)
  return largest / 2.0 * (← x.inner x)

/-- The estimate with the bound on the eigenvalues taken from what is given. -/
def coldStartGap (kit : Kernels α) (solver : ProgramSolver α) (coefficients bounds : Tensor α)
    (hessian? : Option (Tensor α)) (largest : Argument α) : Except Fault α := do
  initialGap solver coefficients bounds (← largestEigenvalue kit hessian? largest)

/-- The iterations after which the factor `1 - 1/√κ` has taken the gap to `ε`. -/
def linearCount (eps condition gap : α) : Except Fault (Extended Int) := do
  let shrinking := Extended.log (1 - Scalar.sqrt (← Scalar.quotient 1 condition))
  return ((Extended.log eps - Extended.log gap).div shrinking).ceil

/-- The iterations after which the gap divided by `(k + 2)² / 4` is `ε`. -/
def sublinearCount (eps gap : α) : Except Fault (Extended Int) := do
  return (Extended.ofScalar (2.0 * Scalar.sqrt (← Scalar.quotient gap eps) - 2.0)).ceil

/-- A count as a number of iterations: none if it is negative or does not exist. -/
def iterationsOf : Extended Int → Except Fault Nat
  | .undefined | .bottom => .ok 0
  | .finite count => .ok count.toNat
  | .top => .error .tooLarge

/-- The bound on the iterations, for the accuracy `ε`, the condition number `κ` and the gap `Δ`. -/
def iterationBound (eps condition gap : α) : Except Fault Nat := do
  let linear ← linearCount eps condition gap
  iterationsOf (linear.smaller (← sublinearCount eps gap))

/-- The bound on the iterations. The condition number and the bound on the eigenvalues may be given
or come from the Hessian. -/
def upperIterationBound (kit : Kernels α) (solver : ProgramSolver α) (eps : Argument α)
    (coefficients bounds : Tensor α) (hessian? : Option (Tensor α))
    (largest condition : Argument α) : Except Fault Nat := do
  let condition ←
    if condition.isGiven then pure condition
    else
      match hessian? with
      | none => throw .conditionMissing
      | some ⟨[m, n], rows⟩ =>
        let H : Mat α m n := ⟨rows⟩
        pure (.real (← kit.conditionNumber H))
      | some _ => throw .singular
  let gap ← coldStartGap kit solver coefficients bounds hessian? largest
  iterationBound (← eps.toNumber) (← condition.toNumber) gap

end RecedingHorizon.Gradient
