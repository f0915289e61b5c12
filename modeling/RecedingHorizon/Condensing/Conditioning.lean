import RecedingHorizon.Condensing.Program
import RecedingHorizon.Argument.Checked
import RecedingHorizon.Numeric.Kernels
import RecedingHorizon.Text.Lowercase
import RecedingHorizon.Text.Quoted

/-!
# Conditioning of the condensed Hessian

The condition number of the Hessian says how hard the program is for a gradient method. It is
computed from the Hessian itself, or bounded for all horizons at once: the blocks of the Hessian
depend on the distance from the diagonal only, up to the last stages, and the ratio of the extreme
eigenvalues of the matrix function on the unit circle with these blocks as coefficients is an
estimate that does not depend on the horizon. The function is sampled at equal distances.
-/

namespace RecedingHorizon.ConstrainedLqr

variable {α : Type} [Scalar α] {n m p : Nat}

def toComplex {k l : Nat} (M : Mat α k l) : Mat (Complex α) k l := M.map Complex.ofReal

def adjoint {k l : Nat} (M : Mat (Complex α) k l) : Mat (Complex α) l k :=
  M.transpose.map Complex.conjugate

/-- The function `p* Q p - R K q - q* K' R + R` at a point `z`, with `q = (z - A)⁻¹ B` and `p = z q`
for the system under the feedback. -/
def symbol (kit : Kernels α) (problem : ConstrainedLqr α n m p) (z : Complex α) :
    Except Fault (Mat (Complex α) m m) := do
  let closed := problem.closedLoop
  let shifted : Mat (Complex α) n n :=
    Mat.scale z (Mat.identity n) - toComplex closed.dynamics
  let q ← kit.solveComplex shifted (toComplex closed.input)
  let p := Mat.scale z q
  let cross := toComplex (problem.inputWeight * problem.gain) * q
  return adjoint p * toComplex problem.controlledStateWeight * p - cross - adjoint cross +
    toComplex problem.inputWeight

/-- Sample `k` of `count` on the unit circle. -/
def samplePoint (count k : Nat) : Complex α :=
  Complex.onCircle (-Scalar.pi / 2.0 + 2.0 * Scalar.pi * Scalar.ofNat k / Scalar.ofNat count)

/-- The magnitudes of the eigenvalues of the preconditioned function at a sample. -/
def sampleSizes (kit : Kernels α) (problem : ConstrainedLqr α n m p) (preconditioner : Mat α m m)
    (z : Complex α) : Except Fault (List α) := do
  let left := toComplex preconditioner
  let right := toComplex preconditioner.transpose
  let values ← kit.hermitianEigenvalues (left * (← problem.symbol kit z) * right)
  return values.toList.map Scalar.abs

/-- The ratio of the largest to the smallest of a list of sizes. -/
def extremeRatio (sizes : List α) : Except Fault α :=
  match sizes with
  | [] => .error .emptyReduction
  | s :: rest => .ok (rest.foldl Scalar.maximum s / rest.foldl Scalar.minimum s)

/-- The ratio of the extreme eigenvalues over `count` samples. -/
def sampledRatio (kit : Kernels α) (problem : ConstrainedLqr α n m p) (preconditioner : Mat α m m)
    (count : Nat) : Except Fault α := do
  let sizes ← (List.range count).mapM fun k =>
    problem.sampleSizes kit preconditioner (samplePoint count (k + 1))
  extremeRatio sizes.flatten

/-- The preconditioner that an argument is; the identity if there is none. -/
def readPreconditioner (m : Nat) (a : Argument α) : Except Fault (Mat α m m) := do
  if !a.isGiven then return Mat.identity m
  (← a.toTensor).matrixOfSize m m "preconditioner"

/-- The bound on the condition number, for stable systems without cross weight. -/
def conditionBound (kit : Kernels α) (problem : ConstrainedLqr α n m p)
    (preconditioner samples : Argument α) : Except Fault α := do
  if !(← problem.closedLoop.isStable kit) then throw .unstableSystem
  if problem.hasCrossWeight then throw .crossTermPresent
  if ← samples.isBelow 1 then throw (.samplingPoints samples.shown)
  let preconditioner ← readPreconditioner m preconditioner
  problem.sampledRatio kit preconditioner (← samples.toLength)

def defaultSamples : Nat := 1000

/-- The condition number, computed or bounded as asked for by name. -/
def conditionNumber (kit : Kernels α) (problem : ConstrainedLqr α n m p) (kind : Argument α) :
    Except Fault α := do
  match kind with
  | .text s =>
    match lowercase s with
    | "exact" => kit.conditionNumber problem.hessian
    | "bound" => problem.conditionBound kit .nothing (.whole defaultSamples)
    | other => throw (.unknownConditionKind (quoted other))
  | _ => throw .missingAttribute

end RecedingHorizon.ConstrainedLqr
