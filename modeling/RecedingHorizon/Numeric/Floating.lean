import RecedingHorizon.Numeric.BracketedRoot
import RecedingHorizon.Numeric.Kernels
import RecedingHorizon.Numeric.MatrixEquation
import RecedingHorizon.Numeric.QuadraticProgram

/-!
# Numerical methods in floating point

The methods of this folder as one record. Singular values of a matrix with an entry that is not
finite do not exist, nor do the eigenvalues if it has more than two rows; a least-squares problem
with non-negative unknowns needs finite numbers as well.
-/

namespace RecedingHorizon.Kernels

/-- Some entry is not finite. -/
def hasGap {m n : Nat} (M : Mat Float m n) : Bool := M.anyEntry (!·.isFinite)

def ofList {n : Nat} (xs : List Float) : Except Fault (Vec Float n) :=
  if h : xs.length = n then .ok (Vec.ofList xs h) else .error .singular

/-- The eigenvalues of a symmetric matrix. For at most two rows they have a closed form, which makes
do with any entries. -/
def symmetricEigenvalues {n : Nat} (M : Mat Float n n) : Except Fault (Vec Float n) :=
  if 2 < n && hasGap M then .error .singular else ofList (Jacobi.eigenvalues M)

/-- The singular values of a matrix with finite entries that is not empty. -/
def singularValues {m n : Nat} (M : Mat Float m n) : Except Fault (List Float) :=
  if hasGap M then .error .singular else .ok (Jacobi.singularValues M)

/-- The number of singular values above the rounding error of the largest one. -/
def numericalRank {m n : Nat} (M : Mat Float m n) : Except Fault Nat := do
  let sizes ← singularValues M
  match sizes with
  | [] => throw .emptyReduction
  | largest :: _ =>
    let threshold := largest * (Float.ofNat (max m n) * 2.220446049250313e-16)
    return (sizes.filter fun s => threshold < s).length

/-- The ratio of the largest to the smallest singular value. -/
def conditioning {m n : Nat} (M : Mat Float m n) : Except Fault Float := do
  if m = 0 ∨ n = 0 then throw .singular
  let sizes ← singularValues M
  match sizes.head?, sizes.getLast? with
  | some largest, some smallest =>
    let ratio := largest / smallest
    return if ratio.isNaN then Scalar.infinity else ratio
  | _, _ => throw .singular

def floating : Kernels Float where
  eigenvalues := symmetricEigenvalues
  hermitianEigenvalues M := ofList (Jacobi.hermitianEigenvalues M)
  spectralRadius := Spectrum.radius
  rank := numericalRank
  conditionNumber := conditioning
  solve M Y :=
    match Mat.eliminate? Float.abs M Y with
    | some X => .ok X
    | none => .error .singular
  solveComplex M Y :=
    match Mat.eliminate? Complex.sizeOne M Y with
    | some X => .ok X
    | none => .error .singular
  riccati := MatrixEquation.riccati
  lyapunov := MatrixEquation.lyapunov
  nonnegativeLeastSquares M y :=
    if hasGap M || !y.allEntries Float.isFinite then .error .notNumeric
    else .ok (NonnegativeLeastSquares.solve M y)
  leastSquares M y := if hasGap M then .error .singular else .ok (Jacobi.leastSquares M y)
  quadraticProgram := QuadraticProgram.solve
  rootBetween := BracketedRoot.find

end RecedingHorizon.Kernels
