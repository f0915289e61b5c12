import RecedingHorizon.Argument.Checked
import RecedingHorizon.Numeric.Kernels
import RecedingHorizon.Program.LeastDistance

/-!
# Quadratic programs with inequalities

Minimizes `½ x' P x + q' x` subject to `G x ≤ g`. A program without rows is a system of linear
equations, and a multiple of the squared length is minimal at the point nearest to the origin; every
other program is left to a general method.
-/

namespace RecedingHorizon

variable {α : Type} [Scalar α] {m n : Nat}

namespace InequalityProgram

/-- Two values agree up to rounding: within `1e-8`, or within the part `1e-5` of the second. -/
def agrees (x y : α) : Bool :=
  (Scalar.isFinite y && decide (Scalar.abs (x - y) ≤ 1e-8 + 1e-5 * Scalar.abs y)) || x == y

/-- The matrix is a positive multiple of the identity, up to rounding. -/
def isScaledIdentity (P : Mat α n n) : Except Fault Bool :=
  if h : 0 < n then
    let scale := P ⟨0, h⟩ ⟨0, h⟩
    let agreeing := List.zipWith agrees P.toList (Mat.scale scale (Mat.identity n)).toList
    .ok (decide (0 < scale) && agreeing.all id)
  else .error .outOfRange

def minimizer (kit : Kernels α) (P : Mat α n n) (q : Vec α n) (G : Mat α m n) (g : Vec α m) :
    Except Fault (Vec α n) := do
  if m = 0 then
    return (← kit.leastSquares P q).map (- ·)
  if !q.toList.any (· != 0) then
    if ← isScaledIdentity P then return ← leastDistance kit.nonnegativeLeastSquares G g
  kit.quadraticProgram P q G g

end InequalityProgram

structure InequalityProgram (α : Type) where
  quadratic : Tensor α
  linear : Tensor α
  coefficients : Tensor α
  bounds : Tensor α

namespace InequalityProgram

/-- The program of the point of `G x ≤ g` nearest to the origin; the number of variables is the
length of the second axis. -/
def nearestToOrigin (coefficients bounds : Tensor α) : Except Fault (InequalityProgram α) :=
  match coefficients.shape with
  | _ :: n :: _ =>
    .ok {
      quadratic := .ofMat (Mat.identity n)
      linear := .ofVec (Vec.zeros n)
      coefficients
      bounds := bounds.flatten }
  | _ => .error .outOfRange

def solve (kit : Kernels α) (p : InequalityProgram α) : Except Fault (Tensor α) := do
  let ⟨n, q⟩ := listed p.linear
  let ⟨m, g⟩ := listed p.bounds
  let P ← p.quadratic.matrixOfSize n n "P"
  let G ← p.coefficients.matrixOfSize m n "G"
  return .ofVec (← minimizer kit P q G g)
where
  listed (t : Tensor α) : Σ n, Vec α n := ⟨t.toList.length, t.toList.toArray.toVector⟩

end InequalityProgram

end RecedingHorizon
