import RecedingHorizon.Numeric.Cholesky
import RecedingHorizon.Numeric.Elimination
import RecedingHorizon.Numeric.NonnegativeLeastSquares
import RecedingHorizon.Program.LeastDistance

/-!
# Quadratic programs

A program with a positive definite matrix is a search for the point of a polytope nearest to the
origin, in coordinates in which the matrix is the identity. Any other program is approached by such
ones: each adds the squared distance from the last point, weighted so that the matrix becomes
positive definite, and the points settle where the conditions of optimality hold.
-/

namespace RecedingHorizon.QuadraticProgram

variable {m n : Nat}

/-- The vector `x` with `L' x = y`, for a lower triangular `L`. -/
def solveTransposed (L : Mat Float n n) (y : Vec Float n) : Option (Vec Float n) :=
  (Mat.eliminate? Float.abs L.transpose (Mat.ofColumn y)).map Mat.onlyColumn

/-- The minimizer of a program with a positive definite matrix, given its triangular root. -/
def solveDefinite (L : Mat Float n n) (q : Vec Float n) (G : Mat Float m n) (g : Vec Float m) :
    Except Fault (Vec Float n) := do
  -- With y = L' x + c and L c = q the objective is half the square of the length of y.
  let some shift := Mat.eliminate? Float.abs L (Mat.ofColumn q) | throw .quadraticProgramFailed
  let some rows := Mat.eliminate? Float.abs L G.transpose | throw .quadraticProgramFailed
  let c := shift.onlyColumn
  let G' := rows.transpose
  let y ← leastDistance (fun M y => pure (NonnegativeLeastSquares.solve M y)) G' (g + G'.mulVec c)
  let some x := solveTransposed L (y - c) | throw .quadraticProgramFailed
  return x

/-- Points of nearby programs until they settle. -/
def approach (L : Mat Float n n) (weight : Float) (q : Vec Float n) (G : Mat Float m n)
    (g : Vec Float m) : (fuel : Nat) → Vec Float n → Except Fault (Vec Float n)
  | 0, _ => .error .quadraticProgramFailed
  | fuel + 1, x => do
    let next ← solveDefinite L (q - x.map (fun t => weight * t)) G g
    if Vec.norm (next - x) ≤ 1e-13 * (1.0 + Vec.norm next) then return next
    else if 1e8 < Vec.norm next then throw .quadraticProgramFailed
    else approach L weight q G g fuel next

/-- A point where `½ x' P x + q' x` is stationary subject to `G x ≤ g`; the minimizer, if the
program is convex. -/
def solve (P : Mat Float n n) (q : Vec Float n) (G : Mat Float m n) (g : Vec Float m) :
    Except Fault (Vec Float n) :=
  let P := P.symmetrize
  let answer :=
    match P.cholesky? with
    | some L => solveDefinite L q G g
    | none =>
      let size : Float := P.toList.foldl (fun s x => s + Float.abs x) 0.0
      let weight := 1.0 + 2.0 * size
      match (P + Mat.scale weight (Mat.identity n)).cholesky? with
      | some L => approach L weight q G g 2000 (Vec.zeros n)
      | none => .error .quadraticProgramFailed
  match answer with
  | .ok x => if x.toList.all Float.isFinite then .ok x else .error .quadraticProgramFailed
  | .error _ => .error .quadraticProgramFailed

end RecedingHorizon.QuadraticProgram
