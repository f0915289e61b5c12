import RecedingHorizon.Numeric.Jacobi

/-!
# Least squares with non-negative unknowns

Keeps a set of columns whose unknowns may be positive. The column along which the residual falls
fastest joins the set; if the least-squares solution on the set has an unknown that is not positive,
the step toward it stops where the first one vanishes, and that column leaves the set again.
-/

namespace RecedingHorizon.NonnegativeLeastSquares

variable {m n : Nat}

/-- The least-squares solution that uses the given columns only. -/
def solveOn (M : Mat Float m n) (y : Vec Float m) (active : List (Fin n)) : Vec Float n :=
  let chosen := active.toArray.toVector
  let part : Mat Float m active.toArray.size := Mat.ofFn fun i j => M i (chosen j)
  let solution := Jacobi.leastSquares part y
  active.zipIdx.foldl (fun x (j, k) => x.set j.val (solution.toArray.getD k 0.0) j.isLt) (Vec.zeros n)

/-- Moves from `x` toward the solution on the active columns until it is positive there. -/
def feasible (M : Mat Float m n) (y : Vec Float m) :
    (fuel : Nat) → List (Fin n) → Vec Float n → List (Fin n) × Vec Float n
  | 0, active, x => (active, x)
  | fuel + 1, active, x =>
    let target := solveOn M y active
    let blocking := active.filter fun j => target j ≤ 0.0
    if blocking.isEmpty then (active, target)
    else
      let ratios := blocking.map fun j => x j / (x j - target j)
      let part := ratios.foldl min 1.0
      let moved : Vec Float n := Vec.ofFn fun j => x j + part * (target j - x j)
      let limiting := (blocking.zip ratios).filter fun (_, r) => r ≤ part
      let left := active.filter fun j => !(limiting.any (·.1 == j)) && 0.0 < moved j
      feasible M y fuel left (Vec.ofFn fun j => if left.contains j then moved j else 0.0)

/-- Adds columns until none promises a smaller residual. -/
def grow (M : Mat Float m n) (y : Vec Float m) (threshold : Float) :
    (fuel : Nat) → List (Fin n) → Vec Float n → Vec Float n
  | 0, _, x => x
  | fuel + 1, active, x =>
    let descent := Mat.vecMul (y - M.mulVec x) M
    let candidates := (List.finRange n).filter fun j => !active.contains j && threshold < descent j
    match candidates with
    | [] => x
    | first :: rest =>
      let best := rest.foldl (fun b j => if descent b < descent j then j else b) first
      let (left, moved) := feasible M y (n + 1) (best :: active) x
      -- A column that cannot become positive is of no use.
      if left.contains best then grow M y threshold fuel left moved else moved

/-- The vector `u ≥ 0` with the smallest residual `M u - y`. -/
def solve (M : Mat Float m n) (y : Vec Float m) : Vec Float n :=
  let largest := M.toList.foldl (fun s x => max s x.abs) 0.0
  let threshold := 1e-14 * Float.ofNat (max m n) * largest
  grow M y threshold (3 * n + 30) [] (Vec.zeros n)

end RecedingHorizon.NonnegativeLeastSquares
