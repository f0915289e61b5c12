import RecedingHorizon.Linear.Matrix
import RecedingHorizon.Error

/-!
# The point nearest to the origin

The shortest vector of a polytope `G x ≤ g` comes from a least-squares problem in non-negative
unknowns: with `M` the matrix of the columns `(-Gᵢ, -gᵢ)` and `d` the last unit vector, let `u ≥ 0`
make the residual `r = M u - d` as short as possible. If the residual vanishes, `u` shows that no
point satisfies all rows; otherwise the shortest point is `-r` without its last entry, divided by
that entry.
-/

namespace RecedingHorizon

variable {α : Type} [Scalar α] {m n : Nat}

namespace LeastDistance

/-- A residual entry this small counts as zero. -/
def threshold : α := 1e-12

/-- The rows of the polytope as columns, with the signs changed and the bound below the row. -/
def dual (G : Mat α m n) (g : Vec α m) : Mat α (n + 1) m :=
  Mat.ofFn fun i j => Fin.lastCases (-g j) (fun r => -G j r) i

/-- The last unit vector. -/
def direction (n : Nat) : Vec α (n + 1) := Vec.ofFn fun i => if i = Fin.last n then 1 else 0

end LeastDistance

/-- The shortest vector `x` with `G x ≤ g`, found with a method for least squares in non-negative
unknowns. -/
def leastDistance (nonnegative : Mat α (n + 1) m → Vec α (n + 1) → Except Fault (Vec α m))
    (G : Mat α m n) (g : Vec α m) : Except Fault (Vec α n) := do
  let M := LeastDistance.dual G g
  let d := LeastDistance.direction n
  let u ← nonnegative M d
  let r := M.mulVec u - d
  let last := r (Fin.last n)
  if Vec.norm r ≤ LeastDistance.threshold ∨ Scalar.abs last ≤ LeastDistance.threshold then
    throw .emptyConstraintSet
  return Vec.ofFn fun i => -r i.castSucc / last

end RecedingHorizon
