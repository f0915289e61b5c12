import RecedingHorizon.Constraint.Polytope
import RecedingHorizon.Program.LeastDistance
import RecedingHorizon.Proofs.Constraint.Nearest

/-!
# The point nearest to the origin

The residual `r` of the least-squares problem is orthogonal to the answer and has no negative product
with any column. Under the reading of a point `x` as `(x, -1)`, the product of that point with a
column is what the row of the column leaves over, so that `r` is a multiple of the point that is
returned, and that point satisfies all rows and is the nearest one (`leastDistance_eq`).
-/

namespace RecedingHorizon

open Matrix

variable {k m n : Nat}

/-! ### Non-negative least squares -/

/-- A vector without negative entries whose image is as near to `y` as any other one's. -/
structure IsNonnegativeLeastSquares (M : Mat ℝ k m) (y : Vec ℝ k) (u : Vec ℝ m) : Prop where
  nonneg : ∀ j, 0 ≤ u j
  norm_le : ∀ w : Vec ℝ m, (∀ j, 0 ≤ w j) →
    Vec.norm (M.mulVec u - y) ≤ Vec.norm (M.mulVec w - y)

/-- The images of the vectors without negative entries. -/
def Mat.cone (M : Mat ℝ k m) : Set (Vec ℝ k) := {y | ∃ w : Vec ℝ m, (∀ j, 0 ≤ w j) ∧ y = M.mulVec w}

theorem Mat.isConvex_cone (M : Mat ℝ k m) : IsConvex M.cone := by
  rintro _ ⟨_, ⟨v, nonneg, rfl⟩, rfl⟩ _ ⟨_, ⟨w, nonneg', rfl⟩, rfl⟩ s t first second -
  refine ⟨M.mulVec (Vec.ofFn (s • v.get + t • w.get)), ⟨_, fun j => ?_, rfl⟩, ?_⟩
  · rw [Vec.ofFn_get]
    exact add_nonneg (mul_nonneg first (nonneg j)) (mul_nonneg second (nonneg' j))
  · simp only [Mat.get_mulVec, Vec.get_ofFn, mulVec_add, mulVec_smul]

namespace IsNonnegativeLeastSquares

variable {M : Mat ℝ k m} {y : Vec ℝ k} {u : Vec ℝ m}

theorem isNearest (minimal : IsNonnegativeLeastSquares M y u) :
    IsNearest M.cone y (M.mulVec u) := by
  refine ⟨⟨u, minimal.nonneg, rfl⟩, ?_⟩
  rintro _ ⟨w, nonneg, rfl⟩
  rw [Vec.norm_sub_comm, Vec.norm_sub_comm y]
  exact minimal.norm_le w nonneg

/-- The residual has no negative product with an image. -/
theorem dot_residual_le (minimal : IsNonnegativeLeastSquares M y u) {w : Vec ℝ m}
    (nonneg : ∀ j, 0 ≤ w j) :
    Vec.dot (M.mulVec u - y) (M.mulVec u) ≤ Vec.dot (M.mulVec u - y) (M.mulVec w) := by
  have far := minimal.isNearest.dot_le_zero M.isConvex_cone ⟨w, nonneg, rfl⟩
  simp only [Vec.dot_sub_left, Vec.dot_sub_right] at far ⊢
  linarith

/-- The residual is orthogonal to the image of the answer. -/
theorem dot_residual_eq_zero (minimal : IsNonnegativeLeastSquares M y u) :
    Vec.dot (M.mulVec u - y) (M.mulVec u) = 0 := by
  -- Neither nothing nor twice the answer is nearer, which bounds the product from both sides.
  have none := minimal.dot_residual_le (w := Vec.zeros m) fun j => by simp
  have twice := minimal.dot_residual_le (w := u.map (2 * ·)) fun j => by
    rw [Vec.get_scale]
    exact mul_nonneg zero_le_two (minimal.nonneg j)
  have zero : Vec.dot (M.mulVec u - y) (M.mulVec (Vec.zeros m)) = 0 := by simp [Vec.dot_eq]
  rw [Mat.mulVec_scale, Vec.dot_scale_right] at twice
  linarith

theorem dot_residual_nonneg (minimal : IsNonnegativeLeastSquares M y u) {w : Vec ℝ m}
    (nonneg : ∀ j, 0 ≤ w j) : 0 ≤ Vec.dot (M.mulVec u - y) (M.mulVec w) :=
  minimal.dot_residual_eq_zero ▸ minimal.dot_residual_le nonneg

end IsNonnegativeLeastSquares

/-! ### Points of a polytope -/

/-- The points that satisfy all rows. -/
def Polytope.region (set : Polytope ℝ m n) : Set (Vec ℝ n) :=
  {x | ∀ i, set.coefficients.mulVec x i ≤ set.bounds i}

theorem Polytope.isConvex_region (set : Polytope ℝ m n) : IsConvex set.region := by
  rintro _ ⟨x, first, rfl⟩ _ ⟨z, second, rfl⟩ s t nonneg nonneg' sum
  refine ⟨Vec.ofFn (s • x.get + t • z.get), fun i => ?_, Vec.get_ofFn _⟩
  have split : set.coefficients.mulVec (Vec.ofFn (s • x.get + t • z.get)) i =
      s * set.coefficients.mulVec x i + t * set.coefficients.mulVec z i := by
    simp only [Mat.get_mulVec, Vec.get_ofFn, mulVec_add, mulVec_smul, Pi.add_apply, Pi.smul_apply,
      smul_eq_mul]
  calc set.coefficients.mulVec (Vec.ofFn (s • x.get + t • z.get)) i
      = s * set.coefficients.mulVec x i + t * set.coefficients.mulVec z i := split
    _ ≤ s * set.bounds i + t * set.bounds i := by
        gcongr
        · exact first i
        · exact second i
    _ = set.bounds i := by rw [← add_mul, sum, one_mul]

/-- What the rows leave over at a point of the polytope has no negative weighted sum. -/
theorem Polytope.dot_remainder_nonneg {G : Mat ℝ m n} {g : Vec ℝ m} {x : Vec ℝ n}
    (inside : x ∈ region ⟨G, g⟩) {w : Vec ℝ m} (nonneg : ∀ j, 0 ≤ w j) :
    0 ≤ Vec.dot w (g - G.mulVec x) := by
  rw [Vec.dot_eq, Vec.get_sub]
  exact Fintype.sum_nonneg fun i => mul_nonneg (nonneg i) (sub_nonneg.mpr (inside i))

namespace LeastDistance

variable {G : Mat ℝ m n} {g : Vec ℝ m} {u : Vec ℝ m}

/-- The point with minus one behind it. -/
def lifted (x : Vec ℝ n) : Vec ℝ (n + 1) := Vec.ofFn fun i => Fin.lastCases (-1) (fun r => x r) i

theorem dot_lifted (y : Vec ℝ (n + 1)) (x : Vec ℝ n) :
    Vec.dot y (lifted x) = (∑ i : Fin n, y i.castSucc * x i) - y (Fin.last n) := by
  rw [Vec.dot_eq, dotProduct, Fin.sum_univ_castSucc]
  simp [lifted]
  ring

theorem dot_lifted_lifted (x z : Vec ℝ n) :
    Vec.dot (lifted x) (lifted z) = Vec.dot x z + 1 := by
  rw [dot_lifted, Vec.dot_eq x z]
  simp [lifted, dotProduct]

theorem dot_direction (y : Vec ℝ (n + 1)) : Vec.dot y (direction n) = y (Fin.last n) := by
  rw [Vec.dot_eq, dotProduct, Fin.sum_univ_castSucc]
  simp [direction, Fin.castSucc_ne_last]

theorem dot_lifted_direction (x : Vec ℝ n) : Vec.dot (lifted x) (direction n) = -1 := by
  rw [dot_direction]
  simp [lifted]

/-- The product of a lifted point with a column is what the row leaves over. -/
theorem dot_dual_lifted (w : Vec ℝ m) (x : Vec ℝ n) :
    Vec.dot ((dual G g).mulVec w) (lifted x) = Vec.dot w (g - G.mulVec x) := by
  have left (j : Fin m) : (dual G g).toMatrixᵀ.mulVec (lifted x).get j = g j - G.mulVec x j := by
    rw [Mat.get_mulVec, mulVec, dotProduct, Fin.sum_univ_castSucc, mulVec, dotProduct]
    simp [dual, lifted, Mat.toMatrix_apply]
    ring
  rw [Vec.dot_eq, Vec.dot_eq, Mat.get_mulVec, dotProduct_comm, ← vecMul_transpose,
    dotProduct_comm, ← dotProduct_mulVec]
  congr 1
  funext j
  rw [left, Vec.get_sub, Pi.sub_apply]

/-! ### The residual -/

/-- What the least-squares problem leaves over. -/
noncomputable def residual (G : Mat ℝ m n) (g : Vec ℝ m) (u : Vec ℝ m) : Vec ℝ (n + 1) :=
  (dual G g).mulVec u - direction n

/-- The point that a residual leads to. -/
noncomputable def pointOf (r : Vec ℝ (n + 1)) : Vec ℝ n :=
  Vec.ofFn fun i => -r i.castSucc / r (Fin.last n)

/-- The residual and a point: what the rows leave over, weighted with the answer, and one. -/
theorem dot_residual_lifted (u : Vec ℝ m) (z : Vec ℝ n) :
    Vec.dot (residual G g u) (lifted z) = Vec.dot u (g - G.mulVec z) + 1 := by
  rw [residual, Vec.dot_sub_left, dot_dual_lifted, Vec.dot_comm (direction n),
    dot_lifted_direction, sub_neg_eq_add]

section Exact

variable (minimal : IsNonnegativeLeastSquares (dual G g) (direction n) u)

include minimal

theorem last_residual :
    residual G g u (Fin.last n) = -Vec.dot (residual G g u) (residual G g u) := by
  have orthogonal : Vec.dot (residual G g u) ((dual G g).mulVec u) = 0 :=
    minimal.dot_residual_eq_zero
  -- What is left of the square of the residual is its product with the direction.
  have split : Vec.dot (residual G g u) (residual G g u) =
      Vec.dot (residual G g u) ((dual G g).mulVec u) - Vec.dot (residual G g u) (direction n) :=
    Vec.dot_sub_right _ _ _
  rw [split, orthogonal, dot_direction]
  ring

/-- A point that satisfies all rows keeps the residual away from zero. -/
theorem one_le_dot_residual {z : Vec ℝ n} (inside : z ∈ Polytope.region ⟨G, g⟩) :
    1 ≤ Vec.dot (residual G g u) (lifted z) := by
  rw [dot_residual_lifted, le_add_iff_nonneg_left]
  exact Polytope.dot_remainder_nonneg inside minimal.nonneg

theorem residual_pos (nonempty : (Polytope.region ⟨G, g⟩).Nonempty) :
    0 < Vec.dot (residual G g u) (residual G g u) := by
  obtain ⟨z, inside⟩ := nonempty
  have away := one_le_dot_residual minimal inside
  apply (Vec.dot_self_nonneg _).lt_of_ne
  intro vanishing
  rw [Vec.dot_self_eq_zero.mp vanishing.symm, Vec.dot_eq, Vec.get_zeros, zero_dotProduct] at away
  exact absurd away (not_le.mpr one_pos)

variable (positive : 0 < Vec.dot (residual G g u) (residual G g u))

include positive

/-- A nonzero residual is a multiple of the point that it leads to. -/
theorem residual_eq_scale :
    residual G g u = (lifted (pointOf (residual G g u))).map
      (Vec.dot (residual G g u) (residual G g u) * ·) := by
  have last := last_residual minimal
  apply Vec.get_inj.mp
  funext i
  rw [Vec.get_scale, Pi.smul_apply, smul_eq_mul]
  cases i using Fin.lastCases with
  | last => rw [last]; simp [lifted]
  | cast i =>
    rw [lifted, Vec.ofFn_get, Fin.lastCases_castSucc, pointOf, Vec.ofFn_get, last, neg_div_neg_eq,
      mul_div_cancel₀ _ positive.ne']

theorem dot_residual_eq_mul (y : Vec ℝ (n + 1)) :
    Vec.dot (residual G g u) y = Vec.dot (residual G g u) (residual G g u) *
      Vec.dot (lifted (pointOf (residual G g u))) y := by
  rw [← Vec.dot_scale_left, ← residual_eq_scale minimal positive]

/-- The point satisfies all rows. -/
theorem pointOf_mem_region : pointOf (residual G g u) ∈ Polytope.region ⟨G, g⟩ := by
  intro j
  -- The image of a unit vector is the column of its row.
  have nonneg : 0 ≤ Vec.dot (residual G g u) ((dual G g).mulVec (Vec.ofFn (Pi.single j 1))) :=
    minimal.dot_residual_nonneg fun i => by
      rw [Vec.ofFn_get, Pi.single_apply]
      split <;> norm_num
  have row : Vec.dot (Vec.ofFn (Pi.single j 1)) (g - G.mulVec (pointOf (residual G g u))) =
      g j - G.mulVec (pointOf (residual G g u)) j := by
    rw [Vec.dot_eq, Vec.get_ofFn, single_one_dotProduct, Vec.get_sub, Pi.sub_apply]
  rw [dot_residual_eq_mul minimal positive, Vec.dot_comm (lifted _), dot_dual_lifted, row] at nonneg
  exact sub_nonneg.mp (nonneg_of_mul_nonneg_right nonneg positive)

/-- The length of the residual and that of the point determine each other. -/
theorem residual_mul_length :
    Vec.dot (residual G g u) (residual G g u) *
      (Vec.dot (pointOf (residual G g u)) (pointOf (residual G g u)) + 1) = 1 := by
  have orthogonal : Vec.dot (residual G g u) ((dual G g).mulVec u) = 0 :=
    minimal.dot_residual_eq_zero
  rw [dot_residual_eq_mul minimal positive, Vec.dot_comm (lifted _), dot_dual_lifted] at orthogonal
  -- The answer is positive only for rows that the point satisfies with equality.
  have tight := (mul_eq_zero_iff_left positive.ne').mp orthogonal
  rw [← dot_lifted_lifted, ← dot_residual_eq_mul minimal positive, dot_residual_lifted, tight,
    zero_add]

/-- Every point that satisfies all rows lies beyond the plane through the point. -/
theorem dot_self_le_dot {z : Vec ℝ n} (inside : z ∈ Polytope.region ⟨G, g⟩) :
    Vec.dot (pointOf (residual G g u)) (pointOf (residual G g u)) ≤
      Vec.dot (pointOf (residual G g u)) z := by
  have beyond := one_le_dot_residual minimal inside
  rw [dot_residual_eq_mul minimal positive, dot_lifted_lifted] at beyond
  have compared := (residual_mul_length minimal positive).trans_le beyond
  exact (add_le_add_iff_right 1).mp (le_of_mul_le_mul_left compared positive)

/-- The point is the one nearest to the origin. -/
theorem isNearest_pointOf :
    IsNearest (Polytope.region ⟨G, g⟩) (Vec.zeros n) (pointOf (residual G g u)) := by
  refine ⟨pointOf_mem_region minimal positive, fun z inside => ?_⟩
  have beyond := dot_self_le_dot minimal positive inside
  have apart := Vec.dot_self_nonneg (z - pointOf (residual G g u))
  rw [Vec.norm_le_norm_iff]
  simp only [Vec.dot_sub_left, Vec.dot_sub_right, Vec.dot_comm z] at apart ⊢
  simp only [Vec.dot_eq, Vec.get_zeros, zero_dotProduct, dotProduct_zero] at apart beyond ⊢
  linarith

end Exact

/-- The tests for an empty polytope come down to one: whether the point is far away. -/
theorem threshold_iff {r : Vec ℝ (n + 1)} {square : ℝ} (nonneg : 0 ≤ square)
    (length : Vec.dot r r * (square + 1) = 1) (last : r (Fin.last n) = -Vec.dot r r) :
    (Vec.norm r ≤ threshold ∨ Scalar.abs (r (Fin.last n)) ≤ threshold) ↔
      10 ^ 12 ≤ 1 + square := by
  have above : 0 < square + 1 := by linarith
  have inverse : Vec.dot r r = (square + 1)⁻¹ := eq_inv_of_mul_eq_one_left length
  have small : (threshold : ℝ) = (10 ^ 12)⁻¹ := by norm_num [threshold]
  have entry : Scalar.abs (r (Fin.last n)) = (square + 1)⁻¹ := by
    change |r (Fin.last n)| = _
    rw [last, abs_neg, inverse, abs_of_pos (inv_pos.mpr above)]
  have norm : Vec.norm r = √(square + 1)⁻¹ := by
    rw [← inverse]
    rfl
  -- The length is the root of a number not above one, so the first test implies the second.
  have atMost : (square + 1)⁻¹ ≤ √(square + 1)⁻¹ :=
    Real.le_sqrt_of_sq_le (pow_le_of_le_one (inv_nonneg.mpr above.le)
      (inv_le_one_of_one_le₀ (by linarith)) two_ne_zero)
  rw [entry, norm, small, or_iff_right_of_imp (atMost.trans), inv_le_inv₀ above (by positivity),
    add_comm]

section Answer

variable {nonnegative : Mat ℝ (n + 1) m → Vec ℝ (n + 1) → Except Fault (Vec ℝ m)}
variable (answered : nonnegative (dual G g) (direction n) = .ok u)

include answered

theorem leastDistance_of_ok :
    leastDistance nonnegative G g =
      if Vec.norm (residual G g u) ≤ threshold ∨
        Scalar.abs (residual G g u (Fin.last n)) ≤ threshold
      then .error .emptyConstraintSet else .ok (pointOf (residual G g u)) := by
  simp only [leastDistance, answered, bind, Except.bind]
  exact ite_congr rfl (fun _ => rfl) fun _ => rfl

/-- The shortest vector of a polytope with a point is found, unless it is so long that the polytope
counts as empty. -/
theorem leastDistance_eq (minimal : IsNonnegativeLeastSquares (dual G g) (direction n) u)
    (nonempty : (Polytope.region ⟨G, g⟩).Nonempty) :
    ∃ x, IsNearest (Polytope.region ⟨G, g⟩) (Vec.zeros n) x ∧
      leastDistance nonnegative G g =
        if 1 + Vec.dot x x < 10 ^ 12 then .ok x else .error .emptyConstraintSet := by
  have positive := residual_pos minimal nonempty
  have tests := threshold_iff (Vec.dot_self_nonneg _) (residual_mul_length minimal positive)
    (last_residual minimal)
  refine ⟨_, isNearest_pointOf minimal positive, ?_⟩
  rw [leastDistance_of_ok answered, ← ite_not]
  exact ite_congr (propext (tests.not.trans not_le)) (fun _ => rfl) fun _ => rfl

end Answer

end LeastDistance

end RecedingHorizon
