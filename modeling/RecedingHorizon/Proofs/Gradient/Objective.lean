import RecedingHorizon.Gradient.Minimization
import RecedingHorizon.Proofs.Constraint.Nearest

/-!
# Objectives and projected gradient steps

The objective of a gradient method lies between two parabolas around each point
(`objective_le`, `le_objective`), and the nearest point of a convex set is the one that no direction into the
set improves (`IsNearest.dot_le_zero`). Together they bound the objective after a projected gradient
step from any point at all (`objective_step_le`), whether the point belongs to the set or not.
-/

namespace RecedingHorizon

open Matrix

variable {n : Nat}

namespace Gradient

/-! ### The objective -/

/-- The objective `½ x' H x + b' x`. -/
noncomputable def objective (H : Mat ℝ n n) (b x : Vec ℝ n) : ℝ :=
  Vec.dot x (H.mulVec x) / 2 + Vec.dot b x

/-- A symmetric Hessian with its eigenvalues between `μ` and `L`. -/
structure HasCurvature (H : Mat ℝ n n) (μ L : ℝ) : Prop where
  symmetric : H.transpose = H
  lower : ∀ x, μ * Vec.dot x x ≤ Vec.dot x (H.mulVec x)
  upper : ∀ x, Vec.dot x (H.mulVec x) ≤ L * Vec.dot x x

variable {H : Mat ℝ n n} {b : Vec ℝ n} {μ L : ℝ}

theorem hasCurvature_identity (above : 1 ≤ L) : HasCurvature (Mat.identity n) 1 L := by
  refine ⟨Mat.transpose_identity, fun x => ?_, fun x => ?_⟩ <;> rw [Mat.identity_mulVec]
  · rw [one_mul]
  · exact le_mul_of_one_le_left (Vec.dot_self_nonneg x) above

theorem mulVec_sub (H : Mat ℝ n n) (x y : Vec ℝ n) :
    H.mulVec (x - y) = H.mulVec x - H.mulVec y := by
  apply Vec.get_inj.mp
  simp [Matrix.mulVec_sub]

/-- A symmetric matrix acts on either side of an inner product. -/
theorem dot_mulVec_comm (symmetric : H.transpose = H) (x y : Vec ℝ n) :
    Vec.dot x (H.mulVec y) = Vec.dot y (H.mulVec x) := by
  rw [Vec.dot_eq, Vec.dot_eq, Mat.get_mulVec, Mat.get_mulVec, ← dotProduct_transpose_mulVec,
    (Mat.isSymm_of_transpose_eq symmetric).eq]

/-- The objective around a point: its value, its gradient there, and the curvature. -/
theorem objective_eq_around (symmetric : H.transpose = H) (w y : Vec ℝ n) :
    objective H b w = objective H b y + Vec.dot (H.mulVec y + b) (w - y) +
      Vec.dot (w - y) (H.mulVec (w - y)) / 2 := by
  have swapped := dot_mulVec_comm symmetric y w
  simp only [objective, mulVec_sub, Vec.dot_add_left, Vec.dot_sub_left, Vec.dot_sub_right,
    Vec.dot_comm (H.mulVec y)]
  linarith

namespace HasCurvature

variable (curvature : HasCurvature H μ L)

include curvature

theorem objective_le (w y : Vec ℝ n) :
    objective H b w ≤ objective H b y + Vec.dot (H.mulVec y + b) (w - y) +
      L / 2 * Vec.dot (w - y) (w - y) := by
  have around := objective_eq_around (b := b) curvature.symmetric w y
  have above := curvature.upper (w - y)
  linarith

theorem le_objective (w y : Vec ℝ n) :
    objective H b y + Vec.dot (H.mulVec y + b) (w - y) + μ / 2 * Vec.dot (w - y) (w - y) ≤
      objective H b w := by
  have around := objective_eq_around (b := b) curvature.symmetric w y
  have below := curvature.lower (w - y)
  linarith

end HasCurvature

/-! ### Projected gradient steps -/

/-- The end of the gradient step of length `1 / L` from a point, before the projection. -/
noncomputable def trialPoint (H : Mat ℝ n n) (b : Vec ℝ n) (L : ℝ) (y : Vec ℝ n) : Vec ℝ n :=
  y - (H.mulVec y + b).map (· / L)

theorem trialPoint_origin (H : Mat ℝ n n) (b : Vec ℝ n) (L : ℝ) (i : Fin n) :
    trialPoint H b L (Vec.zeros n) i = -b i / L := by
  rw [trialPoint, Vec.get_sub, Vec.get_map, Pi.sub_apply, Vec.get_add, Mat.get_mulVec, Vec.get_zeros,
    Matrix.mulVec_zero, zero_add, Pi.zero_apply, zero_sub, neg_div]

theorem trialPoint_identity (L : ℝ) (y : Vec ℝ n) (i : Fin n) :
    trialPoint (Mat.identity n) (Vec.zeros n) L y i = y i - y i / L := by
  have slope : (Mat.identity n).mulVec y + Vec.zeros n = y := by
    apply Vec.get_inj.mp
    rw [Mat.identity_mulVec, Vec.get_add, Vec.get_zeros, add_zero]
  rw [trialPoint, slope, Vec.get_sub, Vec.get_map, Pi.sub_apply]

theorem dot_trialPoint_sub (positive : 0 < L) (y p w : Vec ℝ n) :
    L * Vec.dot (trialPoint H b L y - p) w =
      L * Vec.dot (y - p) w - Vec.dot (H.mulVec y + b) w := by
  have divided : ((H.mulVec y + b).map (· / L)).get = L⁻¹ • (H.mulVec y + b).get := by
    rw [Vec.get_map]
    funext i
    exact div_eq_inv_mul _ _
  simp only [trialPoint, Vec.dot_eq, Vec.get_sub, divided, sub_dotProduct, smul_dotProduct,
    smul_eq_mul]
  field_simp
  ring

/-- The objective after a projected gradient step, compared with any point of the set. The step may start
anywhere. -/
theorem HasCurvature.objective_step_le (curvature : HasCurvature H μ L) (positive : 0 < L)
    {X : Set (Vec ℝ n)} (convex : IsConvex X) {y p z : Vec ℝ n}
    (nearest : IsNearest X (trialPoint H b L y) p) (inside : z ∈ X) :
    objective H b p + L * Vec.dot (y - p) (z - y) + L / 2 * Vec.dot (y - p) (y - p) +
      μ / 2 * Vec.dot (z - y) (z - y) ≤ objective H b z := by
  -- Both parabolas touch the objective at `y`; the upper one is taken at `p`, the lower one at `z`.
  have above := curvature.objective_le (b := b) p y
  have below := curvature.le_objective (b := b) z y
  have projected := nearest.dot_le_zero convex inside
  have stepped := dot_trialPoint_sub (H := H) (b := b) positive y p (z - p)
  have obtuse := mul_nonpos_of_nonneg_of_nonpos positive.le projected
  simp only [Vec.dot_sub_left, Vec.dot_sub_right, Vec.dot_add_left, Vec.dot_comm p y,
    Vec.dot_comm z y, Vec.dot_comm p z] at above below stepped obtuse ⊢
  linarith

end Gradient

end RecedingHorizon
