import RecedingHorizon.Proofs.Gradient.Objective
import RecedingHorizon.Proofs.Gradient.Steps

/-!
# What the stopping conditions certify

The gradient test bounds the distance of the objective from its value at every point of the set,
whatever the set is (`objective_sub_le_estimate`). The conjugate test does not look at the set: what
it bounds is the distance from the values at points with entries between minus one and one
(`objective_sub_le_conjugate`), be they points of the set or not.
-/

namespace RecedingHorizon.Gradient

variable {σ : Type} {n : Nat} {H : Mat ℝ n n} {b : Vec ℝ n} {μ L : ℝ} {X : Set (Vec ℝ n)}

/-! ### Two bounds -/

theorem objective_sub_le_estimate (curvature : HasCurvature H μ L) (positive : 0 < μ)
    (ordered : μ ≤ L) (convex : IsConvex X) {y p z : Vec ℝ n}
    (nearest : IsNearest X (trialPoint H b L y) p) (inside : z ∈ X) :
    objective H b p - objective H b z ≤
      1 / 2 * (1 / μ - 1 / L) * (L * L * Vec.dot (y - p) (y - p)) := by
  have above : 0 < L := positive.trans_le ordered
  have step := curvature.objective_step_le (b := b) above convex nearest inside
  -- The square of `L (y - p) + μ (z - y)` makes up for the inner product of the two.
  have square := Vec.dot_self_nonneg ((y - p).map (L * ·) + (z - y).map (μ * ·))
  simp only [Vec.dot_add_left, Vec.dot_add_right, Vec.dot_scale_left, Vec.dot_scale_right,
    Vec.dot_comm (z - y) (y - p)] at square
  generalize Vec.dot (y - p) (y - p) = dd at step square ⊢
  generalize Vec.dot (y - p) (z - y) = dw at step square ⊢
  generalize Vec.dot (z - y) (z - y) = ww at step square ⊢
  have expanded : 1 / 2 * (1 / μ - 1 / L) * (L * L * dd) =
      -(L * dw) - L / 2 * dd - μ / 2 * ww +
        (L * (L * dd + μ * dw) + μ * (L * dw + μ * ww)) / (2 * μ) := by
    field_simp
    ring
  have divided := div_nonneg square (by linarith : 0 ≤ 2 * μ)
  linarith

/-- An entry of a vector counts no more than its magnitude in a product with a vector that has no entry
larger than one. -/
theorem neg_dot_le_normOne (g : Vec ℝ n) {z : Vec ℝ n} (small : ∀ i, |z i| ≤ 1) :
    -Vec.dot g z ≤ Vec.normOne g := by
  rw [Vec.dot_eq, dotProduct, ← Finset.sum_neg_distrib, Vec.normOne, Vec.sumOver_eq_sum]
  refine Finset.sum_le_sum fun i _ => ?_
  calc -(g i * z i) ≤ |g i * z i| := neg_le_abs _
    _ = |g i| * |z i| := abs_mul _ _
    _ ≤ |g i| := mul_le_of_le_one_right (abs_nonneg _) (small i)

theorem objective_sub_le_conjugate (curvature : HasCurvature H μ L) (nonneg : 0 ≤ μ)
    {x z : Vec ℝ n} (small : ∀ i, |z i| ≤ 1) :
    objective H b x - objective H b z ≤
      Vec.dot x (H.mulVec x + b) + Vec.normOne (H.mulVec x + b) := by
  have tangent := curvature.le_objective (b := b) z x
  have square := mul_nonneg nonneg (Vec.dot_self_nonneg (z - x))
  have far := neg_dot_le_normOne (H.mulVec x + b) small
  rw [Vec.dot_sub_right, Vec.dot_comm _ x] at tangent
  linarith

/-! ### The tests -/

variable {s : Iteration (Vec ℝ n) σ} {eps : ℝ}

theorem threshold_eq {size : Int} (sized : 0 < size) :
    (⟨eps, true, size⟩ : Tolerance ℝ).threshold = .ok (eps / size) := by
  exact Scalar.quotient_of_ne (Int.cast_ne_zero.mpr sized.ne')

theorem coefficient_eq (tolerance : Tolerance ℝ) (positive : 0 < μ) (above : 0 < L) :
    (⟨tolerance, L, μ⟩ : GradientTest ℝ).coefficient = .ok (.finite (1 / 2 * (1 / μ - 1 / L))) := by
  simp only [GradientTest.coefficient, not_le.mpr positive, Scalar.quotient_of_ne positive.ne',
    Scalar.quotient_of_ne above.ne', Scalar.half_eq, bind, Except.bind, pure, Except.pure]
  rfl

theorem value_eq (tolerance : Tolerance ℝ) (positive : 0 < μ) (above : 0 < L) :
    (⟨tolerance, L, μ⟩ : GradientTest ℝ).value s =
      .ok (.finite |1 / 2 * (1 / μ - 1 / L) *
        (L * L * Vec.dot (s.y - s.xNext) (s.y - s.xNext))|) := by
  have square : Vec.norm ((s.y - s.xNext).map (L * ·)) * Vec.norm ((s.y - s.xNext).map (L * ·)) =
      L * L * Vec.dot (s.y - s.xNext) (s.y - s.xNext) := by
    rw [Vec.norm_mul_self, Vec.dot_scale_left, Vec.dot_scale_right, mul_assoc]
  simp only [GradientTest.value, Space.sub, Space.scale, Space.norm, square,
    coefficient_eq tolerance positive above, bind, Except.bind, pure, Except.pure]
  split
  · next zero => rw [(Scalar.beq_real _ _).mp zero, mul_zero, abs_zero]
  · rfl

/-- The gradient test compares its estimate with its share of the tolerance. -/
theorem holds_eq {size : Int} (sized : 0 < size) (positive : 0 < μ) (above : 0 < L) :
    (⟨⟨eps, true, size⟩, L, μ⟩ : GradientTest ℝ).holds s =
      .ok (decide (|1 / 2 * (1 / μ - 1 / L) *
        (L * L * Vec.dot (s.y - s.xNext) (s.y - s.xNext))| < eps / size)) := by
  simp only [GradientTest.holds, value_eq _ positive above, threshold_eq sized, bind, Except.bind]
  rfl

theorem estimate_lt_of_holds {size : Int} (sized : 0 < size) (positive : 0 < μ) (above : 0 < L)
    (held : (⟨⟨eps, true, size⟩, L, μ⟩ : GradientTest ℝ).holds s = .ok true) :
    1 / 2 * (1 / μ - 1 / L) * (L * L * Vec.dot (s.y - s.xNext) (s.y - s.xNext)) < eps / size := by
  rw [holds_eq sized positive above] at held
  exact (le_abs_self _).trans_lt (of_decide_eq_true (Except.ok.inj held))

/-- When all eigenvalues are equal, every step is exact. -/
theorem holds_of_same_bounds {size : Int} (sized : 0 < size) (above : 0 < L) (positive : 0 < eps) :
    (⟨⟨eps, true, size⟩, L, L⟩ : GradientTest ℝ).holds s = .ok true := by
  have share : 0 < eps / size := div_pos positive (by exact_mod_cast sized)
  rw [holds_eq sized above above, sub_self, mul_zero, zero_mul, abs_zero, decide_eq_true share]

theorem conjugate_lt_of_holds {size : Int} (sized : 0 < size)
    (held : (⟨eps, true, size⟩ : Tolerance ℝ).holdsConjugate s = .ok true) :
    Vec.dot s.xNext s.gradientAtXNext + Vec.normOne s.gradientAtXNext < eps / size := by
  obtain ⟨residual, computed, compared⟩ := bind_eq_ok held
  obtain ⟨bound, shared, same⟩ := bind_eq_ok compared
  rw [threshold_eq sized] at shared
  cases shared
  cases computed
  have below := of_decide_eq_true (Except.ok.inj same)
  exact (le_abs_self _).trans_lt below

/-! ### The last iteration of a run -/

section Runs

variable {project : Vec ℝ n → Except Fault (Vec ℝ n)} {momentum : Momentum ℝ σ}
  {start z : Vec ℝ n} {k : Nat} {size : Int}

theorem objective_sub_le_of_gradient (curvature : HasCurvature H μ L) (positive : 0 < μ)
    (ordered : μ ≤ L) (convex : IsConvex X) (projects : Projects project X)
    (reached : (Method.onVectors H b project momentum L).nth start k = .ok s) (sized : 0 < size)
    (held : (⟨⟨eps, true, size⟩, L, μ⟩ : GradientTest ℝ).holds s = .ok true) (inside : z ∈ X) :
    objective H b s.xNext - objective H b z ≤ eps / size := by
  obtain ⟨projected, -⟩ := Method.projected_of_nth reached
  calc objective H b s.xNext - objective H b z
      ≤ 1 / 2 * (1 / μ - 1 / L) * (L * L * Vec.dot (s.y - s.xNext) (s.y - s.xNext)) :=
        objective_sub_le_estimate curvature positive ordered convex (projects.isNearest projected)
          inside
    _ ≤ eps / size := (estimate_lt_of_holds sized positive (positive.trans_le ordered) held).le

theorem objective_sub_le_of_conjugate (curvature : HasCurvature H μ L) (nonneg : 0 ≤ μ)
    (reached : (Method.onVectors H b project momentum L).nth start k = .ok s) (sized : 0 < size)
    (held : (⟨eps, true, size⟩ : Tolerance ℝ).holdsConjugate s = .ok true)
    (small : ∀ i, |z i| ≤ 1) : objective H b s.xNext - objective H b z ≤ eps / size := by
  obtain ⟨-, gradient⟩ := Method.projected_of_nth reached
  have certified := conjugate_lt_of_holds sized held
  rw [gradient] at certified
  exact (objective_sub_le_conjugate curvature nonneg small).trans certified.le

/-- Either of two tests with one tolerance certifies the iteration, the gradient test among all points
of the set, and whichever it is among those without entries larger than one. -/
theorem objective_sub_le_of_best (curvature : HasCurvature H μ L) (positive : 0 < μ)
    (ordered : μ ≤ L) (convex : IsConvex X) (projects : Projects project X)
    (reached : (Method.onVectors H b project momentum L).nth start k = .ok s) (sized : 0 < size)
    (held : ((Condition.best eps eps true).forProgram size L μ).holds s = .ok true)
    (inside : z ∈ X)
    (suited : (⟨⟨eps, true, size⟩, L, μ⟩ : GradientTest ℝ).holds s = .ok true ∨ ∀ i, |z i| ≤ 1) :
    objective H b s.xNext - objective H b z ≤ eps / size := by
  rcases suited with gradient | small
  · exact objective_sub_le_of_gradient curvature positive ordered convex projects reached sized
      gradient inside
  · -- The gradient test is tried first; the conjugate one only speaks if that fails.
    obtain ⟨first, answered, later⟩ := bind_eq_ok held
    cases first with
    | true =>
      exact objective_sub_le_of_gradient curvature positive ordered convex projects reached sized
        answered inside
    | false =>
      exact objective_sub_le_of_conjugate curvature positive.le reached sized later small

end Runs

end RecedingHorizon.Gradient
