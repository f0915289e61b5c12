import RecedingHorizon.Proofs.Constraint.Box
import RecedingHorizon.Proofs.Gradient.Objective
import RecedingHorizon.Proofs.Gradient.Steps

/-!
# Convergence with constant momentum

The objective alone may rise between two iterations. What falls is the `potential`: the objective
above a point of the set, plus the square of a combination of the last point and the momentum. With
the factor `(√L - √μ) / (√L + √μ)` it shrinks by `1 - √(μ/L)` in every step
(`potential_step_le`), and so it does along a whole run.
-/

namespace RecedingHorizon.Gradient

variable {n : Nat} {H : Mat ℝ n n} {b : Vec ℝ n} {μ L s : ℝ} {X : Set (Vec ℝ n)}

/-! ### The potential -/

/-- How far the point `x`, carried on by its momentum towards `y`, is from `z`. -/
noncomputable def carried (s : ℝ) (z x y : Vec ℝ n) : Vec ℝ n :=
  (x - z).map (s * ·) + (y - x).map ((1 + s) * ·)

/-- The objective above its value at `z`, plus the square of the carried distance. -/
noncomputable def potential (H : Mat ℝ n n) (b : Vec ℝ n) (L s : ℝ) (z x y : Vec ℝ n) : ℝ :=
  objective H b x - objective H b z + L / 2 * Vec.dot (carried s z x y) (carried s z x y)

theorem objective_sub_le_potential (nonneg : 0 ≤ L) (z x y : Vec ℝ n) :
    objective H b x - objective H b z ≤ potential H b L s z x y := by
  have square := mul_nonneg nonneg (Vec.dot_self_nonneg (carried s z x y))
  rw [potential]
  linarith

/-- At the start there is no momentum. -/
theorem potential_self (rate : L * (s * s) = μ) (z x : Vec ℝ n) :
    potential H b L s z x x =
      objective H b x - objective H b z + μ / 2 * Vec.dot (x - z) (x - z) := by
  simp only [potential, carried, Vec.dot_add_left, Vec.dot_add_right, Vec.dot_scale_left,
    Vec.dot_scale_right, Vec.dot_sub_left, Vec.dot_sub_right, ← rate]
  ring

/-- The momentum factor turns the carried distance into an average of two distances. -/
theorem carried_momentum {factor : ℝ} (momentum : (1 + s) * factor = 1 - s) (z x p : Vec ℝ n) :
    carried s z p (p + (p - x).map (factor * ·)) =
      (p - z).map (s * ·) + (p - x).map ((1 - s) * ·) := by
  apply Vec.get_inj.mp
  funext i
  simp only [carried, Vec.get_add, Vec.get_sub, Vec.get_scale, Pi.add_apply, Pi.sub_apply,
    Pi.smul_apply, smul_eq_mul]
  linear_combination (p i - x i) * momentum

/-- One step shrinks the potential. -/
theorem potential_step_le (curvature : HasCurvature H μ L) (positive : 0 < L)
    (convex : IsConvex X) (rate : L * (s * s) = μ) (nonneg : 0 ≤ s) (atMost : s ≤ 1) {factor : ℝ}
    (momentum : (1 + s) * factor = 1 - s) {x y z p : Vec ℝ n}
    (nearest : IsNearest X (trialPoint H b L y) p) (started : x ∈ X) (inside : z ∈ X) :
    potential H b L s z p (p + (p - x).map (factor * ·)) ≤ (1 - s) * potential H b L s z x y := by
  -- The step is compared with `z` with the weight `s`, and with `x` with the weight `1 - s`.
  have towards := mul_le_mul_of_nonneg_left
    (curvature.objective_step_le (b := b) positive convex nearest inside) nonneg
  have back := mul_le_mul_of_nonneg_left
    (curvature.objective_step_le (b := b) positive convex nearest started)
    (sub_nonneg.mpr atMost)
  -- What the curvature leaves over: the square of the momentum with a positive factor.
  have left := mul_nonneg (mul_nonneg (mul_nonneg positive.le nonneg)
    (mul_nonneg (sub_nonneg.mpr atMost) (add_nonneg zero_le_one nonneg)))
    (Vec.dot_self_nonneg (x - y))
  rw [potential, potential, carried_momentum momentum]
  simp only [carried, Vec.dot_add_left, Vec.dot_add_right, Vec.dot_scale_left,
    Vec.dot_scale_right, Vec.dot_sub_left, Vec.dot_sub_right, Vec.dot_comm x y, Vec.dot_comm z y,
    Vec.dot_comm p y, Vec.dot_comm p x, Vec.dot_comm z x, Vec.dot_comm p z, ← rate]
    at towards back left ⊢
  linarith

/-! ### Runs with constant momentum -/

section Runs

variable {project : Vec ℝ n → Except Fault (Vec ℝ n)}

/-- What one iteration with constant momentum does. -/
theorem exists_step_constant (kit : Kernels ℝ) (factor : ℝ) (projects : Projects project X)
    (count : Nat) (x y : Vec ℝ n) (state : StepState ℝ) :
    ∃ t, (Method.onVectors H b project ((StepRule.constant factor).momentum kit) L).step count x y
        state = .ok t ∧
      t.count = count ∧ IsNearest X (trialPoint H b L y) t.xNext ∧
      t.yNext = t.xNext + (t.xNext - x).map (factor * ·) := by
  obtain ⟨p, projected, nearest⟩ := projects (trialPoint H b L y)
  exact ⟨_, Method.step_eq_ok.mpr ⟨p, factor, state, projected, rfl, rfl⟩, rfl, nearest, rfl⟩

/-- Along a run the potential over every point of the set shrinks by the same factor, once the first
iteration has brought it below `1 - s` times a gap. -/
theorem exists_nth_constant (kit : Kernels ℝ) (curvature : HasCurvature H μ L)
    (positive : 0 < L) (convex : IsConvex X) (projects : Projects project X)
    (rate : L * (s * s) = μ) (nonneg : 0 ≤ s) (atMost : s ≤ 1) {factor : ℝ}
    (momentum : (1 + s) * factor = 1 - s) (start : Vec ℝ n) (gap : Vec ℝ n → ℝ)
    (initially : ∀ p, IsNearest X (trialPoint H b L start) p → ∀ z ∈ X,
      potential H b L s z p (p + (p - start).map (factor * ·)) ≤ (1 - s) * gap z) (k : Nat) :
    ∃ t, (Method.onVectors H b project ((StepRule.constant factor).momentum kit) L).nth start k =
        .ok t ∧
      t.count = k + 1 ∧ t.xNext ∈ X ∧
      ∀ z ∈ X, potential H b L s z t.xNext t.yNext ≤ (1 - s) ^ (k + 1) * gap z := by
  -- By induction; that the last point is in the set is what the next step needs.
  induction k with
  | zero =>
    obtain ⟨t, stepped, counted, nearest, moved⟩ :=
      exists_step_constant (H := H) (b := b) (L := L) kit factor projects 1 start start none
    refine ⟨t, stepped, counted, nearest.mem, fun z inside => ?_⟩
    rw [moved, pow_one]
    exact initially t.xNext nearest z inside
  | succ k ih =>
    obtain ⟨before, reached, earlier, started, bounded⟩ := ih
    obtain ⟨t, stepped, counted, nearest, moved⟩ :=
      exists_step_constant (H := H) (b := b) (L := L) kit factor projects (before.count + 1)
        before.xNext before.yNext before.stepState
    refine ⟨t, ?_, by rw [counted, earlier], nearest.mem, fun z inside => ?_⟩
    · simp only [Method.nth, reached]
      exact stepped
    · calc potential H b L s z t.xNext t.yNext
          ≤ (1 - s) * potential H b L s z before.xNext before.yNext := by
            rw [moved]
            exact potential_step_le curvature positive convex rate nonneg atMost momentum nearest
              started inside
        _ ≤ (1 - s) * ((1 - s) ^ (k + 1) * gap z) :=
            mul_le_mul_of_nonneg_left (bounded z inside) (sub_nonneg.mpr atMost)
        _ = (1 - s) ^ (k + 1 + 1) * gap z := by ring

end Runs

/-! ### The factor of the constant rule -/

theorem rate_sqrt (positive : 0 < L) (nonneg : 0 ≤ μ) : L * (√(μ / L) * √(μ / L)) = μ := by
  rw [Real.mul_self_sqrt (div_nonneg nonneg positive.le), mul_div_cancel₀ μ positive.ne']

theorem sqrt_ratio_le_one (positive : 0 < L) (ordered : μ ≤ L) : √(μ / L) ≤ 1 :=
  Real.sqrt_le_one.mpr ((div_le_one positive).mpr ordered)

theorem momentum_factorFor (positive : 0 < L) :
    (1 + √(μ / L)) * StepRule.factorFor L μ = 1 - √(μ / L) := by
  have root : 0 < √L := Real.sqrt_pos.mpr positive
  have sum : 0 < √L + √μ := by positivity
  change (1 + √(μ / L)) * ((√L - √μ) / (√L + √μ)) = 1 - √(μ / L)
  rw [Real.sqrt_div' μ positive.le]
  field_simp

theorem forBounds_defaultConstant (kit : Kernels ℝ) (L μ : ℝ) :
    (StepRule.defaultConstant.strategy kit).forBounds (.real L) (.real μ) =
      .ok ((StepRule.constant (StepRule.factorFor L μ)).momentum kit) := rfl

/-! ### Convergence from a point of the set -/

/-- From a point of the set the first gap is the potential of the start. -/
theorem exists_nth_of_mem (curvature : HasCurvature H μ L) (positive : 0 < μ) (ordered : μ ≤ L)
    (convex : IsConvex X) {project : Vec ℝ n → Except Fault (Vec ℝ n)}
    (projects : Projects project X) {start : Vec ℝ n} (started : start ∈ X) (kit : Kernels ℝ)
    (k : Nat) :
    ∃ t, (Method.onVectors H b project
        ((StepRule.constant (StepRule.factorFor L μ)).momentum kit) L).nth start k = .ok t ∧
      t.count = k + 1 ∧ t.xNext ∈ X ∧
      ∀ z ∈ X, objective H b t.xNext - objective H b z ≤
        (1 - √(μ / L)) ^ (k + 1) * (objective H b start - objective H b z +
          μ / 2 * Vec.dot (start - z) (start - z)) := by
  have above : 0 < L := positive.trans_le ordered
  have rate := rate_sqrt above positive.le
  have atMost := sqrt_ratio_le_one above ordered
  have momentum := momentum_factorFor (μ := μ) above
  obtain ⟨t, reached, counted, member, bounded⟩ := exists_nth_constant (b := b) kit curvature
    above convex projects rate (Real.sqrt_nonneg _) atMost momentum start
    (fun z => objective H b start - objective H b z + μ / 2 * Vec.dot (start - z) (start - z))
    (fun p nearest z inside => by
      rw [← potential_self rate]
      exact potential_step_le curvature above convex rate (Real.sqrt_nonneg _) atMost momentum
        nearest started inside)
    k
  refine ⟨t, reached, counted, member, fun z inside => ?_⟩
  exact (objective_sub_le_potential above.le z _ _).trans (bounded z inside)

/-- From a point of the set, iteration `k` of the fast gradient method with the constant rule is
within `(1 - √(μ/L))ᵏ` times the first gap of the objective at every point of the set. The identity
and the moving of entries into a box are projections to which this applies. -/
theorem fastGradient_objective_sub_le (curvature : HasCurvature H μ L) (positive : 0 < μ)
    (ordered : μ ≤ L) (convex : IsConvex X) {project : Tensor ℝ → Except Fault (Tensor ℝ)}
    (projects : Projects (forVectors project) X) {start : Vec ℝ n} (started : start ∈ X)
    (kit : Kernels ℝ) {k : Nat} (counted : 1 ≤ k) :
    (∃ momentum t x,
      (StepRule.defaultConstant.strategy kit).forBounds (.real L) (.real μ) = .ok momentum ∧
      (Method.onArrays H b project momentum L).nth (.ofVec start) (k - 1) = .ok t ∧
      t.count = k ∧ t.xNext = .ofVec x ∧ x ∈ X ∧
      ∀ z ∈ X, objective H b x - objective H b z ≤
        (1 - √(μ / L)) ^ k * (objective H b start - objective H b z +
          μ / 2 * Vec.dot (start - z) (start - z))) ∧
    (IsConvex (Set.univ : Set (Vec ℝ n)) ∧
      Projects (forVectors (Projection.identity (α := ℝ)).apply) (Set.univ : Set (Vec ℝ n))) ∧
    ∀ (lower upper : Vec (Extended ℝ) n) (size : Int), (Box.region lower upper).Nonempty →
      IsConvex (Box.region lower upper) ∧
      Projects (forVectors (Box.project ⟨.ofVec lower, .ofVec upper, size⟩))
        (Box.region lower upper) := by
  obtain ⟨t, reached, count, member, bounded⟩ := exists_nth_of_mem (b := b) curvature positive
    ordered convex projects started kit (k - 1)
  rw [Nat.sub_add_cancel counted] at count bounded
  refine ⟨⟨_, t.toArrays, t.xNext, forBounds_defaultConstant kit L μ, Method.nth_onArrays reached,
    count, rfl, member, bounded⟩, ⟨isConvex_univ, Projection.projects_identity⟩, ?_⟩
  intro lower upper size nonempty
  exact ⟨Box.isConvex_region, Box.projects_region nonempty⟩

/-- A Hessian with the eigenvalues two and eight. -/
noncomputable def tiltedHessian : Mat ℝ 2 2 := Mat.ofFn fun i j => if i = j then 5 else 3

theorem hasCurvature_tiltedHessian : HasCurvature tiltedHessian 2 8 := by
  have square (x : Vec ℝ 2) : Vec.dot x (tiltedHessian.mulVec x) =
      5 * (x 0 * x 0) + 6 * (x 0 * x 1) + 5 * (x 1 * x 1) := by
    simp [tiltedHessian, Vec.dot_eq, Matrix.mulVec, dotProduct, Fin.sum_univ_two]
    ring
  have length (x : Vec ℝ 2) : Vec.dot x x = x 0 * x 0 + x 1 * x 1 := by
    simp [Vec.dot_eq, dotProduct, Fin.sum_univ_two]
  refine ⟨?_, fun x => ?_, fun x => ?_⟩
  · ext i j
    simp [tiltedHessian, eq_comm]
  · rw [square, length]
    linarith [mul_self_nonneg (x 0 + x 1)]
  · rw [square, length]
    linarith [mul_self_nonneg (x 0 - x 1)]

/-- The third iteration in a box that is open to one side. -/
theorem fastGradient_objective_sub_le_halfOpenBox :
    let lower : Vec (Extended ℝ) 2 := #v[.finite 0, .finite (-1)]
    let upper : Vec (Extended ℝ) 2 := #v[.finite 1, .top]
    let b : Vec ℝ 2 := #v[-3, 1]
    ∀ kit : Kernels ℝ, ∃ momentum t x,
      (StepRule.defaultConstant.strategy kit).forBounds (.real (8 : ℝ)) (.real 2) = .ok momentum ∧
      (Method.onArrays tiltedHessian b (Box.project ⟨.ofVec lower, .ofVec upper, 2⟩) momentum 8).nth
        (.ofVec #v[1, 0]) 2 = .ok t ∧
      t.count = 3 ∧ t.xNext = .ofVec x ∧ x ∈ Box.region lower upper ∧
      ∀ z ∈ Box.region lower upper,
        objective tiltedHessian b x - objective tiltedHessian b z ≤
          (1 - √(2 / 8)) ^ 3 * (objective tiltedHessian b #v[1, 0] - objective tiltedHessian b z +
            2 / 2 * Vec.dot (#v[1, 0] - z) (#v[1, 0] - z)) := by
  intro lower upper b kit
  have started : (#v[1, 0] : Vec ℝ 2) ∈ Box.region lower upper := by
    rintro ⟨_ | _ | i, bound⟩
    · exact ⟨decide_eq_true zero_le_one, decide_eq_true le_rfl⟩
    · exact ⟨decide_eq_true (show (-1 : ℝ) ≤ 0 by norm_num), rfl⟩
    · omega
  exact (fastGradient_objective_sub_le hasCurvature_tiltedHessian (by norm_num) (by norm_num)
    Box.isConvex_region (Box.projects_region ⟨_, started⟩) started kit (k := 3) (by norm_num)).1

end RecedingHorizon.Gradient
