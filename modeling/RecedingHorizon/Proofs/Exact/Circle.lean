import Mathlib.Analysis.Complex.MeanValue
import Mathlib.LinearAlgebra.Matrix.NonsingularInverse
import RecedingHorizon.Proofs.Exact.Complex

/-!
# Averages over the unit circle

If all eigenvalues of a matrix `A` lie inside the unit circle, the resolvent `(z - A)⁻¹` exists on the
circle, and its averages with powers of `z` are the powers of `A` (`average_resolvent`). A continuous
function whose average vanishes is positive somewhere or vanishes everywhere (`pos_or_eq_zero`).
-/

namespace RecedingHorizon.Circle

open Matrix Metric Real Topology

variable {n : Nat} {A : Matrix (Fin n) (Fin n) ℂ}

/-- Every eigenvalue of a matrix lies inside the unit circle. -/
def IsStable (A : Matrix (Fin n) (Fin n) ℂ) : Prop := ∀ r ∈ spectrum ℂ A, ‖r‖ < 1

/-- The matrix `(z - A)⁻¹`. -/
noncomputable def resolvent (A : Matrix (Fin n) (Fin n) ℂ) (z : ℂ) : Matrix (Fin n) (Fin n) ℂ :=
  (z • (1 : Matrix (Fin n) (Fin n) ℂ) - A)⁻¹

theorem IsStable.isUnit_sub (stable : IsStable A) {z : ℂ} (outside : 1 ≤ ‖z‖) :
    IsUnit (z • (1 : Matrix (Fin n) (Fin n) ℂ) - A) := by
  by_contra singular
  rw [← Algebra.algebraMap_eq_smul_one] at singular
  exact absurd (stable z (spectrum.mem_iff.mpr singular)) outside.not_gt

theorem IsStable.isUnit_one_sub (stable : IsStable A) {w : ℂ} (inside : ‖w‖ ≤ 1) :
    IsUnit (1 - w • A) := by
  rcases eq_or_ne w 0 with rfl | nonzero
  · simp
  · have outside : 1 ≤ ‖w⁻¹‖ := by
      rw [norm_inv]
      exact (one_le_inv₀ (norm_pos_iff.mpr nonzero)).mpr inside
    have scaled : 1 - w • A = w • (w⁻¹ • (1 : Matrix (Fin n) (Fin n) ℂ) - A) := by
      rw [smul_sub, smul_smul, mul_inv_cancel₀ nonzero, one_smul]
    rw [scaled]
    exact (stable.isUnit_sub outside).smul (Units.mk0 w nonzero)

/-! ### Inverses of matrix functions -/

theorem differentiable_det {M : ℂ → Matrix (Fin n) (Fin n) ℂ}
    (entries : ∀ i j, Differentiable ℂ fun w => M w i j) :
    Differentiable ℂ fun w => (M w).det := by
  simp only [Matrix.det_apply]
  fun_prop

theorem differentiableAt_inv {M : ℂ → Matrix (Fin n) (Fin n) ℂ}
    (entries : ∀ i j, Differentiable ℂ fun w => M w i j) {w : ℂ} (unit : IsUnit (M w))
    (i j : Fin n) : DifferentiableAt ℂ (fun w => (M w)⁻¹ i j) w := by
  have nonzero : (M w).det ≠ 0 := ((Matrix.isUnit_iff_isUnit_det _).mp unit).ne_zero
  -- An entry of the inverse is one of the adjugate divided by the determinant.
  have minor : Differentiable ℂ fun w => (M w).adjugate i j := by
    simp only [Matrix.adjugate_apply]
    refine differentiable_det fun k l => ?_
    simp only [Matrix.updateRow_apply]
    split
    · exact differentiable_const _
    · exact entries k l
  have quotient : (fun w => (M w)⁻¹ i j) = fun w => (M w).det⁻¹ * (M w).adjugate i j := by
    funext w
    rw [Matrix.inv_def, Matrix.smul_apply, Ring.inverse_eq_inv', smul_eq_mul]
  rw [quotient]
  exact ((differentiable_det entries w).inv nonzero).mul (minor w)

theorem IsStable.continuousOn_resolvent (stable : IsStable A) (i j : Fin n) :
    ContinuousOn (fun z => resolvent A z i j) (sphere 0 1) := by
  intro z onCircle
  have outside : 1 ≤ ‖z‖ := (mem_sphere_zero_iff_norm.mp onCircle).ge
  refine (differentiableAt_inv (fun k l => ?_) (stable.isUnit_sub outside)
    i j).continuousAt.continuousWithinAt
  simp only [Matrix.sub_apply, Matrix.smul_apply, smul_eq_mul]
  fun_prop

/-! ### Averages -/

theorem ne_zero_of_mem {z : ℂ} (onCircle : z ∈ sphere (0 : ℂ) 1) : z ≠ 0 :=
  norm_pos_iff.mp ((mem_sphere_zero_iff_norm.mp onCircle).symm ▸ one_pos)

theorem star_mul_self_eq_one {z : ℂ} (onCircle : z ∈ sphere (0 : ℂ) 1) : star z * z = 1 := by
  have square := Complex.conj_mul' z
  rw [mem_sphere_zero_iff_norm.mp onCircle, Complex.ofReal_one, one_pow] at square
  exact square

/-- A factor on the circle does not change a quadratic form. -/
theorem conjTranspose_smul_mul_smul {k : Nat} {z : ℂ} (onCircle : z ∈ sphere (0 : ℂ) 1)
    (W : Matrix (Fin n) (Fin n) ℂ) (G : Matrix (Fin n) (Fin k) ℂ) :
    (z • G)ᴴ * W * (z • G) = Gᴴ * W * G := by
  rw [Matrix.conjTranspose_smul, Matrix.smul_mul, Matrix.smul_mul, Matrix.mul_smul, smul_smul,
    star_mul_self_eq_one onCircle, one_smul]

/-- On the circle conjugation changes the sign of an exponent. -/
theorem star_zpow {z : ℂ} (onCircle : z ∈ sphere (0 : ℂ) 1) (k : ℤ) : star (z ^ k) = z ^ (-k) := by
  have inverse : star z = z⁻¹ := eq_inv_of_mul_eq_one_left (star_mul_self_eq_one onCircle)
  rw [star_zpow₀, inverse]
  simp

theorem continuousOn_zpow (k : ℤ) : ContinuousOn (fun z : ℂ => z ^ k) (sphere 0 1) :=
  fun z onCircle => (continuousAt_zpow₀ z k (.inl (ne_zero_of_mem onCircle))).continuousWithinAt

/-- The average of the conjugate is the conjugate of the average. -/
theorem average_star {f : ℂ → ℂ} (continuous : ContinuousOn f (sphere 0 1)) :
    circleAverage (fun z => star (f z)) 0 1 = star (circleAverage f 0 1) :=
  Complex.conjCLE.toContinuousLinearMap.circleAverage_comp_comm
    (continuous.circleIntegrable zero_le_one)

theorem average_const_mul (c : ℂ) (f : ℂ → ℂ) :
    circleAverage (fun z => c * f z) 0 1 = c * circleAverage f 0 1 := by
  simp only [← smul_eq_mul]
  exact circleAverage_fun_smul

/-- The average of the real part is the real part of the average. -/
theorem average_re {f : ℂ → ℂ} (continuous : ContinuousOn f (sphere 0 1)) :
    circleAverage (fun z => (f z).re) 0 1 = (circleAverage f 0 1).re :=
  Complex.reCLM.circleAverage_comp_comm (continuous.circleIntegrable zero_le_one)

/-- A combination of functions has the combination of their averages. -/
theorem average_sum {ι : Type} (s : Finset ι) (c : ι → ℂ) {f : ι → ℂ → ℂ}
    (continuous : ∀ i ∈ s, ContinuousOn (f i) (sphere 0 1)) :
    circleAverage (fun z => ∑ i ∈ s, c i * f i z) 0 1 =
      ∑ i ∈ s, c i * circleAverage (f i) 0 1 := by
  have integrable (i : ι) (member : i ∈ s) : CircleIntegrable (fun z => c i * f i z) 0 1 :=
    (continuousOn_const.mul (continuous i member)).circleIntegrable zero_le_one
  rw [circleAverage_fun_sum integrable]
  exact Finset.sum_congr rfl fun i _ => average_const_mul (c i) (f i)

section Forms

variable {k l : Nat} {Φ : ℂ → Matrix (Fin k) (Fin l) ℂ}
  (continuous : ∀ i j, ContinuousOn (fun z => Φ z i j) (sphere 0 1))

include continuous

theorem continuousOn_form {u : ℂ → Fin k → ℂ} {w : ℂ → Fin l → ℂ}
    (left : ContinuousOn u (sphere 0 1)) (right : ContinuousOn w (sphere 0 1)) :
    ContinuousOn (fun z => u z ⬝ᵥ Φ z *ᵥ w z) (sphere 0 1) := by
  rw [continuousOn_pi] at left right
  simp only [dotProduct, mulVec]
  exact continuousOn_finsetSum _ fun i _ => (left i).mul
    (continuousOn_finsetSum _ fun j _ => (continuous i j).mul (right j))

/-- The average of a bilinear form is the form of the averages. -/
theorem average_form {M : Matrix (Fin k) (Fin l) ℂ}
    (averages : ∀ i j, circleAverage (fun z => Φ z i j) 0 1 = M i j) (u : Fin k → ℂ)
    (w : Fin l → ℂ) : circleAverage (fun z => u ⬝ᵥ Φ z *ᵥ w) 0 1 = u ⬝ᵥ M *ᵥ w := by
  have entries (R : Matrix (Fin k) (Fin l) ℂ) :
      u ⬝ᵥ R *ᵥ w = ∑ q : Fin k × Fin l, u q.1 * w q.2 * R q.1 q.2 := by
    rw [Fintype.sum_prod_type]
    simp only [dotProduct, mulVec, Finset.mul_sum]
    exact Finset.sum_congr rfl fun i _ => Finset.sum_congr rfl fun j _ => by ring
  simp only [entries]
  refine (average_sum Finset.univ _ fun q _ => continuous q.1 q.2).trans ?_
  exact Finset.sum_congr rfl fun q _ => by rw [averages]

end Forms

/-- The average of a power vanishes, unless the exponent does. -/
theorem average_zpow (k : ℤ) :
    circleAverage (fun z : ℂ => z ^ k) 0 1 = if k = 0 then 1 else 0 := by
  -- A power with a negative exponent has the average of the inverse power.
  have nat (d : ℕ) : circleAverage (fun z : ℂ => z ^ d) 0 1 = if d = 0 then 1 else 0 := by
    have differentiable : Differentiable ℂ fun z : ℂ => z ^ d := differentiable_pow d
    rw [differentiable.diffContOnCl.circleAverage, zero_pow_eq]
  obtain ⟨d, rfl | rfl⟩ := k.eq_nat_or_neg
  · simpa using nat d
  · rw [← circleAverage_zero_one_congr_inv]
    simpa using nat d

/-- The resolvent has no part that grows with `z`. -/
theorem average_resolvent_neg (stable : IsStable A) (l : ℕ) (i j : Fin n) :
    circleAverage (fun z => (z ^ l)⁻¹ * resolvent A z i j) 0 1 = 0 := by
  -- In terms of `w = z⁻¹` the function is analytic on the disc and vanishes at its center.
  have analytic : DiffContOnCl ℂ (fun w : ℂ => w ^ (l + 1) * (1 - w • A)⁻¹ i j)
      (ball 0 |(1 : ℝ)|) := by
    refine DifferentiableOn.diffContOnCl_ball (U := closedBall 0 1) ?_ (by simp)
    intro w inside
    have entries (k m : Fin n) : Differentiable ℂ fun w : ℂ => (1 - w • A) k m := by
      simp only [Matrix.sub_apply, Matrix.smul_apply, smul_eq_mul]
      fun_prop
    have unit := stable.isUnit_one_sub (mem_closedBall_zero_iff.mp inside)
    exact ((differentiableAt_pow _).mul (differentiableAt_inv entries unit i j)).differentiableWithinAt
  rw [← circleAverage_zero_one_congr_inv]
  have same : Set.EqOn (fun w : ℂ => (w⁻¹ ^ l)⁻¹ * resolvent A w⁻¹ i j)
      (fun w => w ^ (l + 1) * (1 - w • A)⁻¹ i j) (sphere 0 |(1 : ℝ)|) := by
    intro w onCircle
    have norm : ‖w‖ = 1 := by simpa using onCircle
    have nonzero : w ≠ 0 := norm_pos_iff.mp (norm ▸ one_pos)
    have unit : IsUnit (1 - w • A).det :=
      (Matrix.isUnit_iff_isUnit_det _).mp (stable.isUnit_one_sub norm.le)
    have scaled : resolvent A w⁻¹ = w • (1 - w • A)⁻¹ := by
      apply Matrix.inv_eq_left_inv
      have factor : w⁻¹ • (1 : Matrix (Fin n) (Fin n) ℂ) - A = w⁻¹ • (1 - w • A) := by
        rw [smul_sub, smul_smul, inv_mul_cancel₀ nonzero, one_smul]
      rw [factor, Matrix.smul_mul, Matrix.mul_smul, smul_smul, mul_inv_cancel₀ nonzero, one_smul,
        Matrix.nonsing_inv_mul _ unit]
    simp only [scaled, Matrix.smul_apply, smul_eq_mul, inv_pow, inv_inv]
    ring
  rw [circleAverage_congr_sphere same, analytic.circleAverage]
  simp

theorem IsStable.smul_resolvent (stable : IsStable A) {z : ℂ} (onCircle : z ∈ sphere (0 : ℂ) 1) :
    z • resolvent A z = 1 + A * resolvent A z := by
  have outside : 1 ≤ ‖z‖ := (mem_sphere_zero_iff_norm.mp onCircle).ge
  have inverse := Matrix.mul_nonsing_inv _
    ((Matrix.isUnit_iff_isUnit_det _).mp (stable.isUnit_sub outside))
  rw [Matrix.sub_mul, Matrix.smul_mul, one_mul, sub_eq_iff_eq_add] at inverse
  exact inverse

/-- One more power of `z` is one more power of the matrix. -/
theorem average_resolvent_succ (stable : IsStable A) (d : ℕ) (i j : Fin n) :
    circleAverage (fun z => z ^ (d + 1) * resolvent A z i j) 0 1 =
      (if d = 0 then (1 : Matrix (Fin n) (Fin n) ℂ) i j else 0) +
        ∑ k, A i k * circleAverage (fun z => z ^ d * resolvent A z k j) 0 1 := by
  -- One factor `z` is used up by `z (z - A)⁻¹ = 1 + A (z - A)⁻¹`.
  have split : Set.EqOn (fun z => z ^ (d + 1) * resolvent A z i j)
      (fun z => (1 : Matrix (Fin n) (Fin n) ℂ) i j * z ^ d +
        ∑ k, A i k * (z ^ d * resolvent A z k j)) (sphere 0 |(1 : ℝ)|) := by
    intro z onCircle
    rw [abs_one] at onCircle
    have entry := congrFun (congrFun (stable.smul_resolvent onCircle) i) j
    simp only [Matrix.smul_apply, smul_eq_mul, Matrix.add_apply, Matrix.mul_apply] at entry
    simp only [pow_succ, mul_assoc, entry, mul_add, Finset.mul_sum]
    congr 1
    · ring
    · exact Finset.sum_congr rfl fun k _ => by ring
  have power := average_zpow d
  simp only [zpow_natCast, Nat.cast_eq_zero] at power
  have continuous (k : Fin n) : ContinuousOn (fun z => z ^ d * resolvent A z k j) (sphere 0 1) :=
    (continuousOn_pow d).mul (stable.continuousOn_resolvent k j)
  have summed : ContinuousOn (fun z => ∑ k, A i k * (z ^ d * resolvent A z k j)) (sphere 0 1) :=
    continuousOn_finsetSum _ fun k _ => continuousOn_const.mul (continuous k)
  have constant : ContinuousOn (fun z : ℂ => (1 : Matrix (Fin n) (Fin n) ℂ) i j * z ^ d)
      (sphere 0 1) := by
    fun_prop
  rw [circleAverage_congr_sphere split, circleAverage_fun_add
    (constant.circleIntegrable zero_le_one) (summed.circleIntegrable zero_le_one),
    average_const_mul, power, average_sum _ _ fun k _ => continuous k, mul_ite, mul_one, mul_zero]

/-- The averages of the resolvent with the powers of `z` are the powers of the matrix. -/
theorem average_resolvent (stable : IsStable A) (d : ℕ) (i j : Fin n) :
    circleAverage (fun z => z ^ (d + 1) * resolvent A z i j) 0 1 = (A ^ d) i j := by
  induction d generalizing i with
  | zero =>
    have none (k : Fin n) : circleAverage (fun z => z ^ 0 * resolvent A z k j) 0 1 = 0 := by
      simpa using average_resolvent_neg stable 0 k j
    rw [average_resolvent_succ stable, if_pos rfl, pow_zero A]
    simp only [none, mul_zero, Finset.sum_const_zero, add_zero]
  | succ d ih =>
    rw [average_resolvent_succ stable, if_neg d.succ_ne_zero, zero_add, pow_succ', Matrix.mul_apply]
    simp only [ih]

/-- A continuous function on the circle whose average vanishes is positive somewhere or zero
everywhere. -/
theorem pos_or_eq_zero {g : ℂ → ℝ} (continuous : ContinuousOn g (sphere 0 1))
    (vanishes : circleAverage g 0 1 = 0) :
    (∃ z ∈ sphere (0 : ℂ) 1, 0 < g z) ∨ ∀ z ∈ sphere (0 : ℂ) 1, g z = 0 := by
  by_contra neither
  push Not at neither
  obtain ⟨nonpos, z, onCircle, nonzero⟩ := neither
  have all (θ : ℝ) : g (circleMap 0 1 θ) ≤ 0 := nonpos _ (circleMap_mem_sphere 0 zero_le_one θ)
  -- Otherwise the opposite is nonnegative and positive somewhere, and so its integral is positive.
  obtain ⟨angle, between, rfl⟩ : z ∈ circleMap 0 1 '' Set.Ioc 0 (2 * π) := by
    rw [image_circleMap_Ioc, abs_one]
    exact onCircle
  have path : Continuous fun θ => g (circleMap 0 1 θ) :=
    continuous.comp_continuous (continuous_circleMap 0 1) (circleMap_mem_sphere 0 zero_le_one)
  have positive : 0 < ∫ θ in 0..2 * π, -g (circleMap 0 1 θ) :=
    intervalIntegral.integral_pos two_pi_pos path.neg.continuousOn
      (fun θ _ => neg_nonneg.mpr (all θ))
      ⟨angle, Set.Ioc_subset_Icc_self between, neg_pos.mpr ((all angle).lt_of_ne nonzero)⟩
  rw [intervalIntegral.integral_neg] at positive
  have zero : ∫ θ in 0..2 * π, g (circleMap 0 1 θ) = 0 :=
    (smul_eq_zero.mp vanishes).resolve_left (inv_ne_zero two_pi_pos.ne')
  rw [zero, neg_zero] at positive
  exact lt_irrefl 0 positive

/-- A function on the circle whose average vanishes is not negative near some point at which another
function does not vanish, if it vanishes wherever that one does. -/
theorem exists_eventually_nonneg {g h : ℂ → ℝ} (continuous : ContinuousOn g (sphere 0 1))
    (continuous' : ContinuousOn h (sphere 0 1)) (vanishes : circleAverage g 0 1 = 0)
    (nonzero : circleAverage h 0 1 ≠ 0) (controlled : ∀ z, h z = 0 → g z = 0) :
    ∃ z₀ ∈ sphere (0 : ℂ) 1, ∀ᶠ z in 𝓝[sphere 0 1] z₀, h z ≠ 0 ∧ 0 ≤ g z := by
  -- Either `g` is positive at some point, or it vanishes on the circle; then any point will do at which
  -- `h` does not vanish.
  rcases pos_or_eq_zero continuous vanishes with ⟨z₀, onCircle, positive⟩ | zero
  · refine ⟨z₀, onCircle, ?_⟩
    filter_upwards [(continuous z₀ onCircle).eventually (lt_mem_nhds positive)] with z above
    exact ⟨fun absent => above.ne' (controlled z absent), le_of_lt above⟩
  · obtain ⟨z₀, onCircle, present⟩ : ∃ z₀ ∈ sphere (0 : ℂ) 1, h z₀ ≠ 0 := by
      by_contra absent
      push Not at absent
      have everywhere : Set.EqOn h (fun _ => 0) (sphere 0 |(1 : ℝ)|) := by
        rw [abs_one]
        exact absent
      rw [circleAverage_congr_sphere everywhere, circleAverage_const] at nonzero
      exact nonzero rfl
    refine ⟨z₀, onCircle, ?_⟩
    filter_upwards [(continuous' z₀ onCircle).eventually (isOpen_ne.mem_nhds present),
      self_mem_nhdsWithin] with z away inside
    exact ⟨away, (zero z inside).ge⟩

end RecedingHorizon.Circle
