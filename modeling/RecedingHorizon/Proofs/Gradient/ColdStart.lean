import RecedingHorizon.Proofs.Gradient.Convergence

/-!
# Convergence from outside the set

A start need not belong to the set. The objective there says nothing about the run then, but the first
iteration projects, and its potential is bounded by an inner product between two steps from the start:
the one to the first iterate and the one to the point that it is compared with
(`potential_first_le`). From there on the run shrinks it as usual (`exists_nth_of_start`). Without a
linear term the first iterate from the origin is the shortest vector of the set, and its square alone
bounds the potential (`potential_shortest_le`). For a start at the origin, `exists_nth_of_cold_start` has
both bounds.
-/

namespace RecedingHorizon.Gradient

variable {n : Nat} {H : Mat ℝ n n} {b : Vec ℝ n} {μ L s : ℝ} {X : Set (Vec ℝ n)}

/-- The potential after the first iteration, wherever it started. -/
theorem potential_first_le (curvature : HasCurvature H μ L) (positive : 0 < L)
    (convex : IsConvex X) (rate : L * (s * s) = μ) {factor : ℝ}
    (momentum : (1 + s) * factor = 1 - s) {start z p : Vec ℝ n}
    (nearest : IsNearest X (trialPoint H b L start) p) (inside : z ∈ X) :
    potential H b L s z p (p + (p - start).map (factor * ·)) ≤
      (1 - s) * (L * Vec.dot (p - start) (z - start)) := by
  have stepped := curvature.objective_step_le (b := b) positive convex nearest inside
  rw [potential, carried_momentum momentum]
  simp only [Vec.dot_add_left, Vec.dot_add_right, Vec.dot_scale_left, Vec.dot_scale_right,
    Vec.dot_sub_left, Vec.dot_sub_right, Vec.dot_comm z start, Vec.dot_comm p start,
    Vec.dot_comm p z, ← rate] at stepped ⊢
  linarith

/-- From any start at all, the first gap is `L` times the inner product of the steps to the first
iterate and to the point that the run is compared with. -/
theorem exists_nth_of_start (curvature : HasCurvature H μ L) (positive : 0 < μ) (ordered : μ ≤ L)
    (convex : IsConvex X) {project : Vec ℝ n → Except Fault (Vec ℝ n)}
    (projects : Projects project X) {start first : Vec ℝ n}
    (nearest : IsNearest X (trialPoint H b L start) first) (kit : Kernels ℝ) (k : Nat) :
    ∃ t, (Method.onVectors H b project
        ((StepRule.constant (StepRule.factorFor L μ)).momentum kit) L).nth start k = .ok t ∧
      t.count = k + 1 ∧ t.xNext ∈ X ∧
      ∀ z ∈ X, objective H b t.xNext - objective H b z ≤
        (1 - √(μ / L)) ^ (k + 1) * (L * Vec.dot (first - start) (z - start)) := by
  have above : 0 < L := positive.trans_le ordered
  have rate := rate_sqrt above positive.le
  obtain ⟨t, reached, counted, member, bounded⟩ := exists_nth_constant (b := b) kit curvature
    above convex projects rate (Real.sqrt_nonneg _) (sqrt_ratio_le_one above ordered)
    (momentum_factorFor above) start (fun z => L * Vec.dot (first - start) (z - start))
    (fun p projected z inside => by
      -- The gap is stated with the one nearest point that there is.
      obtain rfl := projected.eq_of_isConvex convex nearest
      exact potential_first_le curvature above convex rate (momentum_factorFor above) nearest
        inside)
    k
  refine ⟨t, reached, counted, member, fun z inside => ?_⟩
  exact (objective_sub_le_potential above.le z _ _).trans (bounded z inside)

/-! ### No linear term -/

theorem trialPoint_zeros (H : Mat ℝ n n) (L : ℝ) :
    trialPoint H (Vec.zeros n) L (Vec.zeros n) = Vec.zeros n := by
  refine Vec.ext fun i => ?_
  rw [trialPoint_origin, Vec.get_zeros, Pi.zero_apply, neg_zero, zero_div]

/-- The potential after the first iteration from the origin, which ends at the shortest vector. -/
theorem potential_shortest_le (curvature : HasCurvature H μ L) (positive : 0 < L)
    (convex : IsConvex X) (rate : L * (s * s) = μ) (nonneg : 0 ≤ s) {factor : ℝ}
    (momentum : (1 + s) * factor = 1 - s) {z p : Vec ℝ n} (shortest : IsNearest X (Vec.zeros n) p)
    (inside : z ∈ X) :
    potential H (Vec.zeros n) L s z p (p + (p - Vec.zeros n).map (factor * ·)) ≤
      (1 - s) * (2 * (L / 2 * Vec.dot p p)) := by
  have above := curvature.upper p
  have below := curvature.lower z
  -- The inner product of the two vectors is not smaller than the square of the shortest one.
  have obtuse := mul_nonneg_of_nonpos_of_nonpos
    (neg_nonpos.mpr (mul_nonneg positive.le nonneg)) (shortest.dot_le_zero convex inside)
  have flat (x : Vec ℝ n) : Vec.dot (Vec.zeros n) x = 0 := by
    rw [Vec.dot_eq, Vec.get_zeros, zero_dotProduct]
  rw [potential, carried_momentum momentum]
  simp only [objective, Vec.sub_zeros, Vec.dot_add_left, Vec.dot_add_right, Vec.dot_scale_left,
    Vec.dot_scale_right, Vec.dot_sub_left, Vec.dot_sub_right, Vec.dot_comm z p, flat, ← rate]
    at above below obtuse ⊢
  linarith

theorem exists_nth_of_origin (curvature : HasCurvature H μ L) (positive : 0 < μ) (ordered : μ ≤ L)
    (convex : IsConvex X) {project : Vec ℝ n → Except Fault (Vec ℝ n)}
    (projects : Projects project X) {x : Vec ℝ n} (shortest : IsNearest X (Vec.zeros n) x)
    (kit : Kernels ℝ) (k : Nat) :
    ∃ t, (Method.onVectors H (Vec.zeros n) project
        ((StepRule.constant (StepRule.factorFor L μ)).momentum kit) L).nth (Vec.zeros n) k = .ok t ∧
      ∀ z ∈ X, objective H (Vec.zeros n) t.xNext - objective H (Vec.zeros n) z ≤
        (1 - √(μ / L)) ^ (k + 1) * (2 * (L / 2 * Vec.dot x x)) := by
  have above : 0 < L := positive.trans_le ordered
  have rate := rate_sqrt above positive.le
  obtain ⟨t, reached, -, -, bounded⟩ := exists_nth_constant kit curvature above convex projects rate
    (Real.sqrt_nonneg _) (sqrt_ratio_le_one above ordered) (momentum_factorFor above) (Vec.zeros n)
    (fun _ => 2 * (L / 2 * Vec.dot x x))
    (fun p projected z inside => by
      rw [trialPoint_zeros] at projected
      obtain rfl := projected.eq_of_isConvex convex shortest
      exact potential_shortest_le curvature above convex rate (Real.sqrt_nonneg _)
        (momentum_factorFor above) shortest inside)
    k
  refine ⟨t, reached, fun z inside => ?_⟩
  exact (objective_sub_le_potential above.le z _ _).trans (bounded z inside)

/-- What a cold start is worth beside a point of the set: both gaps shrink by the same factor in every
iteration, the one of the linear term and the one without a linear term. -/
theorem exists_nth_of_cold_start (curvature : HasCurvature H μ L) (positive : 0 < μ) (ordered : μ ≤ L)
    (convex : IsConvex X) {project : Vec ℝ n → Except Fault (Vec ℝ n)}
    (projects : Projects project X) {x first : Vec ℝ n} (shortest : IsNearest X (Vec.zeros n) x)
    (nearest : IsNearest X (trialPoint H b L (Vec.zeros n)) first) (kit : Kernels ℝ) (k : Nat) :
    ∃ t, (Method.onVectors H b project
        ((StepRule.constant (StepRule.factorFor L μ)).momentum kit) L).nth (Vec.zeros n) k = .ok t ∧
      t.count = k + 1 ∧ t.xNext ∈ X ∧
      ∀ z ∈ X, ∀ gap,
        gap = L * Vec.dot first z ∨ b = Vec.zeros n ∧ gap = 2 * (L / 2 * Vec.dot x x) →
        objective H b t.xNext - objective H b z ≤ gap * (1 - √(μ / L)) ^ (k + 1) := by
  obtain ⟨t, reached, counted, member, bounded⟩ :=
    exists_nth_of_start (b := b) curvature positive ordered convex projects nearest kit k
  refine ⟨t, reached, counted, member, fun z inside gap gapped => ?_⟩
  rcases gapped with rfl | ⟨rfl, rfl⟩
  · have bound := bounded z inside
    rwa [Vec.sub_zeros, Vec.sub_zeros, mul_comm] at bound
  · obtain ⟨t', reached', bounded'⟩ :=
      exists_nth_of_origin curvature positive ordered convex projects shortest kit k
    obtain rfl : t = t' := Except.ok.inj (reached.symm.trans reached')
    have bound := bounded' z inside
    rwa [mul_comm] at bound

/-- Once a gap has shrunk to the accuracy, it stays there. -/
theorem mul_pow_le_of_le {gap factor eps : ℝ} (nonneg : 0 ≤ factor) (atMost : factor ≤ 1)
    (accuracy : 0 ≤ eps) {N k : Nat} (later : N ≤ k) (enough : gap * factor ^ N ≤ eps) :
    gap * factor ^ k ≤ eps := by
  rcases le_total 0 gap with above | below
  · calc gap * factor ^ k
        ≤ gap * factor ^ N :=
          mul_le_mul_of_nonneg_left (pow_le_pow_of_le_one nonneg atMost later) above
      _ ≤ eps := enough
  · exact (mul_nonpos_of_nonpos_of_nonneg below (pow_nonneg nonneg k)).trans accuracy

end RecedingHorizon.Gradient
