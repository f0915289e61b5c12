import RecedingHorizon.Proofs.Gradient.Certificate
import RecedingHorizon.Proofs.Program.Emptiness

/-!
# The least number of iterations

Two bounds on the distance to the minimum fall with every iteration, one by a constant factor and one
like the inverse square of the count. Taking the logarithm of the one and the square root of the other
and rounding up gives the least count at which either bound has come down to the accuracy, for every
condition number above one (`isLeast_iterationCount`). At the condition number one the factor is zero, so
that one iteration is enough for every gap, but its logarithm lies below all numbers and the count is
zero, be the gap within the accuracy or not (`upperIterationBound_isLeast`).
-/

namespace RecedingHorizon.Gradient

variable {eps gap κ : ℝ}

/-! ### The bound -/

theorem isLeast_sufficientCounts_one (accuracy : 0 < eps) (outside : eps < gap) :
    IsLeast (sufficientCounts eps 1 gap) 1 := by
  constructor
  · left
    rw [Real.sqrt_one, div_one, sub_self, pow_one, mul_zero]
    exact accuracy.le
  · intro k member
    by_contra below
    obtain rfl : k = 0 := by omega
    exact absurd (zero_mem_sufficientCounts.mp member) outside.not_ge

section Bound

variable {kit : Kernels ℝ} {solver : ProgramSolver ℝ} {coefficients bounds : Tensor ℝ}
  {hessian? : Option (Tensor ℝ)} {accuracyGiven largest condition : Argument ℝ}

/-- Where the condition number comes from: it is given, or else computed from the Hessian. -/
inductive HasCondition (kit : Kernels ℝ) : Option (Tensor ℝ) → Argument ℝ → ℝ → Prop
  | given {hessian? : Option (Tensor ℝ)} {condition : Argument ℝ} {κ : ℝ} :
      condition.toNumber = .ok κ → HasCondition kit hessian? condition κ
  | computed {m n : Nat} {H : Mat ℝ m n} {κ : ℝ} :
      kit.conditionNumber H = .ok κ → HasCondition kit (some (.ofMat H)) .nothing κ

theorem upperIterationBound_eq_bind (conditioned : HasCondition kit hessian? condition κ)
    (accurate : accuracyGiven.toNumber = .ok eps) :
    upperIterationBound kit solver accuracyGiven coefficients bounds hessian? largest condition =
      coldStartGap kit solver coefficients bounds hessian? largest >>= iterationBound eps κ := by
  cases conditioned with
  | given read =>
    have isGiven : condition.isGiven = true := by
      cases condition with
      | nothing => cases read
      | _ => rfl
    simp only [upperIterationBound, isGiven, if_true, accurate, read, bind, Except.bind, pure, Except.pure]
  | computed answered =>
    simp only [upperIterationBound, Argument.isGiven, Bool.false_eq_true, if_false, Tensor.ofMat, answered,
      accurate, bind, Except.bind, pure, Except.pure]
    rfl

theorem upperIterationBound_eq_iterationBound (conditioned : HasCondition kit hessian? condition κ)
    (accurate : accuracyGiven.toNumber = .ok eps)
    (gapped : coldStartGap kit solver coefficients bounds hessian? largest = .ok gap) :
    upperIterationBound kit solver accuracyGiven coefficients bounds hessian? largest condition =
      iterationBound eps κ gap := by
  rw [upperIterationBound_eq_bind conditioned accurate, gapped]
  rfl

/-- The bound for a positive gap. It is the least count of iterations at which one of the two bounds on
the distance has come down to the accuracy, and so it is one at least for a gap above the accuracy, but
for the condition number one and such a gap it is zero instead of one. -/
theorem upperIterationBound_isLeast (conditioned : HasCondition kit hessian? condition κ)
    (accurate : accuracyGiven.toNumber = .ok eps)
    (gapped : coldStartGap kit solver coefficients bounds hessian? largest = .ok gap)
    (least : 1 ≤ κ) (accuracy : 0 < eps) (apart : 0 < gap) :
    ∃ N, upperIterationBound kit solver accuracyGiven coefficients bounds hessian? largest condition =
        .ok N ∧
      (1 < κ ∨ gap ≤ eps → IsLeast (sufficientCounts eps κ gap) N) ∧
      (1 < κ → eps < gap → 1 ≤ N) ∧
      (κ = 1 → eps < gap → N = 0 ∧ IsLeast (sufficientCounts eps κ gap) 1) := by
  have bound := iterationBound_eq one_pos least accuracy apart.le
  rw [div_one] at bound
  refine ⟨iterationCount eps 1 κ gap, ?_, ?_, ?_, ?_⟩
  · rw [upperIterationBound_eq_iterationBound conditioned accurate gapped, bound]
  · exact isLeast_iterationCount_of_suited least accuracy apart.le
  · intro above outside
    have member := (isLeast_iterationCount above accuracy apart).1
    by_contra below
    rw [Nat.lt_one_iff.mp (not_le.mp below)] at member
    exact absurd (zero_mem_sufficientCounts.mp member) outside.not_ge
  · rintro rfl outside
    exact ⟨iterationCount_one eps gap, isLeast_sufficientCounts_one accuracy outside⟩

end Bound

/-! ### The numbers from one on -/

/-- The gap that a bound on the eigenvalues gives, for the shortest point of a polytope. -/
theorem coldStartGap_of_isShortest {m n : Nat} {kit : Kernels ℝ} {G : Mat ℝ m n} {g : Vec ℝ m}
    {x : Vec ℝ n} (rows : 0 < m) (columns : 0 < n)
    (exact : LeastDistance.FindsDual kit.nonnegativeLeastSquares G g)
    (shortest : IsShortest (Polytope.region ⟨G, g⟩) x) (near : 1 + Vec.dot x x < 10 ^ 12)
    (hessian? : Option (Tensor ℝ)) (L : ℝ) :
    coldStartGap kit (InequalityProgram.solve kit) (.ofMat G) (.ofVec g) hessian? (.real L) =
      .ok (L / 2 * Vec.dot x x) := by
  have solved := InequalityProgram.bind_nearestToOrigin kit G g rows columns
  rw [LeastDistance.leastDistance_of_isShortest exact shortest, if_pos near] at solved
  exact initialGap_eq (InequalityProgram.solve kit) L solved

theorem coldStartGap_ray :
    coldStartGap (Kernels.weighing (1 / 2)) (InequalityProgram.solve (Kernels.weighing (1 / 2)))
      (.ofMat (halfSpaceRow #v[1])) (.ofVec (halfSpaceBound #v[1] #v[1])) none (.real 16) = .ok 8 := by
  have exact := LeastDistance.findsDual_halfSpace #v[1] zero_le_one
  have multipliers := LeastDistance.hasMultipliers_halfSpace #v[1] zero_le_one
  have weight : (1 + 1 * 1 : ℝ)⁻¹ * 1 = 1 / 2 := by norm_num
  rw [Vec.scale_single] at exact multipliers
  rw [Vec.dot_single, weight] at exact
  rw [coldStartGap_of_isShortest one_pos one_pos exact multipliers.isShortest
    (by rw [Vec.dot_single]; norm_num), Vec.dot_single]
  norm_num

theorem isLeast_sufficientCounts_eight : IsLeast (sufficientCounts 1 4 8) 3 := by
  constructor
  · left
    rw [sqrt_four]
    norm_num
  · intro k member
    by_contra below
    rw [sufficientCounts, Set.mem_ofPred_eq, sqrt_four] at member
    have few : k < 3 := not_le.mp below
    interval_cases k <;> norm_num at member

/-- Three iterations for the gap eight and the condition number four, and none at all for the same gap
and the condition number one. -/
theorem upperIterationBound_isLeast_ray :
    upperIterationBound (Kernels.weighing (1 / 2)) (InequalityProgram.solve (Kernels.weighing (1 / 2)))
        (.real 1) (.ofMat (halfSpaceRow #v[1])) (.ofVec (halfSpaceBound #v[1] #v[1])) none (.real 16)
        (.real 4) = .ok 3 ∧
      upperIterationBound (Kernels.weighing (1 / 2)) (InequalityProgram.solve (Kernels.weighing (1 / 2)))
        (.real 1) (.ofMat (halfSpaceRow #v[1])) (.ofVec (halfSpaceBound #v[1] #v[1])) none (.real 16)
        (.real 1) = .ok 0 ∧
      IsLeast (sufficientCounts 1 1 8) 1 := by
  constructor
  · obtain ⟨N, bound, least, -, -⟩ := upperIterationBound_isLeast
      (show HasCondition (Kernels.weighing (1 / 2)) none (.real 4) 4 from .given rfl)
      (show (Argument.real (1 : ℝ)).toNumber = .ok 1 from rfl) coldStartGap_ray (by norm_num) one_pos
      (by norm_num)
    rw [bound, (least (.inl (by norm_num))).unique isLeast_sufficientCounts_eight]
  · obtain ⟨N, bound, -, -, one⟩ := upperIterationBound_isLeast
      (show HasCondition (Kernels.weighing (1 / 2)) none (.real 1) 1 from .given rfl)
      (show (Argument.real (1 : ℝ)).toNumber = .ok 1 from rfl) coldStartGap_ray le_rfl one_pos
      (by norm_num)
    obtain ⟨zero, enough⟩ := one rfl (by norm_num)
    rw [zero] at bound
    exact ⟨bound, enough⟩

end RecedingHorizon.Gradient
