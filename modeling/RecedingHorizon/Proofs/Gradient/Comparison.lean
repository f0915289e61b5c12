import RecedingHorizon.Proofs.Gradient.LeastCount
import RecedingHorizon.Proofs.Tensor.Inner

/-!
# Comparing two bounds on the iterations

A count of iterations that is enough stays enough for a looser accuracy, a smaller condition number and a
smaller gap, so the least such count does not grow (`iterationCount_mono`). For the condition number one and
for the gap zero the count is zero anyway. As the gap is proportional to the bound on the eigenvalues, two
bounds for one set and one solver compare in the same way, and they fail together if the solver has no
answer (`upperIterationBound_mono`).
-/

namespace RecedingHorizon.Gradient

variable {eps eps' κ κ' gap gap' : ℝ}

/-! ### Counts -/

/-- The part of the gap that is lost in an iteration grows smaller with the condition number. -/
theorem one_sub_le_one_sub (least : 1 ≤ κ) (worse : κ ≤ κ') : 1 - 1 / √κ ≤ 1 - 1 / √κ' := by
  have root : 0 < √κ := Real.sqrt_pos.mpr (one_pos.trans_le least)
  have roots : √κ ≤ √κ' := Real.sqrt_le_sqrt worse
  exact sub_le_sub_left (one_div_le_one_div_of_le root roots) 1

theorem one_sub_nonneg (least : 1 ≤ κ) : 0 ≤ 1 - 1 / √κ := by
  rw [sub_nonneg, one_div]
  exact inv_le_one_of_one_le₀ (Real.one_le_sqrt.mpr least)

theorem sufficientCounts_subset (looser : eps ≤ eps') (least : 1 ≤ κ) (worse : κ ≤ κ')
    (nonneg : 0 ≤ gap) (wider : gap ≤ gap') :
    sufficientCounts eps κ' gap' ⊆ sufficientCounts eps' κ gap := by
  rintro k (linear | sublinear)
  · left
    have factor := one_sub_nonneg least
    have above := nonneg.trans wider
    have factors := one_sub_le_one_sub least worse
    calc gap * (1 - 1 / √κ) ^ k ≤ gap' * (1 - 1 / √κ') ^ k := by gcongr
      _ ≤ eps := linear
      _ ≤ eps' := looser
  · right
    calc 4 * gap / (k + 2) ^ 2 ≤ 4 * gap' / (k + 2) ^ 2 := by gcongr
      _ ≤ eps := sublinear
      _ ≤ eps' := looser

theorem iterationCount_mono (accuracy : 0 < eps) (looser : eps ≤ eps') (least : 1 ≤ κ) (worse : κ ≤ κ')
    (nonneg : 0 ≤ gap) (wider : gap ≤ gap') :
    iterationCount eps' 1 κ gap ≤ iterationCount eps 1 κ' gap' := by
  rcases nonneg.eq_or_lt with rfl | apart
  · rw [iterationCount, if_pos rfl]
    exact Nat.zero_le _
  rcases least.eq_or_lt with rfl | above
  · rw [iterationCount_one]
    exact Nat.zero_le _
  -- What is left are two least counts, and the larger one is enough for the easier of the two.
  have easier := isLeast_iterationCount above (accuracy.trans_le looser) apart
  have harder := isLeast_iterationCount (above.trans_le worse) accuracy (apart.trans_le wider)
  exact easier.2 (sufficientCounts_subset looser least worse nonneg wider harder.1)

/-! ### Bounds -/

section Bound

variable {kit : Kernels ℝ} {solver : ProgramSolver ℝ} {coefficients bounds : Tensor ℝ} {L L' : ℝ}
variable {hessian? hessian?' : Option (Tensor ℝ)}
variable {accuracyGiven accuracyGiven' largest largest' condition condition' : Argument ℝ}

/-- The squared length of what a solver answers as the point nearest to the origin. -/
noncomputable def squaredDistance (solver : ProgramSolver ℝ) (coefficients bounds : Tensor ℝ) :
    Except Fault ℝ := do
  let x ← solver (← InequalityProgram.nearestToOrigin coefficients bounds)
  x.inner x

theorem coldStartGap_eq_map (bounded : largestEigenvalue kit hessian? largest = .ok L) :
    coldStartGap kit solver coefficients bounds hessian? largest =
      (squaredDistance solver coefficients bounds).map (L / 2 * ·) := by
  have gap : coldStartGap kit solver coefficients bounds hessian? largest =
      initialGap solver coefficients bounds L := by
    rw [coldStartGap, bounded]
    rfl
  rw [gap, initialGap, squaredDistance, Scalar.two_eq]
  -- A fault of any of the three steps is the fault of both sides.
  cases InequalityProgram.nearestToOrigin coefficients bounds with
  | error fault => rfl
  | ok program =>
    simp only [bind, Except.bind]
    cases solver program with
    | error fault => rfl
    | ok x => cases x.inner x <;> rfl

theorem squaredDistance_nonneg {d : ℝ} (answered : squaredDistance solver coefficients bounds = .ok d) :
    0 ≤ d := by
  obtain ⟨program, -, answered⟩ := bind_eq_ok answered
  obtain ⟨x, -, squared⟩ := bind_eq_ok answered
  exact Tensor.inner_self_nonneg squared

theorem upperIterationBound_of_squaredDistance (conditioned : HasCondition kit hessian? condition κ)
    (accurate : accuracyGiven.toNumber = .ok eps)
    (bounded : largestEigenvalue kit hessian? largest = .ok L) (accuracy : 0 < eps) (least : 1 ≤ κ)
    (positive : 0 < L) :
    upperIterationBound kit solver accuracyGiven coefficients bounds hessian? largest condition =
      (squaredDistance solver coefficients bounds).map fun d => iterationCount eps 1 κ (L / 2 * d) := by
  rw [upperIterationBound_eq_bind conditioned accurate, coldStartGap_eq_map bounded]
  match squared : squaredDistance solver coefficients bounds with
  | .error fault => rfl
  | .ok d =>
    have nonneg := squaredDistance_nonneg squared
    have gap : 0 ≤ L / 2 * d := by positivity
    have counted := iterationBound_eq one_pos least accuracy gap
    rw [div_one] at counted
    exact counted

/-- Of two bounds for the same set with the same solver, the one for the looser accuracy, the smaller
condition number and the smaller bound on the eigenvalues is not the larger one. If the solver has no
answer with a squared length, both fail, with the same fault. -/
theorem upperIterationBound_mono (solver : ProgramSolver ℝ) (coefficients bounds : Tensor ℝ)
    (conditioned : HasCondition kit hessian? condition κ)
    (conditioned' : HasCondition kit hessian?' condition' κ')
    (bounded : largestEigenvalue kit hessian? largest = .ok L)
    (bounded' : largestEigenvalue kit hessian?' largest' = .ok L')
    (accurate : accuracyGiven.toNumber = .ok eps) (accurate' : accuracyGiven'.toNumber = .ok eps')
    (accuracy : 0 < eps) (looser : eps ≤ eps') (least : 1 ≤ κ) (worse : κ ≤ κ') (positive : 0 < L)
    (steeper : L ≤ L') :
    match squaredDistance solver coefficients bounds with
    | .ok _ => ∃ N N',
        upperIterationBound kit solver accuracyGiven' coefficients bounds hessian? largest condition =
          .ok N ∧
        upperIterationBound kit solver accuracyGiven coefficients bounds hessian?' largest' condition' =
          .ok N' ∧
        N ≤ N'
    | .error fault =>
        upperIterationBound kit solver accuracyGiven' coefficients bounds hessian? largest condition =
          .error fault ∧
        upperIterationBound kit solver accuracyGiven coefficients bounds hessian?' largest' condition' =
          .error fault := by
  rw [upperIterationBound_of_squaredDistance conditioned accurate' bounded (accuracy.trans_le looser) least
      positive,
    upperIterationBound_of_squaredDistance conditioned' accurate bounded' accuracy (least.trans worse)
      (positive.trans_le steeper)]
  match squared : squaredDistance solver coefficients bounds with
  | .error fault => exact ⟨rfl, rfl⟩
  | .ok d =>
    have nonneg := squaredDistance_nonneg squared
    have wider : L / 2 * d ≤ L' / 2 * d := by gcongr
    exact ⟨_, _, rfl, rfl, iterationCount_mono accuracy looser least worse (by positivity) wider⟩

end Bound

theorem squaredDistance_ray :
    squaredDistance (InequalityProgram.solve (Kernels.weighing (1 / 2))) (.ofMat (halfSpaceRow #v[1]))
      (.ofVec (halfSpaceBound #v[1] #v[1])) = .ok 1 := by
  have gap := coldStartGap_ray
  rw [coldStartGap_eq_map (show largestEigenvalue _ none (.real 16) = .ok 16 from rfl)] at gap
  match squared : squaredDistance (InequalityProgram.solve (Kernels.weighing (1 / 2)))
      (.ofMat (halfSpaceRow #v[1])) (.ofVec (halfSpaceBound #v[1] #v[1])) with
  | .error fault =>
    rw [squared] at gap
    cases gap
  | .ok d =>
    rw [squared] at gap
    have scaled : 16 / 2 * d = 8 := Except.ok.inj gap
    obtain rfl : d = 1 := by linarith
    rfl

/-- For the numbers from one on, three iterations are the bound for the accuracy one, the condition number
four and eigenvalues up to sixteen, so that there are no more for the accuracy two, the condition number two
and eigenvalues up to eight. -/
theorem upperIterationBound_mono_ray :
    ∃ N,
      upperIterationBound (Kernels.weighing (1 / 2)) (InequalityProgram.solve (Kernels.weighing (1 / 2)))
        (.real 2) (.ofMat (halfSpaceRow #v[1])) (.ofVec (halfSpaceBound #v[1] #v[1])) none (.real 8)
        (.real 2) = .ok N ∧
      upperIterationBound (Kernels.weighing (1 / 2)) (InequalityProgram.solve (Kernels.weighing (1 / 2)))
        (.real 1) (.ofMat (halfSpaceRow #v[1])) (.ofVec (halfSpaceBound #v[1] #v[1])) none (.real 16)
        (.real 4) = .ok 3 ∧
      N ≤ 3 := by
  have four : HasCondition (Kernels.weighing (1 / 2)) none (.real 4) 4 := .given rfl
  have sixteen : largestEigenvalue (Kernels.weighing (1 / 2)) none (.real 16) = .ok 16 := rfl
  have one : (Argument.real (1 : ℝ)).toNumber = .ok 1 := rfl
  have compared := upperIterationBound_mono (InequalityProgram.solve (Kernels.weighing (1 / 2)))
    (.ofMat (halfSpaceRow #v[1])) (.ofVec (halfSpaceBound #v[1] #v[1]))
    (show HasCondition (Kernels.weighing (1 / 2)) none (.real 2) 2 from .given rfl) four
    (show largestEigenvalue _ none (.real 8) = .ok 8 from rfl) sixteen one
    (show (Argument.real (2 : ℝ)).toNumber = .ok 2 from rfl) one_pos one_le_two one_le_two
    (by norm_num) (by norm_num) (by norm_num)
  rw [squaredDistance_ray] at compared
  obtain ⟨N, N', easier, harder, fewer⟩ := compared
  -- The harder one of the two bounds is the least count for the gap eight.
  obtain rfl : N' = 3 := by
    have gap : (16 / 2 * 1 : ℝ) = 8 := by norm_num
    have least := isLeast_iterationCount (by norm_num : (1 : ℝ) < 4) one_pos (by norm_num : (0 : ℝ) < 8)
    rw [upperIterationBound_of_squaredDistance four one sixteen one_pos (by norm_num) (by norm_num),
      squaredDistance_ray, Except.map, gap, Except.ok.injEq] at harder
    rw [← harder, least.unique isLeast_sufficientCounts_eight]
  exact ⟨N, easier, harder, fewer⟩

end RecedingHorizon.Gradient
