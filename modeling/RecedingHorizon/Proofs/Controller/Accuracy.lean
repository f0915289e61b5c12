import Mathlib.Algebra.Order.Star.Real
import RecedingHorizon.Controller.Plan
import RecedingHorizon.Proofs.Condensing.Substitution
import RecedingHorizon.Proofs.Controller.InputBounds
import RecedingHorizon.Proofs.Gradient.Condition
import RecedingHorizon.Proofs.Gradient.Convergence
import RecedingHorizon.Proofs.Gradient.Eigenvalues
import RecedingHorizon.Proofs.Gradient.Minimization

/-!
# How accurate an optimal plan is

A plan is optimal when one of the two standard tests held for its last iteration. The gradient test
certifies the plan among all inputs within the bounds; the conjugate test only among those of them
whose entries lie between minus one and one (`Controller.cost_le_of_isOptimal`).
-/

namespace RecedingHorizon

open RecedingHorizon.Gradient Matrix

variable {n m p : Nat}

theorem ConstrainedLqr.transpose_hessian (problem : ConstrainedLqr ℝ n m p) :
    problem.hessian.transpose = problem.hessian := by
  apply Mat.toMatrix_inj.mp
  rw [Mat.toMatrix_transpose]
  exact Mat.isSymm_symmetrize _

/-- The cost of a plan is twice the objective of the minimization. -/
theorem CondensedProgram.objective_eq_two_mul {N : Nat} (qp : CondensedProgram ℝ N n m p)
    (x : Vec ℝ n) (v : Vec ℝ (N * m)) :
    qp.objective x v = 2 * Gradient.objective qp.hessian (qp.linearTerm x) v := by
  rw [CondensedProgram.objective, Gradient.objective, Scalar.two_eq]
  ring

namespace Controller

variable {σ : Type} {kit : Kernels ℝ} {problem : ConstrainedLqr ℝ n m p}
  {settings : ControlSettings ℝ σ} {c : Controller ℝ σ n m p}

/-- What a controller is made of. -/
theorem ofProblem_eq_ok (made : ofProblem kit problem settings = .ok c) :
    ∃ projection largest smallest,
      chooseProjection problem settings.projection? = .ok projection ∧
      eigenvalueBounds kit problem.hessian = .ok (largest, smallest) ∧
      c = { problem, settings, projection, program := problem.condense, largest, smallest } := by
  obtain ⟨projection, chosen, made⟩ := bind_eq_ok made
  obtain ⟨⟨largest, smallest⟩, computed, made⟩ := bind_eq_ok made
  cases made
  exact ⟨projection, largest, smallest, chosen, computed, rfl⟩

/-- A plan is made of the outcome of the minimization. -/
theorem plan_eq_ok {x : Vec ℝ n} {start : Vec ℝ (c.problem.horizon * m)} {momentum : Momentum ℝ σ}
    {outcome : Outcome (Vec ℝ (c.problem.horizon * m)) σ} (checked : c.runSettings.check = .ok ())
    (fitted : c.settings.strategy.forBounds (.real c.largest) (.real c.smallest) = .ok momentum)
    (minimized : (c.method momentum (c.program.linearTerm x)).minimize start [c.isAccurate]
      c.runSettings none = .ok outcome) :
    c.plan x start = .ok {
      outcome
      rollout := c.problem.system.rollout c.problem.gain x outcome.point
      cost := c.program.objective x outcome.point } := by
  simp only [plan, checked, fitted, minimized, bind, Except.bind, pure, Except.pure]

theorem solve_eq_ok {x : Vec ℝ n} {momentum : Momentum ℝ σ}
    {outcome : Outcome (Vec ℝ (c.problem.horizon * m)) σ} (checked : c.runSettings.check = .ok ())
    (fitted : c.settings.strategy.forBounds (.real c.largest) (.real c.smallest) = .ok momentum)
    (minimized : (c.method momentum (c.program.linearTerm x)).minimize (Vec.zeros _)
      [c.isAccurate] c.runSettings none = .ok outcome) :
    c.solve (.ofVec x) none = .ok {
      outcome
      rollout := c.problem.system.rollout c.problem.gain x outcome.point
      cost := c.program.objective x outcome.point } := by
  simp only [solve, Tensor.toVec?_ofVec, readStart, plan_eq_ok checked fitted minimized, bind,
    Except.bind]

/-- An optimal plan ends with an iteration that is accurate. -/
theorem exists_nth_of_isOptimal {x : Vec ℝ n} {start? : Option (Tensor ℝ)}
    {plan : Plan ℝ σ c.problem.horizon n m} (solved : c.solve (.ofVec x) start? = .ok plan)
    (optimal : plan.isOptimal = true) :
    plan.cost = c.program.objective x plan.free ∧
    ∃ momentum start k s, (c.method momentum (c.program.linearTerm x)).nth start k = .ok s ∧
      plan.free = s.xNext ∧ plan.outcome.iterations = s.count ∧ c.isAccurate s = .ok true := by
  simp only [solve, Tensor.toVec?_ofVec] at solved
  obtain ⟨start, -, solved⟩ := bind_eq_ok solved
  obtain ⟨-, -, solved⟩ := bind_eq_ok solved
  obtain ⟨momentum, -, solved⟩ := bind_eq_ok solved
  obtain ⟨outcome, minimized, solved⟩ := bind_eq_ok solved
  cases solved
  have status : outcome.status = .optimal := beq_iff_eq.mp optimal
  obtain ⟨k, s, reached, point, counted, test, member, held⟩ :=
    exists_nth_of_optimal minimized status
  obtain rfl := List.mem_singleton.mp member
  exact ⟨rfl, momentum, start, k, s, reached, point, counted, held⟩

/-- The gradient test of a controller at a tolerance. -/
noncomputable def gradientTest (c : Controller ℝ σ n m p) (tolerance : ℝ) : GradientTest ℝ :=
  ⟨⟨tolerance, true, c.size⟩, c.largest, c.smallest⟩

/-- The cost of an optimal plan is at most two tolerances above the cost of any inputs within the
bounds for which the last test speaks: of all of them if it is the gradient test that held, and of
those without entries larger than one in any case. -/
theorem cost_le_of_isOptimal (made : ofProblem kit problem settings = .ok c)
    (standard : settings.projection? = none) {values : Vec ℝ (problem.horizon * m)}
    (evaluated : kit.eigenvalues problem.hessian = .ok values)
    (exact : IsSpectrum problem.hessian values) (definite : problem.hessian.toMatrix.PosDef)
    {tolerance : ℝ} (accuracy : settings.tolerance.toNumber = .ok tolerance)
    (positive : 0 < tolerance) {x : Vec ℝ n} {start? : Option (Tensor ℝ)}
    {plan : Plan ℝ σ c.problem.horizon n m} (solved : c.solve (.ofVec x) start? = .ok plan)
    (optimal : plan.isOptimal = true) :
    ∃ s : Iteration (Vec ℝ (c.problem.horizon * m)) σ,
      (∃ momentum start k, (c.method momentum (c.program.linearTerm x)).nth start k = .ok s) ∧
      plan.free = s.xNext ∧ plan.outcome.iterations = s.count ∧ c.isAccurate s = .ok true ∧
      ∀ z ∈ problem.boundedInputs,
        ((c.gradientTest tolerance).holds s = .ok true ∨ ∀ i, |z i| ≤ 1) →
        plan.cost ≤ problem.condense.objective x z + 2 * tolerance := by
  obtain ⟨cost, momentum, start, k, s, reached, point, counted, accurate⟩ :=
    exists_nth_of_isOptimal solved optimal
  refine ⟨s, ⟨momentum, start, k, reached⟩, point, counted, accurate, fun z inside suited => ?_⟩
  obtain ⟨eps, read, held⟩ := bind_eq_ok accurate
  obtain ⟨projection, largest, smallest, chosen, computed, rfl⟩ := ofProblem_eq_ok made
  rw [standard] at chosen
  obtain rfl : tolerance = eps := Except.ok.inj (accuracy.symm.trans read)
  obtain ⟨above, ordered, curvature⟩ := hasCurvature_eigenvalueBounds exact definite evaluated
    problem.transpose_hessian computed
  have sized : (0 : Int) < (problem.horizon * m : Nat) :=
    Int.natCast_pos.mpr (pos_of_eigenvalueBounds computed)
  have gap := objective_sub_le_of_best curvature above ordered problem.isConvex_boundedInputs
    (ConstrainedLqr.projects_inputProjection chosen ⟨z, inside⟩) reached sized held inside suited
  -- The tests divide the tolerance by the number of variables.
  have share : tolerance / ((problem.horizon * m : Nat) : Int) ≤ tolerance :=
    div_le_self positive.le (by exact_mod_cast sized)
  rw [cost, point, CondensedProgram.objective_eq_two_mul, CondensedProgram.objective_eq_two_mul]
  change 2 * Gradient.objective problem.hessian (problem.condense.linearTerm x) s.xNext ≤
    2 * Gradient.objective problem.hessian (problem.condense.linearTerm x) z + 2 * tolerance
  linarith

end Controller

/-! ### A plan with bounds on one side -/

/-- An integrator with two inputs, of which the first one is cheap to use; both have a lower bound. -/
noncomputable def boundedIntegrator : ConstrainedLqr ℝ 1 2 0 where
  system := { dynamics := Mat.identity 1, input := Mat.ofFn fun _ _ => 1, interval := 1 }
  horizon := 1
  horizon_pos := Nat.one_pos
  stateWeight := 0
  inputWeight := Mat.identity 2
  crossWeight := Mat.ofFn fun _ j => if j.val = 0 then 5 else 1
  gain := 0
  terminalKind := .explicit
  terminalWeight := 0
  stage := { states := 0, inputs := 0, bounds := Vec.zeros 0 }
  stateBounds := { lower := Vector.replicate 1 .bottom, upper := Vector.replicate 1 .top }
  inputBounds := { lower := Vector.replicate 2 (.finite (-3)), upper := Vector.replicate 2 .top }

/-- Methods that give every matrix the eigenvalue one, as the identity has it, and fail otherwise. -/
def identityKernels : Kernels ℝ where
  eigenvalues _ := .ok (Vec.ofFn fun _ => 1)
  hermitianEigenvalues _ := .error .singular
  spectralRadius _ := .error .singular
  rank _ := .error .singular
  conditionNumber _ := .error .singular
  solve _ _ := .error .singular
  solveComplex _ _ := .error .singular
  riccati _ _ _ _ _ := none
  lyapunov _ _ := none
  nonnegativeLeastSquares _ _ := .error .singular
  leastSquares _ _ := .error .singular
  quadraticProgram _ _ _ _ := .error .singular
  rootBetween _ _ _ := none

theorem toMatrix_hessian_boundedIntegrator : boundedIntegrator.hessian.toMatrix = 1 := by
  refine Mat.eq_of_quadraticForm_eq (Mat.isSymm_symmetrize _) isSymm_one fun x => ?_
  -- From the origin the objective is the quadratic form, and one stage costs its inputs squared.
  have objective := boundedIntegrator.objective_one_stage (Vec.zeros 1) (Vec.ofFn x) rfl rfl
  have weight : boundedIntegrator.inputWeight.toMatrix = 1 := Mat.toMatrix_identity
  have stage (i : Fin 2) : (Vec.ofFn x).partAt 0 i = x i := by
    have part : (Vec.ofFn x).partAt 0 =
        (Vec.ofFn x).part (⟨0, boundedIntegrator.horizon_pos⟩ : Fin boundedIntegrator.horizon) :=
      Vec.partAt_val _ (⟨0, boundedIntegrator.horizon_pos⟩ : Fin boundedIntegrator.horizon)
    rw [part, Vec.part_get, Vec.ofFn_get]
    exact congrArg x (Fin.ext (Nat.zero_add i.val))
  rw [CondensedProgram.objective_eq, weight] at objective
  simp only [Vec.get_ofFn, Vec.get_zeros, mulVec_zero, zero_dotProduct, mul_zero, add_zero,
    one_mulVec, zero_add] at objective
  calc x ⬝ᵥ boundedIntegrator.hessian.toMatrix *ᵥ x
      = ((Vec.ofFn x).partAt 0).get ⬝ᵥ ((Vec.ofFn x).partAt 0).get := objective
    _ = x ⬝ᵥ 1 *ᵥ x := by
      rw [one_mulVec]
      exact Finset.sum_congr rfl fun i _ => by rw [stage]

theorem posDef_hessian_boundedIntegrator : boundedIntegrator.hessian.toMatrix.PosDef := by
  rw [toMatrix_hessian_boundedIntegrator]
  exact PosDef.one

theorem eigenvalueBounds_boundedIntegrator :
    eigenvalueBounds identityKernels boundedIntegrator.hessian = .ok (1, 1) := by
  have computed : identityKernels.eigenvalues boundedIntegrator.hessian =
      .ok (Vec.ofFn fun _ => 1) := rfl
  have bounds := eigenvalueBounds_eq (isSpectrum_identity toMatrix_hessian_boundedIntegrator)
    posDef_hessian_boundedIntegrator computed Nat.two_pos
  rwa [Vec.ofFn_get, Vec.ofFn_get] at bounds

/-- A plan that is optimal after one iteration, because the gradient test holds for it. -/
theorem cost_le_of_isOptimal_boundedIntegrator :
    let settings : ControlSettings ℝ (StepState ℝ) :=
      { strategy := StepRule.defaultConstant.strategy identityKernels, limit := .whole 1 }
    ∃ (c : Controller ℝ (StepState ℝ) 1 2 0) (plan : Plan ℝ (StepState ℝ) c.problem.horizon 1 2)
      (s : Iteration (Vec ℝ (c.problem.horizon * 2)) (StepState ℝ)),
      Controller.ofProblem identityKernels boundedIntegrator settings = .ok c ∧
      c.solve (.ofVec #v[1]) none = .ok plan ∧ plan.isOptimal = true ∧
      plan.free = s.xNext ∧ (c.gradientTest 1e-4).holds s = .ok true ∧
      ∀ z ∈ boundedIntegrator.boundedInputs,
        plan.cost ≤ boundedIntegrator.condense.objective #v[1] z + 2 * 1e-4 := by
  intro settings
  have plain : boundedIntegrator.isPrestabilized = false :=
    Mat.anyEntry_eq_false.mpr fun i j => by simp [boundedIntegrator]
  obtain ⟨projection, chosen⟩ := ConstrainedLqr.exists_inputProjection plain fun i => by
    fin_cases i <;> rfl
  have nonempty : boundedIntegrator.boundedInputs.Nonempty := by
    refine ⟨Vec.zeros _, fun k i => ?_⟩
    have zero : (Vec.zeros (boundedIntegrator.horizon * 2)).part k i = (0 : ℝ) := by
      rw [Vec.part_get, Vec.get_zeros, Pi.zero_apply]
    rw [zero]
    fin_cases i <;> exact ⟨decide_eq_true (by norm_num), rfl⟩
  let c : Controller ℝ (StepState ℝ) 1 2 0 :=
    { problem := boundedIntegrator, settings, projection
      program := boundedIntegrator.condense, largest := 1, smallest := 1 }
  have made : Controller.ofProblem identityKernels boundedIntegrator settings = .ok c := by
    have computed : eigenvalueBounds identityKernels boundedIntegrator.condense.hessian =
        .ok (1, 1) := eigenvalueBounds_boundedIntegrator
    simp only [Controller.ofProblem, Controller.chooseProjection, chosen, computed, bind,
      Except.bind]
    rfl
  let b := c.program.linearTerm #v[1]
  obtain ⟨s, stepped, -, -, -⟩ := exists_step_constant (H := c.program.hessian) (b := b) (L := 1)
    identityKernels (StepRule.factorFor 1 1)
    (ConstrainedLqr.projects_inputProjection chosen nonempty) 1 (Vec.zeros _) (Vec.zeros _) none
  -- Both bounds on the eigenvalues are one, so that the test holds for every iteration.
  have held (s : Iteration (Vec ℝ (c.problem.horizon * 2)) (StepState ℝ)) :
      (c.gradientTest 1e-4).holds s = .ok true :=
    holds_of_same_bounds (Int.natCast_pos.mpr Nat.two_pos) one_pos (by norm_num)
  have accurate : c.isAccurate s = .ok true := by
    change (do if ← (c.gradientTest 1e-4).holds s then return true else _) = Except.ok true
    rw [held s]
    rfl
  have settled : [c.isAccurate].anyM (fun holds => holds s) = .ok true := by
    simp [accurate, bind, Except.bind, pure, Except.pure]
  have checked : c.runSettings.check = .ok () := rfl
  let momentum := (StepRule.constant (StepRule.factorFor (1 : ℝ) 1)).momentum identityKernels
  have fitted : c.settings.strategy.forBounds (.real c.largest) (.real c.smallest) = .ok momentum :=
    rfl
  have first : (c.method momentum b).first (Vec.zeros _) = .ok s := stepped
  have solved := Controller.solve_eq_ok checked fitted (minimize_once first settled)
  obtain ⟨t, -, point, -, -, certified⟩ := Controller.cost_le_of_isOptimal made rfl rfl
    (isSpectrum_identity toMatrix_hessian_boundedIntegrator) posDef_hessian_boundedIntegrator rfl
    (by norm_num) solved rfl
  exact ⟨c, _, t, made, solved, rfl, point, held t, fun z inside =>
    certified z inside (.inl (held t))⟩

end RecedingHorizon
