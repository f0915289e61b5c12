import RecedingHorizon.Proofs.Controller.Accuracy
import RecedingHorizon.Proofs.Gradient.Stationary

/-!
# Warm starts

Where a minimization starts at a minimizer, it stays there: the iterations do not move, whatever the
momentum is, and a run ends after the first one. So does the minimization of a controller that is given the
free variables of an optimal plan (`rests_at_minimizer`). The step strategy has to accept the bounds on
the eigenvalues, which the recurrence does not do for a singular Hessian.
-/

namespace RecedingHorizon

open RecedingHorizon.Gradient Matrix

variable {n m p : Nat}

namespace Controller

variable {σ : Type} {kit : Kernels ℝ} {problem : ConstrainedLqr ℝ n m p}
  {settings : ControlSettings ℝ σ} {c : Controller ℝ σ n m p}

theorem size_pos (made : ofProblem kit problem settings = .ok c) : 0 < c.problem.horizon * m := by
  obtain ⟨_, _, _, -, computed, rfl⟩ := ofProblem_eq_ok made
  exact pos_of_eigenvalueBounds computed

theorem runSettings_eq {limit : Nat} (limited : c.settings.limit = .whole limit) :
    c.runSettings = .ofWhole limit (if c.settings.isVerbose then 1 else 0) := by
  rw [runSettings, limited]
  cases c.settings.isVerbose <;> rfl

/-- A plan from a minimizer on is that minimizer, after one iteration. -/
theorem solve_at_minimizer (made : ofProblem kit problem settings = .ok c)
    (semidefinite : c.program.hessian.toMatrix.PosSemidef) (above : 0 < c.largest)
    {X : Set (Vec ℝ (c.problem.horizon * m))} (convex : IsConvex X)
    (projects : Projects c.projection.applyVec X) {x : Vec ℝ n} {start? : Option (Tensor ℝ)}
    {start : Vec ℝ (c.problem.horizon * m)} (started : readStart _ start? = .ok start)
    (minimal : IsMinimizer c.program.hessian (c.program.linearTerm x) X start) {limit : Nat}
    (limited : c.settings.limit = .whole limit) (positive : 1 ≤ limit)
    (countable : limit ≤ Pipeline.largestLimit) {tolerance : ℝ}
    (accuracy : c.settings.tolerance.toNumber = .ok tolerance) (tolerant : 0 < tolerance)
    {momentum : Momentum ℝ σ}
    (ready : c.settings.strategy.forBounds (.real c.largest) (.real c.smallest) = .ok momentum)
    (begins : momentum.Begins) :
    ∃ plan, c.solve (.ofVec x) start? = .ok plan ∧ plan.free = start ∧
      plan.outcome.iterations = 1 ∧ plan.isOptimal = true := by
  obtain ⟨s, first⟩ := exists_first (H := c.program.hessian) (b := c.program.linearTerm x)
    (L := c.largest) projects begins start
  obtain ⟨state, -, stepped⟩ := bind_eq_ok first
  -- The first iteration rests at the start, and the accuracy test is one for iterations that rest.
  have rests : s.RestsAt start := restsAt_of_step stepped
    ((xNext_eq_iff_of_step semidefinite above convex projects stepped).mpr minimal)
  have held : c.isAccurate s = .ok true := by
    simp only [isAccurate, accuracy, bind, Except.bind]
    exact holds_best_of_restsAt rests tolerant (Int.natCast_pos.mpr (size_pos made))
  have stays : (c.method momentum (c.program.linearTerm x)).first start = .ok s := first
  have unwatched : ∀ watch, (none : Option (Watcher _ σ)) = some watch → watch s = .ok s := nofun
  obtain ⟨outcome, returned, point, iterations, status⟩ := minimize_of_first positive countable
    (if c.settings.isVerbose then 1 else 0) unwatched stays held ⟨_, rfl⟩
  rw [← runSettings_eq limited] at returned
  have checked : c.runSettings.check = .ok () := by
    rw [runSettings_eq limited]
    exact check_ofWhole _ _
  have solved : c.solve (.ofVec x) start? = c.plan x start := by
    simp only [solve, Tensor.toVec?_ofVec, started, bind, Except.bind]
  exact ⟨_, solved.trans (plan_eq_ok checked ready returned), point.trans rests.xNext, iterations,
    beq_iff_eq.mpr status⟩

end Controller

/-- The first iteration stays at the start exactly if that is a minimizer over the set, and then no iteration
leaves it, whatever the momentum is. A program with one of the standard tests that starts there ends there
after one iteration and is optimal, with any projection onto the set and under any step strategy, and so is
the plan of a controller. -/
theorem rests_at_minimizer {H : Mat ℝ n n} {b : Vec ℝ n} {L : ℝ} {X : Set (Vec ℝ n)}
    (semidefinite : H.toMatrix.PosSemidef) (above : 0 < L) (convex : IsConvex X)
    {project : Tensor ℝ → Except Fault (Tensor ℝ)} (projects : Projects (forVectors project) X)
    (start : Vec ℝ n) :
    (∀ (σ : Type) (momentum : Momentum ℝ σ), momentum.Begins →
      ∃ s, (Method.onArrays H b project momentum L).first (.ofVec start) = .ok s ∧
        (s.xNext = .ofVec start ↔ IsMinimizer H b X start)) ∧
    (IsMinimizer H b X start →
      (∀ (σ : Type) (momentum : Momentum ℝ σ) s,
        Reaches (Method.onArrays H b project momentum L) (.ofVec start) s →
        s.RestsAt (.ofVec start)) ∧
      ∀ (σ : Type) (kit : Kernels ℝ) (program : Program ℝ σ) (limit interval : Nat)
        (eps eps' : ℝ) (isScaled : Bool), program.Starts kit H b start L → 0 < n →
        program.settings = .ofWhole limit interval → 1 ≤ limit → limit ≤ Pipeline.largestLimit →
        (∀ watch, program.watcher? = some watch → ∀ s, watch s = .ok s) → 0 < eps →
        program.conditions = [.best eps eps' isScaled] →
        ∃ solution, solveBy kit program project program.stopping = .ok solution ∧
          (program.projection.apply = project → solve kit program = .ok solution) ∧
          solution.outcome.point = .ofVec start ∧ solution.outcome.iterations = 1 ∧
          solution.outcome.status = .optimal) ∧
    ∀ (σ : Type) (n m p : Nat) (kit : Kernels ℝ) (problem : ConstrainedLqr ℝ n m p)
      (settings : ControlSettings ℝ σ) (c : Controller ℝ σ n m p)
      (X : Set (Vec ℝ (c.problem.horizon * m))) (x : Vec ℝ n) (start? : Option (Tensor ℝ))
      (start : Vec ℝ (c.problem.horizon * m)) (limit : Nat) (tolerance : ℝ) (momentum : Momentum ℝ σ),
      Controller.ofProblem kit problem settings = .ok c →
      c.program.hessian.toMatrix.PosSemidef → 0 < c.largest →
      IsConvex X → Projects c.projection.applyVec X →
      readStart (c.problem.horizon * m) start? = .ok start →
      IsMinimizer c.program.hessian (c.program.linearTerm x) X start →
      c.settings.limit = .whole limit → 1 ≤ limit → limit ≤ Pipeline.largestLimit →
      c.settings.tolerance.toNumber = .ok tolerance → 0 < tolerance →
      c.settings.strategy.forBounds (.real c.largest) (.real c.smallest) = .ok momentum →
      momentum.Begins →
      ∃ plan, c.solve (.ofVec x) start? = .ok plan ∧ plan.free = start ∧
        plan.outcome.iterations = 1 ∧ plan.isOptimal = true := by
  refine ⟨fun σ momentum begins => ?_, fun minimal => ⟨fun σ momentum s reached => ?_, ?_⟩, ?_⟩
  · obtain ⟨s, first⟩ := exists_first_onArrays (H := H) (b := b) (L := L) projects begins start
    obtain ⟨state, -, stepped⟩ := bind_eq_ok first
    refine ⟨_, first, ?_⟩
    exact xNext_eq_iff_of_step_onArrays semidefinite above convex projects stepped
  · exact restsAt_of_reaches semidefinite above convex projects minimal reached
  · intro σ kit program limit interval eps eps' isScaled starts sized settings limited countable
      unchanged accuracy conditions
    obtain ⟨solution, solved, point, iterations, status⟩ := solveBy_at_minimizer starts semidefinite
      above convex projects minimal sized settings limited countable unchanged accuracy conditions
    refine ⟨solution, solved, fun own => ?_, point, iterations, status⟩
    rw [solve_eq_solveBy, own, solved]
  · intro σ n m p kit problem settings c X x start? start limit tolerance momentum made semidefinite
      above convex projects started minimal limited positive countable accuracy tolerant ready begins
    exact Controller.solve_at_minimizer made semidefinite above convex projects started minimal
      limited positive countable accuracy tolerant ready begins

/-- The minimization of nothing over so many variables, from the origin on. -/
noncomputable def idleProgram {σ : Type} (n limit : Nat) (strategy : StepStrategy ℝ σ) :
    Program ℝ σ where
  hessian := .ofMat (0 : Mat ℝ n n)
  linear := .ofVec (Vec.zeros n)
  start? := some (.ofVec (Vec.zeros n))
  largest := .whole 1
  smallest := .whole 0
  strategy
  conditions := [.best 1e-4 1e-4 true]
  settings := .ofWhole limit 0

/-- Under the constant rule nothing is missing for a first iteration. -/
theorem starts_idleProgram (kit : Kernels ℝ) (n limit : Nat) :
    (idleProgram n limit (StepRule.defaultConstant.strategy kit)).Starts kit (0 : Mat ℝ n n)
      (Vec.zeros n) (Vec.zeros n) (1 : Int) where
  hessian := rfl
  linear := Tensor.flatten_ofVec _
  start := by simp [idleProgram, readStart, Tensor.flatten_ofVec]
  momentum := ⟨.whole 1, .whole 0, (0 : Int), _, rfl, rfl, rfl, rfl, StepRule.begins_constant kit _⟩

/-- Every point is a minimizer of nothing, and yet no run ends at its start if the rule is the recurrence,
which refuses a Hessian that is not strictly convex, if there are no variables to share the tolerance, or
if the limit on the iterations is larger than a limit can be. -/
theorem solve_idleProgram_eq_error :
    (∀ n, (0 : Mat ℝ n n).toMatrix.PosSemidef ∧
      IsMinimizer (0 : Mat ℝ n n) (Vec.zeros n) Set.univ (Vec.zeros n)) ∧
    ∀ kit : Kernels ℝ,
      solve kit (idleProgram 1 1 (StepRule.defaultRecurrence.strategy kit)) =
        .error (.convexityMissing "0") ∧
      solve kit (idleProgram 0 1 (StepRule.defaultConstant.strategy kit)) = .error .divisionByZero ∧
      solve kit (idleProgram 1 (2 ^ 63) (StepRule.defaultConstant.strategy kit)) =
        .error .limitOutOfRange := by
  refine ⟨fun n => ⟨?_, Set.mem_univ _, fun z _ => ?_⟩, fun kit => ⟨?_, ?_, ?_⟩⟩
  · rw [Mat.toMatrix_zero]
    exact PosSemidef.zero
  · simp [objective, Vec.dot_eq]
  · have refused : (StepRule.defaultRecurrence.strategy kit).forBounds (.whole 1) (.whole 0) =
        .error (.convexityMissing "0") := by
      have flat : Scalar.ofInt (0 : Int) ≤ (0 : ℝ) := Int.cast_zero.le
      change (if Scalar.ofInt (0 : Int) ≤ (0 : ℝ) then _ else _) >>= _ = _
      rw [if_pos flat]
      rfl
    change ((StepRule.defaultRecurrence.strategy kit).forBounds (.whole 1) (.whole 0) >>= _) = _
    rw [refused]
    rfl
  · rw [solve_eq_solveBy]
    exact solveBy_eq_error (starts_idleProgram kit 0 1) Projection.projects_identity rfl rfl rfl
  · rw [solve_eq_solveBy]
    exact solveBy_eq_error_of_limit (starts_idleProgram kit 1 (2 ^ 63)) rfl (by decide) _

/-- The minimization of `½ x² - x` in the first of two variables, from one of the minimizers on. -/
noncomputable def valleyProgram (kit : Kernels ℝ) : Program ℝ (StepState ℝ) where
  hessian := .ofMat flatHessian
  linear := .ofVec #v[-1, 0]
  start? := some (.ofVec #v[1, 5])
  largest := .real 1
  smallest := .real 0
  strategy := StepRule.defaultConstant.strategy kit
  conditions := [.best 1e-4 1e-4 true]
  settings := .ofWhole 5 0

theorem isMinimizer_valley : IsMinimizer flatHessian #v[-1, 0] Set.univ #v[1, 5] := by
  refine ⟨Set.mem_univ _, fun z _ => ?_⟩
  have value (x : Vec ℝ 2) : objective flatHessian #v[-1, 0] x = x 0 * x 0 / 2 - x 0 := by
    have slope : Vec.dot #v[-1, 0] x = -1 * x 0 + 0 * x 1 := by
      rw [Vec.dot_eq, dotProduct, Fin.sum_univ_two]
      rfl
    have curved : Vec.dot x #v[x 0, 0] = x 0 * x 0 + x 1 * 0 := by
      rw [Vec.dot_eq, dotProduct, Fin.sum_univ_two]
      rfl
    rw [objective, mulVec_flatHessian, slope, curved]
    ring
  rw [value, value]
  change (1 : ℝ) * 1 / 2 - 1 ≤ _
  nlinarith [mul_self_nonneg (z 0 - 1)]

/-- With the identity as its Hessian, an objective is smallest at the opposite of its linear term. -/
theorem isMinimizer_neg {H : Mat ℝ n n} (identity : H.toMatrix = 1) (b : Vec ℝ n) :
    IsMinimizer H b Set.univ (-b) := by
  have semidefinite : H.toMatrix.PosSemidef := by
    rw [identity]
    exact PosSemidef.one
  refine (isNearest_trialPoint_iff (L := 1) semidefinite one_pos isConvex_univ).mp ?_
  -- The gradient vanishes there, so that a step does not move.
  have flat : H.mulVec (-b) + b = Vec.zeros n := by
    apply Vec.get_inj.mp
    rw [Vec.get_add, Mat.get_mulVec, identity, one_mulVec, Vec.get_neg, neg_add_cancel, Vec.get_zeros]
  have still : trialPoint H b 1 (-b) = -b := by
    apply Vec.get_inj.mp
    rw [trialPoint, flat, Vec.get_sub, Vec.get_map]
    funext i
    simp [Vec.get_zeros]
  rw [still]
  exact isNearest_self (Set.mem_univ _)

/-- The bounded integrator without its bounds, under the constant rule. -/
noncomputable def unboundedSettings : ControlSettings ℝ (StepState ℝ) where
  projection? := some .identity
  strategy := StepRule.defaultConstant.strategy identityKernels

/-- A run with a singular Hessian, and a plan for the bounded integrator without its bounds. -/
theorem rests_at_minimizer_valley :
    (∀ (σ : Type) (momentum : Momentum ℝ σ) s,
      Reaches (Method.onArrays flatHessian #v[-1, 0] Projection.identity.apply momentum 1)
        (.ofVec #v[1, 5]) s → s.RestsAt (.ofVec #v[1, 5])) ∧
    (∃ solution, solve .unable (valleyProgram .unable) = .ok solution ∧
      solution.outcome.point = .ofVec #v[1, 5] ∧ solution.outcome.iterations = 1 ∧
      solution.outcome.status = .optimal) ∧
    ∃ (c : Controller ℝ (StepState ℝ) 1 2 0) (start : Vec ℝ (c.problem.horizon * 2))
      (plan : Plan ℝ (StepState ℝ) c.problem.horizon 1 2),
      Controller.ofProblem identityKernels boundedIntegrator unboundedSettings = .ok c ∧
      IsMinimizer c.program.hessian (c.program.linearTerm #v[1]) Set.univ start ∧
      c.solve (.ofVec #v[1]) (some (.ofVec start)) = .ok plan ∧ plan.free = start ∧
      plan.outcome.iterations = 1 ∧ plan.isOptimal = true := by
  obtain ⟨-, resting, planned⟩ := rests_at_minimizer (b := #v[-1, 0]) (L := 1) posSemidef_flatHessian
    one_pos isConvex_univ Projection.projects_identity #v[1, 5]
  obtain ⟨stays, solved⟩ := resting isMinimizer_valley
  refine ⟨stays, ?_, ?_⟩
  · have starts : (valleyProgram .unable).Starts .unable flatHessian #v[-1, 0] #v[1, 5] 1 :=
      { hessian := rfl
        linear := Tensor.flatten_ofVec _
        start := by simp [valleyProgram, readStart, Tensor.flatten_ofVec]
        momentum := ⟨.real 1, .real 0, 0, _, rfl, rfl, rfl, rfl, StepRule.begins_constant _ _⟩ }
    obtain ⟨solution, -, same, ends⟩ := solved _ .unable (valleyProgram .unable) 5 0 1e-4 1e-4 true
      starts two_pos rfl (by decide) (by decide) (fun _ own => (Option.some_ne_none _ own.symm).elim)
      (by norm_num) rfl
    exact ⟨solution, same rfl, ends⟩
  · let c : Controller ℝ (StepState ℝ) 1 2 0 :=
      { problem := boundedIntegrator, settings := unboundedSettings
        projection := .identity, program := boundedIntegrator.condense, largest := 1, smallest := 1 }
    have made : Controller.ofProblem identityKernels boundedIntegrator unboundedSettings = .ok c := by
      have computed : eigenvalueBounds identityKernels boundedIntegrator.condense.hessian =
          .ok (1, 1) := eigenvalueBounds_boundedIntegrator
      simp only [Controller.ofProblem, unboundedSettings, Controller.chooseProjection, computed, bind,
        Except.bind]
      rfl
    have semidefinite : c.program.hessian.toMatrix.PosSemidef :=
      posDef_hessian_boundedIntegrator.posSemidef
    let b := c.program.linearTerm #v[1]
    have minimal : IsMinimizer c.program.hessian b Set.univ (-b) :=
      isMinimizer_neg toMatrix_hessian_boundedIntegrator b
    have projects : Projects c.projection.applyVec (Set.univ : Set (Vec ℝ (c.problem.horizon * 2))) := by
      rw [Projection.applyVec_eq]
      exact Projection.projects_identity
    have started : readStart (c.problem.horizon * 2) (some (.ofVec (-b))) = .ok (-b) := by
      simp [readStart, Tensor.flatten_ofVec]
    obtain ⟨plan, answered, ends⟩ := planned _ 1 2 0 identityKernels boundedIntegrator _ c Set.univ
      #v[1] _ (-b) 100 1e-4 _ made semidefinite one_pos isConvex_univ projects started minimal rfl
      (by decide) (by decide) rfl (by norm_num) rfl (StepRule.begins_constant _ _)
    exact ⟨c, -b, plan, made, minimal, answered, ends⟩

end RecedingHorizon
