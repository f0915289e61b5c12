import RecedingHorizon.Controller.ClosedLoop
import RecedingHorizon.Proofs.Condensing.Constraints
import RecedingHorizon.Proofs.Condensing.Toeplitz
import RecedingHorizon.Proofs.Controller.Accuracy

/-!
# Inputs within their bounds

The momentum of a run may leave the set of the free variables, and so may its start, but what a run
answers is projected, unless it took no iteration at all (`free_mem_boundedInputs`). Without a feedback
the free variables are the inputs, so that every plan stays within the input bounds, and with every plan
of a closed loop so does each input that is applied (`inputs_mem_region`).
-/

namespace RecedingHorizon

open RecedingHorizon.Gradient

variable {n m p : Nat}

/-! ### Bounds that leave room -/

theorem ConstrainedLqr.nonempty_boundedInputs {problem : ConstrainedLqr ℝ n m p}
    (lower : ∀ i, problem.inputBounds.lower i = .bottom ∨
      ∃ a, problem.inputBounds.lower i = .finite a)
    (upper : ∀ i, problem.inputBounds.upper i = .top ∨ ∃ b, problem.inputBounds.upper i = .finite b)
    (uncrossed : ∀ i,
      Extended.lt (problem.inputBounds.upper i) (problem.inputBounds.lower i) = false) :
    problem.boundedInputs.Nonempty := by
  choose x inside using fun i => Extended.exists_between (lower i) (upper i) (uncrossed i)
  refine ⟨Vec.stack fun _ => Vec.ofFn x, fun k i => ?_⟩
  rw [Vec.part_stack, Vec.ofFn_get]
  exact inside i

namespace Controller

variable {σ : Type} {kit : Kernels ℝ} {problem : ConstrainedLqr ℝ n m p}
  {settings : ControlSettings ℝ σ} {c : Controller ℝ σ n m p}

/-! ### Plans -/

/-- A plan is the rollout of what a minimization from some point answers. -/
theorem exists_minimize_of_plan {x : Vec ℝ n} {start : Vec ℝ (c.problem.horizon * m)}
    {plan : Plan ℝ σ c.problem.horizon n m} (planned : c.plan x start = .ok plan) :
    plan.rollout = c.problem.system.rollout c.problem.gain x plan.free ∧
    ∃ momentum, (c.method momentum (c.program.linearTerm x)).minimize start [c.isAccurate]
      c.runSettings none = .ok plan.outcome := by
  obtain ⟨_, -, planned⟩ := bind_eq_ok planned
  obtain ⟨momentum, -, planned⟩ := bind_eq_ok planned
  obtain ⟨outcome, minimized, planned⟩ := bind_eq_ok planned
  cases planned
  exact ⟨rfl, momentum, minimized⟩

/-- After an iteration, the free variables of a plan are a projection, whatever the start was. -/
theorem free_mem_boundedInputs (made : ofProblem kit problem settings = .ok c)
    (standard : settings.projection? = none) (nonempty : problem.boundedInputs.Nonempty)
    {x : Vec ℝ n} {start : Vec ℝ (c.problem.horizon * m)} {plan : Plan ℝ σ c.problem.horizon n m}
    (planned : c.plan x start = .ok plan) (iterated : 1 ≤ plan.outcome.iterations) :
    plan.free ∈ c.problem.boundedInputs := by
  obtain ⟨-, momentum, minimized⟩ := exists_minimize_of_plan planned
  obtain ⟨projection, largest, smallest, chosen, -, rfl⟩ := ofProblem_eq_ok made
  rw [standard] at chosen
  rcases outcome_of_minimize minimized with ⟨-, none, -⟩ | ⟨k, s, reached, point, -, -⟩
  · rw [none] at iterated
    cases iterated
  -- The iteration that is returned ends with a projection.
  · obtain ⟨projected, -⟩ := Method.projected_of_nth reached
    obtain ⟨q, same, nearest⟩ := ConstrainedLqr.projects_inputProjection chosen nonempty
      (s.y - (problem.condense.hessian.mulVec s.y + problem.condense.linearTerm x).map (· / largest))
    have answer : s.xNext = q := Except.ok.inj (projected.symm.trans same)
    change plan.outcome.point ∈ _
    rw [point, answer]
    exact nearest.mem

/-- Without a feedback, the inputs of a plan are its free variables. -/
theorem row_inputs_of_plan (plain : c.problem.isPrestabilized = false) {x : Vec ℝ n}
    {start : Vec ℝ (c.problem.horizon * m)} {plan : Plan ℝ σ c.problem.horizon n m}
    (planned : c.plan x start = .ok plan) (k : Fin c.problem.horizon) :
    plan.rollout.inputs.row k = plan.free.part k := by
  obtain ⟨rollout, -⟩ := exists_minimize_of_plan planned
  rw [rollout, LinearSystem.row_rollout_inputs, LinearSystem.inputAt, c.problem.gain_eq_zero plain,
    LinearSystem.applied_zero, Vec.partAt_val]

theorem row_inputs_mem_region (made : ofProblem kit problem settings = .ok c)
    (standard : settings.projection? = none) (plain : problem.isPrestabilized = false)
    (nonempty : problem.boundedInputs.Nonempty) {x : Vec ℝ n}
    {start : Vec ℝ (c.problem.horizon * m)} {plan : Plan ℝ σ c.problem.horizon n m}
    (planned : c.plan x start = .ok plan) (iterated : 1 ≤ plan.outcome.iterations)
    (k : Fin c.problem.horizon) :
    plan.rollout.inputs.row k ∈
      Box.region problem.inputBounds.lower problem.inputBounds.upper := by
  have inside := free_mem_boundedInputs made standard nonempty planned iterated
  obtain ⟨projection, largest, smallest, -, -, rfl⟩ := ofProblem_eq_ok made
  rw [row_inputs_of_plan plain planned]
  exact inside k

/-! ### Closed loops -/

/-- With a positive limit, every plan takes an iteration. -/
theorem one_le_iterations_of_plan {limit : Nat}
    (limited : Pipeline.readLimit c.settings.limit = .ok (some limit)) (positive : 1 ≤ limit)
    {x : Vec ℝ n} {start : Vec ℝ (c.problem.horizon * m)} {plan : Plan ℝ σ c.problem.horizon n m}
    (planned : c.plan x start = .ok plan) : 1 ≤ plan.outcome.iterations := by
  obtain ⟨-, momentum, minimized⟩ := exists_minimize_of_plan planned
  exact one_le_iterations limited positive minimized

/-- Every input of a closed loop is the first one of a plan. -/
theorem exists_plan_of_mem_inputs {x : Tensor ℝ} {steps : Argument ℝ}
    {disturbance : Disturbance ℝ n} {loop : ClosedLoop ℝ σ c.problem.horizon n m}
    (simulated : c.simulate x steps disturbance = .ok loop) {u : Vec ℝ m}
    (member : u ∈ loop.inputs) :
    ∃ y start plan, c.plan y start = .ok plan ∧ u = plan.control c.problem.horizon_pos := by
  obtain ⟨count, -, simulated⟩ := bind_eq_ok simulated
  obtain ⟨fitted, -, simulated⟩ := bind_eq_ok simulated
  split at simulated
  · obtain ⟨run, returned, same⟩ := bind_eq_ok simulated
    cases same
    obtain ⟨t, inside, rfl⟩ := List.mem_map.mp member
    obtain ⟨step, y, stepped⟩ := transition_of_mem returned inside
    obtain ⟨plan, planned, stepped⟩ := bind_eq_ok stepped
    obtain ⟨next, -, same⟩ := bind_eq_ok stepped
    cases same
    exact ⟨y, _, plan, planned, rfl⟩
  · cases simulated

/-- If the bounds of the inputs of an accepted problem are numbers or open and there is no feedback, then
under the standard projection every plan that took an iteration keeps all its inputs within them, and
with a positive limit on the iterations so does every input of a closed loop, whatever acts on it. -/
theorem inputs_mem_region {system : LinearSystem ℝ n m} {spec : Specification ℝ}
    (accepted : Specification.problem kit system spec = .ok { problem })
    (lower : ∀ i, problem.inputBounds.lower i = .bottom ∨
      ∃ a, problem.inputBounds.lower i = .finite a)
    (upper : ∀ i, problem.inputBounds.upper i = .top ∨ ∃ b, problem.inputBounds.upper i = .finite b)
    (plain : problem.isPrestabilized = false) (standard : settings.projection? = none)
    (made : ofProblem kit problem settings = .ok c) :
    (∀ x start? plan, c.solve x start? = .ok plan → 1 ≤ plan.outcome.iterations → ∀ k,
      plan.rollout.inputs.row k ∈
        Box.region problem.inputBounds.lower problem.inputBounds.upper) ∧
    ∀ limit, Pipeline.readLimit settings.limit = .ok (some limit) → 1 ≤ limit →
      ∀ x steps disturbance loop, c.simulate x steps disturbance = .ok loop →
        ∀ u ∈ loop.inputs,
          u ∈ Box.region problem.inputBounds.lower problem.inputBounds.upper := by
  have nonempty := ConstrainedLqr.nonempty_boundedInputs lower upper
    (Specification.lt_eq_false_of_readBounds
      (Specification.problem_eq_ok_iff.mp accepted).2.bounds)
  constructor
  · intro x start? plan solved iterated k
    unfold solve at solved
    split at solved
    · obtain ⟨start, -, planned⟩ := bind_eq_ok solved
      exact row_inputs_mem_region made standard plain nonempty planned iterated k
    · cases solved
  · intro limit limited positive x steps disturbance loop simulated u member
    obtain ⟨y, start, plan, planned, rfl⟩ := exists_plan_of_mem_inputs simulated member
    have own : c.settings = settings := by
      obtain ⟨_, _, _, -, -, rfl⟩ := ofProblem_eq_ok made
      rfl
    have iterated := one_le_iterations_of_plan (own ▸ limited) positive planned
    exact row_inputs_mem_region made standard plain nonempty planned iterated _

/-! ### A loop that meets its bounds -/

/-- One iteration under the constant rule. -/
noncomputable def oneStep (kit : Kernels ℝ) : ControlSettings ℝ (StepState ℝ) where
  strategy := StepRule.defaultConstant.strategy kit
  limit := .whole 1

/-- If both bounds on the eigenvalues are the same, the first iteration is accurate, and there is a plan
for every state. -/
theorem exists_plan_of_same_bounds {c : Controller ℝ (StepState ℝ) n m p}
    (made : ofProblem kit problem (oneStep kit) = .ok c)
    (nonempty : problem.boundedInputs.Nonempty) (same : c.smallest = c.largest)
    (above : 0 < c.largest) (x : Vec ℝ n) :
    ∃ plan, c.plan x (Vec.zeros _) = .ok plan ∧ plan.outcome.iterations = 1 := by
  obtain ⟨projection, largest, smallest, chosen, computed, rfl⟩ := ofProblem_eq_ok made
  obtain rfl : smallest = largest := same
  have rows := pos_of_eigenvalueBounds computed
  set c : Controller ℝ (StepState ℝ) n m p :=
    { problem, settings := oneStep kit, projection, program := problem.condense
      largest := smallest, smallest }
  let factor := StepRule.factorFor smallest smallest
  obtain ⟨s, stepped, counted, -, -⟩ := exists_step_constant (H := c.program.hessian)
    (b := c.program.linearTerm x) (L := smallest) kit factor
    (ConstrainedLqr.projects_inputProjection chosen nonempty) 1 (Vec.zeros _) (Vec.zeros _) none
  -- With equal bounds the estimate of the gradient test is zero, so that the first iteration is accurate.
  have held : (c.gradientTest 1e-4).holds s = .ok true :=
    holds_of_same_bounds (Int.natCast_pos.mpr rows) above (by norm_num)
  have accurate : c.isAccurate s = .ok true := by
    change (do if ← (c.gradientTest 1e-4).holds s then return true else _) = Except.ok true
    rw [held]
    rfl
  have settled : [c.isAccurate].anyM (fun holds => holds s) = .ok true := by
    simp [accurate, bind, Except.bind, pure, Except.pure]
  have checked : c.runSettings.check = .ok () := rfl
  let momentum := (StepRule.constant factor).momentum kit
  have fitted : c.settings.strategy.forBounds (.real c.largest) (.real c.smallest) = .ok momentum :=
    rfl
  have first : (c.method momentum (c.program.linearTerm x)).first (Vec.zeros _) = .ok s := stepped
  exact ⟨_, plan_eq_ok checked fitted (minimize_once first settled), counted⟩

/-- If there is a plan for every state, there is an undisturbed closed loop of every length. -/
theorem exists_simulate (planned : ∀ x, ∃ plan, c.plan x (Vec.zeros _) = .ok plan) (x : Vec ℝ n)
    (count : Nat) :
    ∃ loop, c.simulate (.ofVec x) (.whole count) (fun _ y => .ok y) = .ok loop ∧
      loop.inputs.length = count := by
  have run (step : Nat) : ∃ run, c.transitions (fun _ y => .ok y) count step x = .ok run := by
    -- Every state has a plan, so that there always is a next one.
    induction count generalizing step x with
    | zero => exact ⟨[], rfl⟩
    | succ count ih =>
      obtain ⟨plan, answered⟩ := planned x
      let first : Transition ℝ σ c.problem.horizon n m :=
        { plan, input := plan.control c.problem.horizon_pos
          next := c.problem.system.next x (plan.control c.problem.horizon_pos) }
      have current : c.transition (fun _ y => .ok y) step x = .ok first := by
        simp only [transition, answered, bind, Except.bind, pure, Except.pure, first]
      obtain ⟨rest, later⟩ := ih first.next (step + 1)
      exact ⟨first :: rest, transitions_succ_eq_ok.mpr ⟨first, rest, current, later, rfl⟩⟩
  obtain ⟨transitions, ran⟩ := run 0
  have fits : (Tensor.ofVec x).fitTo [n] = .ok (.ofVec x) := Tensor.fitTo_shape (.ofVec x)
  refine ⟨{ start := x, transitions }, ?_, ?_⟩
  · simp only [simulate, Argument.toLength_whole, fits, Tensor.toVec?_ofVec, ran, bind, Except.bind,
      pure, Except.pure]
  · rw [ClosedLoop.inputs, List.length_map, length_transitions ran]

end Controller

/-- A state that doubles, over one stage, whose input is between minus one and one. -/
noncomputable def clampedDoubling : ConstrainedLqr ℝ 1 1 0 :=
  .doubling 1 Nat.one_pos 0 0 0 (.finite (-1), .finite 1)

theorem toMatrix_eq_one {M : Mat ℝ (1 * 1) (1 * 1)}
    (entry : M (Stacked.index 0 0) (Stacked.index 0 0) = 1) : M.toMatrix = 1 := by
  have only (i : Fin (1 * 1)) : i = Stacked.index 0 0 := Subsingleton.elim (α := Fin 1) _ _
  ext i j
  rw [only i, only j, Matrix.one_apply_eq]
  exact entry

theorem toMatrix_hessian_clampedDoubling : clampedDoubling.hessian.toMatrix = 1 := by
  have lyapunov : clampedDoubling.HasLyapunovWeight :=
    ConstrainedLqr.hasLyapunovWeight_doubling (by norm_num)
  have entry := ConstrainedLqr.hessian_doubling lyapunov 0 0
  exact toMatrix_eq_one (entry.trans (ConstrainedLqr.freeCost_doubling.trans (add_zero 1)))

theorem eigenvalueBounds_clampedDoubling :
    eigenvalueBounds identityKernels clampedDoubling.hessian = .ok (1, 1) := by
  have definite : clampedDoubling.hessian.toMatrix.PosDef := by
    rw [toMatrix_hessian_clampedDoubling]
    exact Matrix.PosDef.one
  have evaluated : identityKernels.eigenvalues clampedDoubling.hessian = .ok (Vec.ofFn fun _ => 1) :=
    rfl
  have bounds := eigenvalueBounds_eq (isSpectrum_identity toMatrix_hessian_clampedDoubling) definite
    evaluated Nat.one_pos
  rwa [Vec.ofFn_get, Vec.ofFn_get] at bounds

/-- From two, the minimizer without bounds is minus two; the inputs that are applied are within them. -/
theorem inputs_mem_region_clampedDoubling :
    let problem := clampedDoubling
    let region := Box.region problem.inputBounds.lower problem.inputBounds.upper
    let spec := ConstrainedLqr.doublingSpecification 1 0 0 0 (.finite (-1), .finite 1)
    Specification.problem identityKernels problem.system spec = .ok { problem } ∧
    problem.isPrestabilized = false ∧
    ∃ c : Controller ℝ (StepState ℝ) 1 1 0,
      Controller.ofProblem identityKernels problem (Controller.oneStep identityKernels) = .ok c ∧
      (∃ plan, c.solve (.ofVec #v[2]) none = .ok plan ∧
        1 ≤ plan.outcome.iterations ∧ ∀ k, plan.rollout.inputs.row k ∈ region) ∧
      ∃ loop, c.simulate (.ofVec #v[2]) (.whole (3 : Nat)) (fun _ x => .ok x) =
        .ok loop ∧ loop.inputs.length = 3 ∧ ∀ u ∈ loop.inputs, u ∈ region := by
  intro problem region spec
  have accepted : Specification.problem identityKernels problem.system spec = .ok { problem } :=
    ConstrainedLqr.problem_doublingSpecification identityKernels le_rfl 0 0 0
      (by simp)
  have plain : problem.isPrestabilized = false :=
    Mat.anyEntry_eq_false.mpr fun i j => by simp [problem, clampedDoubling, ConstrainedLqr.doubling]
  have lower (i : Fin 1) : problem.inputBounds.lower i = .finite (-1) :=
    Vector.getElem_replicate i.isLt
  have upper (i : Fin 1) : problem.inputBounds.upper i = .finite 1 :=
    Vector.getElem_replicate i.isLt
  have uncrossed := Specification.lt_eq_false_of_readBounds
    (Specification.problem_eq_ok_iff.mp accepted).2.bounds
  obtain ⟨projection, chosen⟩ := ConstrainedLqr.exists_inputProjection plain uncrossed
  have nonempty : problem.boundedInputs.Nonempty := ConstrainedLqr.nonempty_boundedInputs
    (fun i => .inr ⟨_, lower i⟩) (fun i => .inr ⟨_, upper i⟩) uncrossed
  let settings := Controller.oneStep identityKernels
  let c : Controller ℝ (StepState ℝ) 1 1 0 :=
    { problem, settings, projection, program := problem.condense, largest := 1, smallest := 1 }
  have made : Controller.ofProblem identityKernels problem settings = .ok c := by
    have computed : eigenvalueBounds identityKernels problem.condense.hessian = .ok (1, 1) :=
      eigenvalueBounds_clampedDoubling
    simp only [Controller.ofProblem, Controller.chooseProjection, chosen, computed, bind,
      Except.bind]
    rfl
  have planned := Controller.exists_plan_of_same_bounds made nonempty rfl one_pos
  obtain ⟨plan, first, iterated⟩ := planned #v[2]
  have solved : c.solve (.ofVec #v[2]) none = .ok plan := by
    simp only [Controller.solve, Tensor.toVec?_ofVec, readStart, first, bind, Except.bind]
  obtain ⟨loop, simulated, length⟩ := Controller.exists_simulate
    (fun x => (planned x).imp fun _ => And.left) #v[2] 3
  obtain ⟨plans, loops⟩ := Controller.inputs_mem_region accepted (fun i => .inr ⟨_, lower i⟩)
    (fun i => .inr ⟨_, upper i⟩) plain rfl made
  exact ⟨accepted, plain, c, made, ⟨plan, solved, iterated.ge, plans _ _ plan solved iterated.ge⟩,
    loop, simulated, length, loops 1 rfl le_rfl _ _ _ loop simulated⟩

end RecedingHorizon
