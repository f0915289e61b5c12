import RecedingHorizon.Proofs.Condensing.Weights

/-!
# The condensed cost is the cost of the rollout

The cost of a rollout, with the first stage split off, is a quadratic form in the stacks of its states
and free variables (`cost_eq_stackedCost`). The condensed program reaches the same form through the
prediction matrices (`objective_eq_stackedCost`). What remains between the two is the cost of the free
motion, which does not depend on the free variables.
-/

namespace RecedingHorizon

open Matrix

variable {n m p : Nat}

theorem CondensedProgram.objective_eq {N : Nat} (qp : CondensedProgram ℝ N n m p) (x : Vec ℝ n)
    (v : Vec ℝ (N * m)) :
    qp.objective x v =
      v.get ⬝ᵥ qp.hessian.toMatrix *ᵥ v.get + 2 * ((qp.linear.toMatrix *ᵥ x.get) ⬝ᵥ v.get) := by
  rw [objective, linearTerm, Vec.dot_eq, Vec.dot_eq, Mat.get_mulVec, Mat.get_mulVec, Scalar.two_eq]

namespace ConstrainedLqr

variable (problem : ConstrainedLqr ℝ n m p) (x : Vec ℝ n)
  (v : Vec ℝ (problem.horizon * m))

/-- The states `x₁, …, x_N` of the rollout. -/
noncomputable def laterStates : Vec ℝ (problem.horizon * n) :=
  Vec.stack fun i => problem.stateAt x v.partAt (i.val + 1)

/-- The states `x₀, …, x_{N-1}` of the rollout. -/
noncomputable def priorStates : Vec ℝ (problem.horizon * n) :=
  Vec.stack fun i => problem.stateAt x v.partAt i.val

/-- The cost of the rollout without the state cost of the first stage, in terms of all stages. -/
noncomputable def stackedCost : ℝ :=
  (problem.laterStates x v).get ⬝ᵥ
      problem.stateWeights.toMatrix *ᵥ (problem.laterStates x v).get +
    2 * ((problem.priorStates x v).get ⬝ᵥ
      (repeated problem.horizon problem.controlledCrossWeight).toMatrix *ᵥ v.get) +
    v.get ⬝ᵥ (repeated problem.horizon problem.inputWeight).toMatrix *ᵥ v.get

/-! ### Stage by stage -/

theorem stackedCost_eq_sum :
    problem.stackedCost x v = ∑ i ∈ Finset.range problem.horizon,
      ((problem.stateAt x v.partAt (i + 1)).get ⬝ᵥ
          (problem.nextStateWeight i).toMatrix *ᵥ (problem.stateAt x v.partAt (i + 1)).get +
        2 * ((problem.stateAt x v.partAt i).get ⬝ᵥ
          problem.controlledCrossWeight.toMatrix *ᵥ (v.partAt i).get) +
        (v.partAt i).get ⬝ᵥ problem.inputWeight.toMatrix *ᵥ (v.partAt i).get) := by
  simp only [stackedCost, laterStates, priorStates, ← Mat.get_mulVec, Vec.dotProduct_get,
    part_mulVec_stateWeights, part_mulVec_repeated, Vec.part_stack]
  simp only [← Vec.partAt_val]
  rw [Finset.mul_sum, ← Finset.sum_add_distrib, ← Finset.sum_add_distrib, Finset.sum_range]

/-- Stage costs with a terminal one are the first stage and the costs of the states that the stages
lead to. -/
theorem sum_add_terminal {N : Nat} (positive : 1 ≤ N) (stage next : Nat → ℝ)
    (same : ∀ i, i ≠ N - 1 → next i = stage (i + 1)) :
    (∑ k ∈ Finset.range N, stage k) + next (N - 1) =
      stage 0 + ∑ i ∈ Finset.range N, next i := by
  -- Of `M + 1` stages the first one is split off on the left, the last one on the right.
  obtain ⟨M, rfl⟩ := Nat.exists_eq_add_of_le' positive
  have earlier : ∑ i ∈ Finset.range M, next i = ∑ i ∈ Finset.range M, stage (i + 1) := by
    apply Finset.sum_congr rfl
    intro i before
    have := Finset.mem_range.mp before
    exact same i (by omega)
  rw [Finset.sum_range_succ', Finset.sum_range_succ, earlier, Nat.add_sub_cancel]
  ring

/-- The cost of the rollout is the cost of its first state and that of all stages. -/
theorem cost_eq_stackedCost (symmetric : problem.inputWeight.toMatrix.IsSymm) :
    problem.cost x v.partAt =
      x.get ⬝ᵥ problem.controlledStateWeight.toMatrix *ᵥ x.get + problem.stackedCost x v := by
  -- Each state but the first one is paid for by the stage that leads to it.
  have horizon : problem.horizon - 1 + 1 = problem.horizon :=
    Nat.sub_add_cancel problem.horizon_pos
  have shifted := sum_add_terminal problem.horizon_pos
    (fun k => (problem.stateAt x v.partAt k).get ⬝ᵥ
      problem.controlledStateWeight.toMatrix *ᵥ (problem.stateAt x v.partAt k).get)
    (fun i => (problem.stateAt x v.partAt (i + 1)).get ⬝ᵥ
      (problem.nextStateWeight i).toMatrix *ᵥ (problem.stateAt x v.partAt (i + 1)).get)
    (fun i other => by rw [nextStateWeight, if_neg other])
  have last : problem.nextStateWeight (problem.horizon - 1) = problem.terminalWeight :=
    if_pos rfl
  have stages (k : Nat) : problem.stageCost (problem.stateAt x v.partAt k)
      (problem.inputAt x v.partAt k) = _ :=
    problem.stageCost_applied symmetric (problem.stateAt x v.partAt k) (v.partAt k)
  rw [last, horizon] at shifted
  rw [cost, Vec.sumOver_eq_sum, terminalCost, Vec.dot_eq, Mat.get_mulVec, stackedCost_eq_sum,
    ← Finset.sum_range fun k =>
      problem.stageCost (problem.stateAt x v.partAt k) (problem.inputAt x v.partAt k)]
  simp only [stages, Finset.sum_add_distrib]
  simp only [stateAt, LinearSystem.stateAt_zero] at shifted ⊢
  linarith

/-! ### Through the predictions -/

theorem get_laterStates :
    (problem.laterStates x v).get =
      (Prediction.inputsToStates problem.closedLoop problem.horizon).toMatrix *ᵥ v.get +
        (Prediction.initialToStates problem.closedLoop problem.horizon).toMatrix *ᵥ x.get := by
  have states := problem.system.stack_later_states problem.gain x v
  rw [← Mat.get_mulVec, ← Mat.get_mulVec, ← Vec.get_add]
  exact congrArg Vector.get states

theorem get_priorStates :
    (problem.priorStates x v).get =
      (Prediction.inputsToPriorStates problem.closedLoop problem.horizon).toMatrix *ᵥ v.get +
        (Prediction.initialToPriorStates problem.closedLoop problem.horizon).toMatrix *ᵥ x.get := by
  have states := problem.system.stack_prior_states problem.gain x v
  rw [← Mat.get_mulVec, ← Mat.get_mulVec, ← Vec.get_add]
  exact congrArg Vector.get states

/-- The states of a rollout are those from the origin and those of the free motion. -/
theorem get_laterStates_eq_add :
    (problem.laterStates x v).get =
      (problem.laterStates (Vec.zeros n) v).get + (problem.laterStates x (Vec.zeros _)).get := by
  simp [get_laterStates]

theorem get_priorStates_eq_add :
    (problem.priorStates x v).get =
      (problem.priorStates (Vec.zeros n) v).get + (problem.priorStates x (Vec.zeros _)).get := by
  simp [get_priorStates]

/-- The quadratic term is the cost of all stages from the origin. -/
theorem dotProduct_hessian :
    v.get ⬝ᵥ problem.hessian.toMatrix *ᵥ v.get = problem.stackedCost (Vec.zeros n) v := by
  simp only [hessian, Mat.dotProduct_symmetrize_mulVec, Mat.toMatrix_add, Mat.toMatrix_mul,
    Mat.toMatrix_transpose, add_mulVec, ← mulVec_mulVec, dotProduct_add,
    dotProduct_transpose_mulVec]
  simp only [stackedCost, get_laterStates, get_priorStates, Vec.get_zeros, mulVec_zero, add_zero]
  rw [dotProduct_comm (problem.stateWeights.toMatrix *ᵥ _), dotProduct_comm
    ((repeated problem.horizon problem.controlledCrossWeight).toMatrix *ᵥ _)]
  ring

/-- The linear term couples the states from the origin, and the free variables, with the free motion. -/
theorem dotProduct_linearTerm :
    (problem.condense.linearTerm x).get ⬝ᵥ v.get =
      (problem.laterStates (Vec.zeros n) v).get ⬝ᵥ
          problem.stateWeights.toMatrix *ᵥ (problem.laterStates x (Vec.zeros _)).get +
        (problem.priorStates x (Vec.zeros _)).get ⬝ᵥ
          (repeated problem.horizon problem.controlledCrossWeight).toMatrix *ᵥ v.get := by
  rw [CondensedProgram.linearTerm, Mat.get_mulVec, dotProduct_comm]
  simp only [condense, linearCoefficients, Mat.toMatrix_add, Mat.toMatrix_mul,
    Mat.toMatrix_transpose, add_mulVec, ← mulVec_mulVec, dotProduct_add,
    dotProduct_transpose_mulVec]
  simp only [get_laterStates, get_priorStates, Vec.get_zeros, mulVec_zero, add_zero, zero_add]
  rw [dotProduct_comm (problem.stateWeights.toMatrix *ᵥ _)]

/-- The objective of the condensed program is the cost of all stages, less that of the free motion. -/
theorem objective_eq_stackedCost (terminal : problem.terminalWeight.toMatrix.IsSymm) :
    problem.condense.objective x v =
      problem.stackedCost x v - problem.stackedCost x (Vec.zeros _) := by
  -- The cost is quadratic in the states from the origin plus those of the free motion. The mixed terms
  -- on both sides of the state weights are the same, which makes the factor two of the linear term.
  have symmetric := problem.isSymm_stateWeights terminal
  have swapped (y z : Fin (problem.horizon * n) → ℝ) :
      z ⬝ᵥ problem.stateWeights.toMatrix *ᵥ y = y ⬝ᵥ problem.stateWeights.toMatrix *ᵥ z := by
    rw [← dotProduct_transpose_mulVec, symmetric.eq]
  have quadratic : v.get ⬝ᵥ problem.condense.hessian.toMatrix *ᵥ v.get =
      problem.stackedCost (Vec.zeros n) v := problem.dotProduct_hessian v
  rw [CondensedProgram.objective, Vec.dot_eq, Vec.dot_eq, Mat.get_mulVec, Scalar.two_eq, quadratic,
    dotProduct_linearTerm]
  simp only [stackedCost]
  rw [get_laterStates_eq_add problem x v, get_priorStates_eq_add problem x v]
  simp only [mulVec_add, dotProduct_add, add_dotProduct, Vec.get_zeros, mulVec_zero,
    dotProduct_zero]
  rw [swapped _ (problem.laterStates x (Vec.zeros _)).get]
  ring

/-! ### The cost of a rollout -/

/-- The objective of the condensed program is the cost of the rollout, less that of the free motion. -/
theorem objective_eq_cost_sub (symmetric : problem.inputWeight.toMatrix.IsSymm)
    (terminal : problem.terminalWeight.toMatrix.IsSymm) :
    problem.condense.objective x v =
      problem.cost x v.partAt - problem.cost x (Vec.zeros (problem.horizon * m)).partAt := by
  rw [problem.objective_eq_stackedCost x v terminal, problem.cost_eq_stackedCost x v symmetric,
    problem.cost_eq_stackedCost x (Vec.zeros _) symmetric]
  ring

/-- The quadratic and the linear term of the condensed program add up to the cost of the rollout of
the free variables, with the weights of the problem as they are, less the cost of the rollout without
free variables. -/
theorem condensed_cost_eq_rollout_cost (symmetric : problem.inputWeight.transpose = problem.inputWeight)
    (terminal : problem.terminalWeight.transpose = problem.terminalWeight) :
    Vec.dot v (problem.hessian.mulVec v) +
        2 * Vec.dot x (problem.linearCoefficients.transpose.mulVec v) =
      problem.cost x v.partAt - problem.cost x (Vec.zeros (problem.horizon * m)).partAt := by
  have two : (2.0 : ℝ) = 2 := by norm_num
  have linear : Vec.dot x (problem.linearCoefficients.transpose.mulVec v) =
      Vec.dot (problem.condense.linearTerm x) v := by
    rw [Vec.dot_eq, Vec.dot_eq, CondensedProgram.linearTerm, Mat.get_mulVec, Mat.get_mulVec,
      Mat.toMatrix_transpose, dotProduct_transpose_mulVec, dotProduct_comm]
    rfl
  have objective := problem.objective_eq_cost_sub x v (Mat.isSymm_of_transpose_eq symmetric)
    (Mat.isSymm_of_transpose_eq terminal)
  rw [CondensedProgram.objective, two] at objective
  rw [linear, ← objective]
  rfl

theorem condensed_cost_eq_rollout_cost_doubleIntegrator :
    let problem := doubleIntegrator { states := 0, inputs := Mat.identity 1, bounds := Vec.zeros 1 }
    let x : Vec ℝ 2 := Vec.ofFn fun i => i.val + 1
    let v : Vec ℝ (problem.horizon * 1) := Vec.ofFn fun i => i.val
    problem.inputWeight.transpose = problem.inputWeight ∧
    problem.terminalWeight.transpose = problem.terminalWeight ∧
    Vec.dot v (problem.hessian.mulVec v) +
        2 * Vec.dot x (problem.linearCoefficients.transpose.mulVec v) =
      problem.cost x v.partAt - problem.cost x (Vec.zeros (problem.horizon * 1)).partAt := by
  intro problem x v
  have symmetric : problem.inputWeight.transpose = problem.inputWeight := Mat.transpose_identity
  have terminal : problem.terminalWeight.transpose = problem.terminalWeight :=
    Mat.transpose_identity
  exact ⟨symmetric, terminal, condensed_cost_eq_rollout_cost problem x v symmetric terminal⟩

end ConstrainedLqr

end RecedingHorizon
