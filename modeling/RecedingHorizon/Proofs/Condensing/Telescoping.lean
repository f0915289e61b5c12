import RecedingHorizon.Proofs.Condensing.Riccati

/-!
# Terminal weights that solve the Lyapunov equation

If the terminal weight solves the Lyapunov equation of the closed loop, the last state costs what all
later stages would cost without free variables. Then the terminal costs of neighbouring states cancel
(`stageCost_add_terminalCost`), and of the cost of a rollout only its first state and what its free
variables add are left (`cost_eq_sum_addedCost`). The horizon no longer shows in the condensed program:
it repeats the cost of one free variable and its coupling to the state of its stage
(`toMatrix_hessian`, `linearCoefficients_eq`).
-/

namespace RecedingHorizon

open Matrix

variable {N n m p k l : Nat}

/-! ### Repeated weights -/

namespace Mat

theorem transpose_repeated (N : Nat) (W : Mat ℝ k l) :
    (ConstrainedLqr.repeated N W).transpose = ConstrainedLqr.repeated N W.transpose := by
  ext i j
  rw [transpose_entry, ConstrainedLqr.repeated_eq, ConstrainedLqr.repeated_eq, repeatDiagonal,
    repeatDiagonal, ofBlocks, ofBlocks, ofFn_entry, ofFn_entry]
  rcases eq_or_ne (Stacked.stage i) (Stacked.stage j) with same | other
  · rw [if_pos same, if_pos same.symm, transpose_entry]
  · rw [if_neg other, if_neg other.symm, zero_entry, zero_entry]

theorem isSymm_repeated (N : Nat) {W : Mat ℝ k k} (symmetric : W.toMatrix.IsSymm) :
    (ConstrainedLqr.repeated N W).toMatrix.IsSymm := by
  have same : W.transpose = W := toMatrix_inj.mp ((toMatrix_transpose W).trans symmetric)
  rw [Matrix.IsSymm, ← toMatrix_transpose, transpose_repeated, same]

theorem dotProduct_repeated (W : Mat ℝ k l) (y : Vec ℝ (N * k)) (z : Vec ℝ (N * l)) :
    y.get ⬝ᵥ (ConstrainedLqr.repeated N W).toMatrix *ᵥ z.get =
      ∑ i, (y.part i).get ⬝ᵥ W.toMatrix *ᵥ (z.part i).get := by
  rw [← get_mulVec, Vec.dotProduct_get]
  simp only [ConstrainedLqr.part_mulVec_repeated, get_mulVec]

end Mat

namespace ConstrainedLqr

variable (problem : ConstrainedLqr ℝ n m p)

/-! ### The problem of the free variables -/

/-- The closed loop with the weights of a stage under the feedback, as a problem without a gain of its
own: its inputs are the free variables. -/
noncomputable def controlled : ConstrainedLqr ℝ n m p :=
  { problem with
    system := problem.closedLoop
    stateWeight := problem.controlledStateWeight
    crossWeight := problem.controlledCrossWeight
    gain := 0 }

theorem stageCost_controlled (symmetric : problem.inputWeight.toMatrix.IsSymm) (x : Vec ℝ n)
    (v : Vec ℝ m) :
    problem.controlled.stageCost x v =
      problem.stageCost x (LinearSystem.applied problem.gain x v) := by
  rw [problem.stageCost_applied symmetric, stageCost, Scalar.two_eq, Vec.dot_eq, Vec.dot_eq,
    Vec.dot_eq, Mat.get_mulVec, Mat.get_mulVec, Mat.get_mulVec]
  rfl

theorem next_controlled (x : Vec ℝ n) (v : Vec ℝ m) :
    problem.controlled.system.next x v =
      problem.system.next x (LinearSystem.applied problem.gain x v) := by
  apply Vec.get_inj.mp
  rw [LinearSystem.get_next_applied, LinearSystem.next, Vec.get_add, Mat.get_mulVec,
    Mat.get_mulVec]
  rfl

/-- The terminal weight solves the Lyapunov equation `P = A' P A + Q` of the closed loop, for the
weight of a state under the feedback. -/
def HasLyapunovWeight : Prop :=
  problem.terminalWeight =
    problem.closedLoop.dynamics.transpose * problem.terminalWeight * problem.closedLoop.dynamics +
      problem.controlledStateWeight

/-- The matrix `R + B' P B` of the cost of a free variable. -/
noncomputable def freeCost : Mat ℝ m m :=
  Regulator.inputCost problem.system.input problem.inputWeight problem.terminalWeight

/-- The matrix `B' P A + S'` of the closed loop, which couples a free variable to the state of its
stage. -/
noncomputable def freeCoupling : Mat ℝ m n :=
  Regulator.coupling problem.closedLoop.dynamics problem.system.input problem.controlledCrossWeight
    problem.terminalWeight

/-- What a free variable adds to the cost: `2 v' F x + v' M v`. -/
noncomputable def addedCost (x : Fin n → ℝ) (v : Fin m → ℝ) : ℝ :=
  2 * (v ⬝ᵥ problem.freeCoupling.toMatrix *ᵥ x) + v ⬝ᵥ problem.freeCost.toMatrix *ᵥ v

theorem addedCost_zero (x : Fin n → ℝ) : problem.addedCost x 0 = 0 := by
  simp [addedCost]

theorem isSymm_freeCost (symmetric : problem.inputWeight.toMatrix.IsSymm)
    (terminal : problem.terminalWeight.toMatrix.IsSymm) : problem.freeCost.toMatrix.IsSymm :=
  Regulator.isSymm_inputCost _ _ _ symmetric terminal

/-- The couplings of all stages, through the states that earlier free variables lead to. -/
noncomputable def priorCoupling : Mat ℝ (problem.horizon * m) (problem.horizon * m) :=
  repeated problem.horizon problem.freeCoupling *
    Prediction.inputsToPriorStates problem.closedLoop problem.horizon

/-- The couplings of all stages, through the states of the free motion. -/
noncomputable def initialCoupling : Mat ℝ (problem.horizon * m) n :=
  repeated problem.horizon problem.freeCoupling *
    Prediction.initialToPriorStates problem.closedLoop problem.horizon

variable {problem}

namespace HasLyapunovWeight

/-! ### The cost of a rollout -/

/-- One stage: with the terminal weight on its two states, a stage costs what its free variable adds. -/
theorem stageCost_add_terminalCost (lyapunov : problem.HasLyapunovWeight)
    (symmetric : problem.inputWeight.toMatrix.IsSymm)
    (terminal : problem.terminalWeight.toMatrix.IsSymm) (x : Vec ℝ n) (v : Vec ℝ m) :
    problem.stageCost x (LinearSystem.applied problem.gain x v) +
        problem.terminalCost (problem.system.next x (LinearSystem.applied problem.gain x v)) =
      problem.terminalCost x + problem.addedCost x.get v.get := by
  have stage := problem.controlled.stageCost_add_next problem.terminalWeight terminal x v
  have weight : problem.controlledStateWeight.toMatrix +
      problem.closedLoop.dynamics.toMatrixᵀ * problem.terminalWeight.toMatrix *
        problem.closedLoop.dynamics.toMatrix = problem.terminalWeight.toMatrix := by
    have equation := congrArg Mat.toMatrix lyapunov
    simp only [Mat.toMatrix_add, Mat.toMatrix_mul, Mat.toMatrix_transpose] at equation
    rw [add_comm, ← equation]
  rw [problem.stageCost_controlled symmetric, problem.next_controlled] at stage
  rw [terminalCost, terminalCost, Vec.dot_eq, Vec.dot_eq, Mat.get_mulVec, Mat.get_mulVec, stage]
  exact congrArg₂ (· + ·) (congrArg (fun W => x.get ⬝ᵥ W *ᵥ x.get) weight) rfl

/-- The cost of a rollout is the terminal cost of its first state and what its free variables add. -/
theorem cost_eq_sum_addedCost (lyapunov : problem.HasLyapunovWeight)
    (symmetric : problem.inputWeight.toMatrix.IsSymm)
    (terminal : problem.terminalWeight.toMatrix.IsSymm) (x : Vec ℝ n)
    (v : Vec ℝ (problem.horizon * m)) :
    problem.cost x v.partAt = problem.terminalCost x + ∑ k ∈ Finset.range problem.horizon,
      problem.addedCost (problem.stateAt x v.partAt k).get (v.partAt k).get := by
  -- The terminal costs of neighbouring states cancel.
  have stage (k : Nat) : problem.stageCost (problem.stateAt x v.partAt k)
      (problem.inputAt x v.partAt k) =
      problem.terminalCost (problem.stateAt x v.partAt k) -
        problem.terminalCost (problem.stateAt x v.partAt (k + 1)) +
        problem.addedCost (problem.stateAt x v.partAt k).get (v.partAt k).get := by
    have step := lyapunov.stageCost_add_terminalCost symmetric terminal
      (problem.stateAt x v.partAt k) (v.partAt k)
    have state : problem.system.next (problem.stateAt x v.partAt k)
        (LinearSystem.applied problem.gain (problem.stateAt x v.partAt k) (v.partAt k)) =
        problem.stateAt x v.partAt (k + 1) := rfl
    have input : problem.inputAt x v.partAt k =
        LinearSystem.applied problem.gain (problem.stateAt x v.partAt k) (v.partAt k) := rfl
    rw [state] at step
    rw [input]
    linarith
  have first : problem.stateAt x v.partAt 0 = x := rfl
  rw [cost, Vec.sumOver_eq_sum, ← Finset.sum_range fun k =>
      problem.stageCost (problem.stateAt x v.partAt k) (problem.inputAt x v.partAt k)]
  simp only [stage, Finset.sum_add_distrib, Finset.sum_range_sub', first]
  ring

/-- The objective of the condensed program is what the free variables add to the cost. -/
theorem objective_eq_sum_addedCost (lyapunov : problem.HasLyapunovWeight)
    (symmetric : problem.inputWeight.toMatrix.IsSymm)
    (terminal : problem.terminalWeight.toMatrix.IsSymm) (x : Vec ℝ n)
    (v : Vec ℝ (problem.horizon * m)) :
    problem.condense.objective x v = ∑ k ∈ Finset.range problem.horizon,
      problem.addedCost (problem.stateAt x v.partAt k).get (v.partAt k).get := by
  rw [problem.objective_eq_cost_sub x v symmetric terminal,
    lyapunov.cost_eq_sum_addedCost symmetric terminal,
    lyapunov.cost_eq_sum_addedCost symmetric terminal]
  simp only [Vec.partAt_zeros, Vec.get_zeros, addedCost_zero, Finset.sum_const_zero]
  ring

/-! ### The condensed program -/

/-- The objective in terms of the free variables and the first state alone. -/
theorem objective_eq (lyapunov : problem.HasLyapunovWeight)
    (symmetric : problem.inputWeight.toMatrix.IsSymm)
    (terminal : problem.terminalWeight.toMatrix.IsSymm) (x : Vec ℝ n)
    (v : Vec ℝ (problem.horizon * m)) :
    problem.condense.objective x v =
      v.get ⬝ᵥ (repeated problem.horizon problem.freeCost).toMatrix *ᵥ v.get +
        2 * (v.get ⬝ᵥ problem.priorCoupling.toMatrix *ᵥ v.get) +
        2 * (v.get ⬝ᵥ problem.initialCoupling.toMatrix *ᵥ x.get) := by
  have coupled : v.get ⬝ᵥ (repeated problem.horizon problem.freeCoupling).toMatrix *ᵥ
      (problem.priorStates x v).get =
      v.get ⬝ᵥ problem.priorCoupling.toMatrix *ᵥ v.get +
        v.get ⬝ᵥ problem.initialCoupling.toMatrix *ᵥ x.get := by
    rw [get_priorStates, mulVec_add, dotProduct_add, mulVec_mulVec, mulVec_mulVec, priorCoupling,
      initialCoupling, Mat.toMatrix_mul, Mat.toMatrix_mul]
  rw [Mat.dotProduct_repeated] at coupled
  simp only [priorStates, Vec.part_stack] at coupled
  rw [lyapunov.objective_eq_sum_addedCost symmetric terminal, Finset.sum_range,
    Mat.dotProduct_repeated]
  simp only [addedCost, Vec.partAt_val, Finset.sum_add_distrib, ← Finset.mul_sum, coupled]
  ring

/-- The quadratic term has the cost of a free variable on its diagonal, and the couplings of the stages
on both sides of it. -/
theorem toMatrix_hessian (lyapunov : problem.HasLyapunovWeight)
    (symmetric : problem.inputWeight.toMatrix.IsSymm)
    (terminal : problem.terminalWeight.toMatrix.IsSymm) :
    problem.hessian.toMatrix = (repeated problem.horizon problem.freeCost).toMatrix +
      (problem.priorCoupling.toMatrix + problem.priorCoupling.toMatrixᵀ) := by
  refine Mat.eq_of_quadraticForm_eq (Mat.isSymm_symmetrize _) ?_ fun y => ?_
  · exact (Mat.isSymm_repeated _ (problem.isSymm_freeCost symmetric terminal)).add
      (Matrix.isSymm_add_transpose_self _)
  · -- From the origin the objective is the quadratic form.
    have objective := lyapunov.objective_eq symmetric terminal (Vec.zeros n) (Vec.ofFn y)
    have mirrored : y ⬝ᵥ problem.priorCoupling.toMatrixᵀ *ᵥ y =
        y ⬝ᵥ problem.priorCoupling.toMatrix *ᵥ y := by
      rw [dotProduct_transpose_mulVec, dotProduct_comm]
    simp only [CondensedProgram.objective_eq, Vec.get_ofFn, Vec.get_zeros, mulVec_zero,
      zero_dotProduct, dotProduct_zero, mul_zero, add_zero] at objective
    rw [add_mulVec, add_mulVec, dotProduct_add, dotProduct_add, mirrored, ← two_mul, ← objective]
    rfl

/-- The linear term consists of the couplings of the stages to the free motion. -/
theorem linearCoefficients_eq (lyapunov : problem.HasLyapunovWeight)
    (symmetric : problem.inputWeight.toMatrix.IsSymm)
    (terminal : problem.terminalWeight.toMatrix.IsSymm) :
    problem.linearCoefficients = problem.initialCoupling := by
  apply Mat.toMatrix_inj.mp
  refine Matrix.mulVec_injective (funext fun x => dotProduct_eq _ _ fun v => ?_)
  -- What the objective gains with the first state is twice the linear term.
  have moved := lyapunov.objective_eq symmetric terminal (Vec.ofFn x) (Vec.ofFn v)
  have still := lyapunov.objective_eq symmetric terminal (Vec.zeros n) (Vec.ofFn v)
  simp only [CondensedProgram.objective_eq, Vec.get_ofFn, Vec.get_zeros, mulVec_zero,
    zero_dotProduct, dotProduct_zero, mul_zero, add_zero] at moved still
  have linear : problem.condense.linear = problem.linearCoefficients := rfl
  rw [linear] at moved
  rw [dotProduct_comm (problem.initialCoupling.toMatrix *ᵥ x)]
  linarith

end HasLyapunovWeight

end ConstrainedLqr

end RecedingHorizon
