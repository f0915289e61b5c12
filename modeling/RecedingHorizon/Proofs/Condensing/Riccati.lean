import Mathlib.Algebra.Order.Star.Real
import Mathlib.LinearAlgebra.Matrix.NonsingularInverse
import Mathlib.LinearAlgebra.Matrix.PosDef
import RecedingHorizon.Problem.Regulator
import RecedingHorizon.Proofs.Condensing.Cost

/-!
# The condensed minimizer is the Riccati feedback

Backwards from the last stage, the Riccati recursion makes the cost of the rest of a rollout a
quadratic form in its first state. Completing the square in one stage (`stageCost_add_costToGo`) and
adding up all stages, the cost of a rollout is that form plus the squares of the amounts by which its
inputs deviate from the feedback (`cost_eq_costToGo_add_deviations`). One sequence of free variables
has no deviation, so it is the only minimizer, and the only stationary point of the condensed program.
-/

namespace RecedingHorizon

open Matrix

variable {n m p : Nat}

namespace Regulator

variable (A : Mat ℝ n n) (B : Mat ℝ n m) (R : Mat ℝ m m) (S : Mat ℝ n m) (X : Mat ℝ n n)

/-- The gain `(R + B' X B)⁻¹ (B' X A + S')` with the inverse of linear algebra. -/
noncomputable def exactFeedback : Mat ℝ m n :=
  Mat.ofFn ((inputCost B R X).toMatrix⁻¹ * (coupling A B S X).toMatrix)

theorem toMatrix_exactFeedback :
    (exactFeedback A B R S X).toMatrix =
      (inputCost B R X).toMatrix⁻¹ * (coupling A B S X).toMatrix :=
  Mat.toMatrix_ofFn _

theorem inputCost_mul_exactFeedback (definite : (inputCost B R X).toMatrix.PosDef) :
    (inputCost B R X).toMatrix * (exactFeedback A B R S X).toMatrix =
      (coupling A B S X).toMatrix := by
  have invertible := (isUnit_iff_isUnit_det _).mp definite.isUnit
  rw [toMatrix_exactFeedback, ← Matrix.mul_assoc, mul_nonsing_inv _ invertible, Matrix.one_mul]

theorem isSymm_inputCost (weight : R.toMatrix.IsSymm) (symmetric : X.toMatrix.IsSymm) :
    (inputCost B R X).toMatrix.IsSymm := by
  simp only [inputCost, Mat.toMatrix_add, Mat.toMatrix_mul, Mat.toMatrix_transpose, Matrix.IsSymm,
    Matrix.transpose_add, Matrix.transpose_mul, Matrix.transpose_transpose, weight.eq, symmetric.eq,
    Matrix.mul_assoc]

theorem transpose_coupling (symmetric : X.toMatrix.IsSymm) :
    (coupling A B S X).toMatrixᵀ = A.toMatrixᵀ * X.toMatrix * B.toMatrix + S.toMatrix := by
  simp only [coupling, Mat.toMatrix_add, Mat.toMatrix_mul, Mat.toMatrix_transpose,
    Matrix.transpose_add, Matrix.transpose_mul, Matrix.transpose_transpose, symmetric.eq,
    Matrix.mul_assoc]

end Regulator

namespace ConstrainedLqr

variable (problem : ConstrainedLqr ℝ n m p)

/-! ### The recursion -/

/-- The gain of a stage after which the cost to go is the quadratic form of `X`. -/
noncomputable def feedbackFor (X : Mat ℝ n n) : Mat ℝ m n :=
  Regulator.exactFeedback problem.system.dynamics problem.system.input problem.inputWeight
    problem.crossWeight X

/-- The Riccati recursion `X ↦ Q + A' X A - (A' X B + S) K` from the terminal weight, with the weights
of the problem as they are: the cost that `j` stages and the last state have to come. -/
noncomputable def costToGo : (j : Nat) → Mat ℝ n n
  | 0 => problem.terminalWeight
  | j + 1 =>
    let A := problem.system.dynamics
    let X := costToGo j
    problem.stateWeight + A.transpose * X * A -
      (A.transpose * X * problem.system.input + problem.crossWeight) * problem.feedbackFor X

/-- The gain of the stage with `j` more stages behind it. -/
noncomputable def stageFeedback (j : Nat) : Mat ℝ m n := problem.feedbackFor (problem.costToGo j)

/-- The matrix `R + B' X B` of the stage with `j` more stages behind it. -/
noncomputable def stageInputCost (j : Nat) : Mat ℝ m m :=
  Regulator.inputCost problem.system.input problem.inputWeight (problem.costToGo j)

noncomputable def stageCoupling (j : Nat) : Mat ℝ m n :=
  Regulator.coupling problem.system.dynamics problem.system.input problem.crossWeight
    (problem.costToGo j)

theorem toMatrix_costToGo_succ (j : Nat) :
    (problem.costToGo (j + 1)).toMatrix =
      problem.stateWeight.toMatrix +
        problem.system.dynamics.toMatrixᵀ * (problem.costToGo j).toMatrix *
          problem.system.dynamics.toMatrix -
        (problem.system.dynamics.toMatrixᵀ * (problem.costToGo j).toMatrix *
          problem.system.input.toMatrix + problem.crossWeight.toMatrix) *
          (problem.stageFeedback j).toMatrix := by
  simp only [costToGo, Mat.toMatrix_sub, Mat.toMatrix_add, Mat.toMatrix_mul, Mat.toMatrix_transpose]
  rfl

/-- Weights that are symmetric as they are given, so that nothing depends on which half is read. -/
structure IsSymmetric : Prop where
  state : problem.stateWeight.transpose = problem.stateWeight
  input : problem.inputWeight.transpose = problem.inputWeight
  terminal : problem.terminalWeight.transpose = problem.terminalWeight

variable {problem} in
theorem IsSymmetric.isSymm_costToGo (symmetric : problem.IsSymmetric) (j : Nat) :
    (problem.costToGo j).toMatrix.IsSymm := by
  induction j with
  | zero => exact Mat.isSymm_of_transpose_eq symmetric.terminal
  | succ j ih =>
    -- The subtracted matrix is `C' M⁻¹ C` for the coupling `C` and the input cost `M`.
    have cost := Regulator.isSymm_inputCost problem.system.input problem.inputWeight _
      (Mat.isSymm_of_transpose_eq symmetric.input) ih
    have coupling := Regulator.transpose_coupling problem.system.dynamics problem.system.input
      problem.crossWeight _ ih
    have feedback : (problem.stageFeedback j).toMatrix =
        (problem.stageInputCost j).toMatrix⁻¹ * (problem.stageCoupling j).toMatrix :=
      Regulator.toMatrix_exactFeedback ..
    rw [Matrix.IsSymm, toMatrix_costToGo_succ, ← coupling, feedback]
    simp only [Matrix.transpose_sub, Matrix.transpose_add, Matrix.transpose_mul,
      Matrix.transpose_transpose, transpose_nonsing_inv, ih.eq, Matrix.mul_assoc,
      (Mat.isSymm_of_transpose_eq symmetric.state).eq]
    rw [show (problem.stageInputCost j).toMatrixᵀ = (problem.stageInputCost j).toMatrix from cost]
    rfl

/-! ### Completing the square -/

/-- The quadratic cost of an input, with the square completed around the gain `K`: `M` is the weight of
the input, `C` couples it to the state. -/
theorem quadratic_eq_square {M : Matrix (Fin m) (Fin m) ℝ} {C K : Matrix (Fin m) (Fin n) ℝ}
    (symmetric : M.IsSymm) (gain : M * K = C) (x : Fin n → ℝ) (u : Fin m → ℝ) :
    2 * (u ⬝ᵥ C *ᵥ x) + u ⬝ᵥ M *ᵥ u =
      (u + K *ᵥ x) ⬝ᵥ M *ᵥ (u + K *ᵥ x) - x ⬝ᵥ (Cᵀ * K) *ᵥ x := by
  -- Both cross terms of the square are the coupling, its last term is what the square adds.
  have coupled : M *ᵥ (K *ᵥ x) = C *ᵥ x := by rw [mulVec_mulVec, gain]
  have swapped : (K *ᵥ x) ⬝ᵥ M *ᵥ u = u ⬝ᵥ C *ᵥ x := by
    rw [← dotProduct_transpose_mulVec, symmetric.eq, coupled]
  have remainder : x ⬝ᵥ (Cᵀ * K) *ᵥ x = (K *ᵥ x) ⬝ᵥ C *ᵥ x := by
    rw [← mulVec_mulVec, dotProduct_transpose_mulVec]
  rw [mulVec_add, coupled, add_dotProduct, dotProduct_add, dotProduct_add, swapped, remainder]
  ring

/-- The cost of a stage and of the state that it leads to, before the square is completed. -/
theorem stageCost_add_next (X : Mat ℝ n n) (symmetric : X.toMatrix.IsSymm) (x : Vec ℝ n)
    (u : Vec ℝ m) :
    problem.stageCost x u +
        (problem.system.next x u).get ⬝ᵥ X.toMatrix *ᵥ (problem.system.next x u).get =
      x.get ⬝ᵥ (problem.stateWeight.toMatrix + problem.system.dynamics.toMatrixᵀ * X.toMatrix *
          problem.system.dynamics.toMatrix) *ᵥ x.get +
        (2 * (u.get ⬝ᵥ (Regulator.coupling problem.system.dynamics problem.system.input
            problem.crossWeight X).toMatrix *ᵥ x.get) +
          u.get ⬝ᵥ (Regulator.inputCost problem.system.input problem.inputWeight X).toMatrix *ᵥ
            u.get) := by
  -- The next state is the drift `a` and the push `b` of the input; its cost expands into the terms in
  -- `a`, in `b`, and twice the mixed one.
  set a := problem.system.dynamics.toMatrix *ᵥ x.get with drift
  set b := problem.system.input.toMatrix *ᵥ u.get with push
  have next : (problem.system.next x u).get = a + b := by
    rw [LinearSystem.next, Vec.get_add, Mat.get_mulVec, Mat.get_mulVec]
  have swapped : a ⬝ᵥ X.toMatrix *ᵥ b = b ⬝ᵥ X.toMatrix *ᵥ a := by
    rw [← dotProduct_transpose_mulVec, symmetric.eq]
  have coupled : u.get ⬝ᵥ (Regulator.coupling problem.system.dynamics problem.system.input
      problem.crossWeight X).toMatrix *ᵥ x.get =
      b ⬝ᵥ X.toMatrix *ᵥ a + x.get ⬝ᵥ problem.crossWeight.toMatrix *ᵥ u.get := by
    simp only [Regulator.coupling, Mat.toMatrix_add, Mat.toMatrix_mul, Mat.toMatrix_transpose,
      add_mulVec, ← mulVec_mulVec, dotProduct_add, dotProduct_transpose_mulVec]
    rw [← drift, ← push, dotProduct_comm (X.toMatrix *ᵥ a)]
  have weighed : u.get ⬝ᵥ (Regulator.inputCost problem.system.input problem.inputWeight
      X).toMatrix *ᵥ u.get =
      u.get ⬝ᵥ problem.inputWeight.toMatrix *ᵥ u.get + b ⬝ᵥ X.toMatrix *ᵥ b := by
    simp only [Regulator.inputCost, Mat.toMatrix_add, Mat.toMatrix_mul, Mat.toMatrix_transpose,
      add_mulVec, ← mulVec_mulVec, dotProduct_add, dotProduct_transpose_mulVec]
    rw [← push, dotProduct_comm (X.toMatrix *ᵥ b)]
  have free : x.get ⬝ᵥ (problem.stateWeight.toMatrix + problem.system.dynamics.toMatrixᵀ *
      X.toMatrix * problem.system.dynamics.toMatrix) *ᵥ x.get =
      x.get ⬝ᵥ problem.stateWeight.toMatrix *ᵥ x.get + a ⬝ᵥ X.toMatrix *ᵥ a := by
    simp only [add_mulVec, ← mulVec_mulVec, dotProduct_add, dotProduct_transpose_mulVec]
    rw [← drift, dotProduct_comm (X.toMatrix *ᵥ a)]
  rw [next, coupled, weighed, free, stageCost, Scalar.two_eq, Vec.dot_eq, Vec.dot_eq, Vec.dot_eq,
    Mat.get_mulVec, Mat.get_mulVec, Mat.get_mulVec, mulVec_add, add_dotProduct, dotProduct_add,
    dotProduct_add, swapped]
  ring

/-- One stage of the recursion: what a stage and the stages behind it cost is the cost to go of its state
and a square that vanishes under the feedback. -/
theorem stageCost_add_costToGo (symmetric : problem.IsSymmetric) {j : Nat}
    (definite : (problem.stageInputCost j).toMatrix.PosDef) (x : Vec ℝ n) (u : Vec ℝ m) :
    problem.stageCost x u +
        (problem.system.next x u).get ⬝ᵥ
          (problem.costToGo j).toMatrix *ᵥ (problem.system.next x u).get =
      x.get ⬝ᵥ (problem.costToGo (j + 1)).toMatrix *ᵥ x.get +
        (u.get + (problem.stageFeedback j).toMatrix *ᵥ x.get) ⬝ᵥ
          (problem.stageInputCost j).toMatrix *ᵥ
            (u.get + (problem.stageFeedback j).toMatrix *ᵥ x.get) := by
  have later := symmetric.isSymm_costToGo j
  have cost := Regulator.isSymm_inputCost problem.system.input problem.inputWeight _
    (Mat.isSymm_of_transpose_eq symmetric.input) later
  have gain : (problem.stageInputCost j).toMatrix * (problem.stageFeedback j).toMatrix =
      (problem.stageCoupling j).toMatrix :=
    Regulator.inputCost_mul_exactFeedback _ _ _ _ _ definite
  rw [stageCost_add_next problem _ later, toMatrix_costToGo_succ, sub_mulVec, dotProduct_sub,
    ← Regulator.transpose_coupling _ _ _ _ later]
  have square := quadratic_eq_square cost gain x.get u.get
  simp only [stageInputCost, stageCoupling] at square ⊢
  linarith

/-! ### The whole rollout -/

variable (x : Vec ℝ n) (v : Vec ℝ (problem.horizon * m))

/-- The amount by which the input of stage `k` deviates from the feedback of that stage. -/
noncomputable def deviationAt (k : Nat) : Fin m → ℝ :=
  (problem.inputAt x v.partAt k).get +
    (problem.stageFeedback (problem.horizon - 1 - k)).toMatrix *ᵥ
      (problem.stateAt x v.partAt k).get

/-- What the deviation in stage `k` costs. -/
noncomputable def deviationCostAt (k : Nat) : ℝ :=
  problem.deviationAt x v k ⬝ᵥ
    (problem.stageInputCost (problem.horizon - 1 - k)).toMatrix *ᵥ problem.deviationAt x v k

/-- What the deviations in all stages cost. -/
noncomputable def deviationCost : ℝ :=
  ∑ k ∈ Finset.range problem.horizon, problem.deviationCostAt x v k

/-- The weight of the input is positive definite in every stage of the recursion. -/
def HasDefiniteStages : Prop :=
  ∀ j < problem.horizon, (problem.stageInputCost j).toMatrix.PosDef

/-- The cost of a rollout is the cost to go of its first state and the cost of its deviations. -/
theorem cost_eq_costToGo_add_deviations (symmetric : problem.IsSymmetric)
    (definite : problem.HasDefiniteStages) :
    problem.cost x v.partAt =
      x.get ⬝ᵥ (problem.costToGo problem.horizon).toMatrix *ᵥ x.get +
        problem.deviationCost x v := by
  -- With the cost to go of every state of the rollout, the costs of the stages telescope.
  let toGo (k : Nat) : ℝ := (problem.stateAt x v.partAt k).get ⬝ᵥ
    (problem.costToGo (problem.horizon - k)).toMatrix *ᵥ (problem.stateAt x v.partAt k).get
  have stage (k : Nat) (inside : k ∈ Finset.range problem.horizon) :
      problem.stageCost (problem.stateAt x v.partAt k) (problem.inputAt x v.partAt k) =
        (toGo k - toGo (k + 1)) + problem.deviationCostAt x v k := by
    have before := Finset.mem_range.mp inside
    have completed := problem.stageCost_add_costToGo symmetric
      (definite (problem.horizon - 1 - k) (by omega)) (problem.stateAt x v.partAt k)
      (problem.inputAt x v.partAt k)
    have here : problem.horizon - 1 - k + 1 = problem.horizon - k := by omega
    have behind : problem.horizon - 1 - k = problem.horizon - (k + 1) := by omega
    have state : problem.system.next (problem.stateAt x v.partAt k)
        (problem.inputAt x v.partAt k) = problem.stateAt x v.partAt (k + 1) := rfl
    rw [here, state] at completed
    simp only [toGo, deviationCostAt, deviationAt, ← behind]
    linarith
  have last : problem.terminalCost (problem.stateAt x v.partAt problem.horizon) =
      toGo problem.horizon := by
    simp only [toGo, terminalCost, Vec.dot_eq, Mat.get_mulVec, Nat.sub_self, costToGo]
  have first : toGo 0 = x.get ⬝ᵥ (problem.costToGo problem.horizon).toMatrix *ᵥ x.get := rfl
  rw [cost, last, Vec.sumOver_eq_sum, ← Finset.sum_range fun k =>
      problem.stageCost (problem.stateAt x v.partAt k) (problem.inputAt x v.partAt k),
    Finset.sum_congr rfl stage, Finset.sum_add_distrib, Finset.sum_range_sub', deviationCost,
    ← first]
  ring

theorem deviationCostAt_nonneg (definite : problem.HasDefiniteStages) (k : Nat)
    (inside : k ∈ Finset.range problem.horizon) : 0 ≤ problem.deviationCostAt x v k := by
  have before := Finset.mem_range.mp inside
  have weight := (definite (problem.horizon - 1 - k) (by omega)).posSemidef
  simpa [deviationCostAt] using weight.dotProduct_mulVec_nonneg (problem.deviationAt x v k)

theorem deviationCost_nonneg (definite : problem.HasDefiniteStages) :
    0 ≤ problem.deviationCost x v :=
  Finset.sum_nonneg (problem.deviationCostAt_nonneg x v definite)

theorem deviationAt_of_deviationCost (definite : problem.HasDefiniteStages)
    (free : problem.deviationCost x v = 0) {k : Nat} (before : k < problem.horizon) :
    problem.deviationAt x v k = 0 := by
  -- No cost is negative, so the sum vanishes only with each of them.
  have none := (Finset.sum_eq_zero_iff_of_nonneg
    (problem.deviationCostAt_nonneg x v definite)).mp free k (Finset.mem_range.mpr before)
  by_contra other
  have positive := (definite (problem.horizon - 1 - k) (by omega)).dotProduct_mulVec_pos other
  rw [star_trivial] at positive
  exact positive.ne' none

/-! ### Following the feedback -/

/-- The input of the feedback in stage `k`. -/
noncomputable def feedbackInput (k : Nat) (x : Vec ℝ n) : Vec ℝ m :=
  -(problem.stageFeedback (problem.horizon - 1 - k)).mulVec x

theorem deviationAt_eq_zero_iff (k : Nat) :
    problem.deviationAt x v k = 0 ↔
      problem.inputAt x v.partAt k = problem.feedbackInput k (problem.stateAt x v.partAt k) := by
  rw [deviationAt, add_eq_zero_iff_eq_neg, feedbackInput, ← Vec.get_inj, Vec.get_neg,
    Mat.get_mulVec]

/-- The states under the feedback. -/
noncomputable def feedbackState (x : Vec ℝ n) : (k : Nat) → Vec ℝ n
  | 0 => x
  | k + 1 => problem.system.next (feedbackState x k) (problem.feedbackInput k (feedbackState x k))

/-- The free variables with which the rollout follows the feedback. -/
noncomputable def feedbackVariables (x : Vec ℝ n) : Vec ℝ (problem.horizon * m) :=
  Vec.stack fun k => problem.feedbackInput k.val (problem.feedbackState x k.val) +
    problem.gain.mulVec (problem.feedbackState x k.val)

/-- A feedback takes away what is added for it. -/
theorem applied_add_mulVec (K : Mat ℝ m n) (u : Vec ℝ m) :
    LinearSystem.applied K x (u + K.mulVec x) = u := by
  apply Vec.get_inj.mp
  simp [LinearSystem.get_applied]

theorem stateAt_feedbackVariables {k : Nat} (inside : k ≤ problem.horizon) :
    problem.stateAt x (problem.feedbackVariables x).partAt k = problem.feedbackState x k := by
  induction k with
  | zero => rfl
  | succ k ih =>
    have before : k < problem.horizon := inside
    have part := Vec.partAt_stack (fun k : Fin problem.horizon =>
      problem.feedbackInput k.val (problem.feedbackState x k.val) +
        problem.gain.mulVec (problem.feedbackState x k.val)) ⟨k, before⟩
    change problem.system.next (problem.stateAt x _ k)
      (LinearSystem.applied problem.gain (problem.stateAt x _ k)
        ((problem.feedbackVariables x).partAt k)) = _
    rw [ih before.le, feedbackVariables, part, applied_add_mulVec, feedbackState]

theorem deviationAt_feedbackVariables {k : Nat} (before : k < problem.horizon) :
    problem.deviationAt x (problem.feedbackVariables x) k = 0 := by
  have part := Vec.partAt_stack (fun k : Fin problem.horizon =>
    problem.feedbackInput k.val (problem.feedbackState x k.val) +
      problem.gain.mulVec (problem.feedbackState x k.val)) ⟨k, before⟩
  rw [deviationAt_eq_zero_iff]
  change LinearSystem.applied problem.gain (problem.stateAt x _ k)
    ((problem.feedbackVariables x).partAt k) = _
  rw [stateAt_feedbackVariables problem x before.le, feedbackVariables, part, applied_add_mulVec]

theorem deviationCost_feedbackVariables :
    problem.deviationCost x (problem.feedbackVariables x) = 0 := by
  apply Finset.sum_eq_zero
  intro k inside
  rw [deviationCostAt, problem.deviationAt_feedbackVariables x (Finset.mem_range.mp inside),
    zero_dotProduct]

/-- Free variables without deviations are those that follow the feedback. -/
theorem eq_feedbackVariables (follows : ∀ k < problem.horizon, problem.deviationAt x v k = 0) :
    v = problem.feedbackVariables x := by
  -- Stage by stage, the states are those under the feedback; the inputs follow from them.
  have state {k : Nat} (inside : k ≤ problem.horizon) :
      problem.stateAt x v.partAt k = problem.feedbackState x k := by
    induction k with
    | zero => rfl
    | succ k ih =>
      have input := (problem.deviationAt_eq_zero_iff x v k).mp (follows k inside)
      change problem.system.next (problem.stateAt x v.partAt k)
        (problem.inputAt x v.partAt k) = _
      rw [input, ih (Nat.le_of_succ_le inside), feedbackState]
  apply Vec.ext_part
  intro k
  have input := (problem.deviationAt_eq_zero_iff x v k.val).mp (follows k.val k.isLt)
  rw [state k.isLt.le, inputAt, LinearSystem.inputAt] at input
  have applied : LinearSystem.applied problem.gain (problem.feedbackState x k.val) (v.part k) =
      problem.feedbackInput k.val (problem.feedbackState x k.val) := by
    rw [← input, ← Vec.partAt_val]
    exact congrArg (LinearSystem.applied problem.gain · _) (state k.isLt.le).symm
  rw [feedbackVariables, Vec.part_stack, ← applied]
  apply Vec.get_inj.mp
  simp [LinearSystem.get_applied]

/-! ### The minimizer -/

theorem objective_sub_feedbackVariables (symmetric : problem.IsSymmetric)
    (definite : problem.HasDefiniteStages) :
    problem.condense.objective x v -
        problem.condense.objective x (problem.feedbackVariables x) =
      problem.deviationCost x v := by
  have input := Mat.isSymm_of_transpose_eq symmetric.input
  have terminal := Mat.isSymm_of_transpose_eq symmetric.terminal
  rw [problem.objective_eq_cost_sub x v input terminal,
    problem.objective_eq_cost_sub x (problem.feedbackVariables x) input terminal,
    problem.cost_eq_costToGo_add_deviations x v symmetric definite,
    problem.cost_eq_costToGo_add_deviations x (problem.feedbackVariables x) symmetric definite,
    deviationCost_feedbackVariables]
  ring

/-- The free variables that follow the feedback are the only minimizer. -/
theorem objective_feedbackVariables_lt (symmetric : problem.IsSymmetric)
    (definite : problem.HasDefiniteStages) (other : v ≠ problem.feedbackVariables x) :
    problem.condense.objective x (problem.feedbackVariables x) <
      problem.condense.objective x v := by
  have gap := problem.objective_sub_feedbackVariables x v symmetric definite
  have nonneg := problem.deviationCost_nonneg x v definite
  have positive : problem.deviationCost x v ≠ 0 := fun free =>
    other (problem.eq_feedbackVariables x v fun k before =>
      problem.deviationAt_of_deviationCost x v definite free before)
  have := lt_of_le_of_ne nonneg positive.symm
  linarith

/-- From the origin, the feedback stays there. -/
theorem feedbackVariables_zeros :
    problem.feedbackVariables (Vec.zeros n) = Vec.zeros (problem.horizon * m) := by
  have state (k : Nat) : problem.stateAt (Vec.zeros n)
      (Vec.zeros (problem.horizon * m)).partAt k = Vec.zeros n := by
    apply Vec.get_inj.mp
    rw [stateAt, LinearSystem.get_stateAt]
    simp [LinearSystem.response, Vec.partAt_zeros]
  refine (problem.eq_feedbackVariables _ _ fun k _ => ?_).symm
  rw [deviationAt, state, inputAt, LinearSystem.inputAt, LinearSystem.get_applied,
    Vec.partAt_zeros, show problem.system.stateAt problem.gain (Vec.zeros n) _ k = _ from state k]
  simp

theorem posDef_hessian (symmetric : problem.IsSymmetric) (definite : problem.HasDefiniteStages) :
    problem.condense.hessian.toMatrix.PosDef := by
  apply posDef_iff_dotProduct_mulVec.mpr
  refine ⟨Mat.isSymm_symmetrize _, fun y other => ?_⟩
  -- From the origin the objective is the quadratic form, and its minimizer is the origin.
  have away : (Vec.ofFn y : Vec ℝ (problem.horizon * m)) ≠
      problem.feedbackVariables (Vec.zeros n) := by
    rw [problem.feedbackVariables_zeros]
    intro same
    apply other
    rw [← Vec.get_ofFn y, same, Vec.get_zeros]
  have above := problem.objective_feedbackVariables_lt _ _ symmetric definite away
  rw [problem.feedbackVariables_zeros] at above
  simpa [CondensedProgram.objective_eq] using above

end ConstrainedLqr

namespace CondensedProgram

variable {N : Nat} (qp : CondensedProgram ℝ N n m p) (x : Vec ℝ n) {v : Vec ℝ (N * m)}

/-- Above a stationary point the objective rises with the quadratic form of the distance. -/
theorem objective_sub_of_stationary (symmetric : qp.hessian.toMatrix.IsSymm)
    (stationary : qp.hessian.mulVec v = -qp.linearTerm x) (w : Vec ℝ (N * m)) :
    qp.objective x w - qp.objective x v =
      (w.get - v.get) ⬝ᵥ qp.hessian.toMatrix *ᵥ (w.get - v.get) := by
  -- At a stationary point the linear term is the negative of the quadratic form's own gradient.
  have balance : qp.linear.toMatrix *ᵥ x.get = -(qp.hessian.toMatrix *ᵥ v.get) := by
    rw [← Mat.get_mulVec qp.hessian, stationary, Vec.get_neg, linearTerm, Mat.get_mulVec, neg_neg]
  have swapped : v.get ⬝ᵥ qp.hessian.toMatrix *ᵥ w.get = w.get ⬝ᵥ qp.hessian.toMatrix *ᵥ v.get := by
    rw [← dotProduct_transpose_mulVec, symmetric.eq]
  rw [objective_eq, objective_eq, balance]
  simp only [neg_dotProduct, mulVec_sub, sub_dotProduct, dotProduct_sub, swapped]
  rw [dotProduct_comm _ w.get, dotProduct_comm _ v.get]
  ring

end CondensedProgram

namespace ConstrainedLqr

variable (problem : ConstrainedLqr ℝ n m p) (x : Vec ℝ n)

/-- The stationary points of the condensed program are the free variables that follow the feedback. -/
theorem stationary_iff (symmetric : problem.IsSymmetric) (definite : problem.HasDefiniteStages)
    (v : Vec ℝ (problem.horizon * m)) :
    problem.condense.hessian.mulVec v = -problem.condense.linearTerm x ↔
      v = problem.feedbackVariables x := by
  have positive := problem.posDef_hessian symmetric definite
  have invertible := (isUnit_iff_isUnit_det _).mp positive.isUnit
  have least {v : Vec ℝ (problem.horizon * m)}
      (stationary : problem.condense.hessian.mulVec v = -problem.condense.linearTerm x) :
      v = problem.feedbackVariables x := by
    by_contra other
    have below := problem.objective_feedbackVariables_lt x v symmetric definite other
    have gap := problem.condense.objective_sub_of_stationary x (Mat.isSymm_symmetrize _) stationary
      (problem.feedbackVariables x)
    have nonneg := positive.posSemidef.dotProduct_mulVec_nonneg
      ((problem.feedbackVariables x).get - v.get)
    rw [star_trivial] at nonneg
    linarith
  constructor
  · exact least
  · rintro rfl
    -- The system of equations has a solution, and that is the minimizer.
    let solution : Vec ℝ (problem.horizon * m) :=
      Vec.ofFn (problem.condense.hessian.toMatrix⁻¹ *ᵥ (-problem.condense.linearTerm x).get)
    have solves : problem.condense.hessian.mulVec solution = -problem.condense.linearTerm x := by
      apply Vec.get_inj.mp
      rw [Mat.get_mulVec, Vec.get_ofFn, mulVec_mulVec, mul_nonsing_inv _ invertible, one_mulVec]
    rwa [← least solves]

/-- If the weight of the input is positive definite in every stage of the Riccati recursion, the condensed
program has one stationary point, which is its only minimizer, and the rollout of this point applies the
feedback of the recursion in every stage. -/
theorem condensed_minimizer_is_riccati_feedback (symmetric : problem.IsSymmetric)
    (definite : ∀ j < problem.horizon, (problem.stageInputCost j).toMatrix.PosDef) :
    ∃ v, (∀ w, problem.condense.hessian.mulVec w = -problem.condense.linearTerm x ↔ w = v) ∧
      (∀ w, w ≠ v → problem.condense.objective x v < problem.condense.objective x w) ∧
      ∀ k < problem.horizon, problem.inputAt x v.partAt k =
        -(problem.stageFeedback (problem.horizon - 1 - k)).mulVec
          (problem.stateAt x v.partAt k) := by
  refine ⟨problem.feedbackVariables x, problem.stationary_iff x symmetric definite,
    fun w other => problem.objective_feedbackVariables_lt x w symmetric definite other,
    fun k before => ?_⟩
  exact (problem.deviationAt_eq_zero_iff x _ k).mp (problem.deviationAt_feedbackVariables x before)

/-! ### Where the recursion goes through -/

theorem posSemidef_of_nonneg {M : Mat ℝ n n} (symmetric : M.toMatrix.IsSymm)
    (nonneg : ∀ x : Vec ℝ n, 0 ≤ x.get ⬝ᵥ M.toMatrix *ᵥ x.get) : M.toMatrix.PosSemidef := by
  apply posSemidef_iff_dotProduct_mulVec.mpr
  refine ⟨symmetric, fun y => ?_⟩
  simpa using nonneg (Vec.ofFn y)

theorem posDef_stageInputCost (weight : problem.inputWeight.toMatrix.PosDef) {j : Nat}
    (later : (problem.costToGo j).toMatrix.PosSemidef) :
    (problem.stageInputCost j).toMatrix.PosDef := by
  have moved := later.conjTranspose_mul_mul_same problem.system.input.toMatrix
  rw [conjTranspose_eq_transpose_of_trivial] at moved
  simp only [stageInputCost, Regulator.inputCost, Mat.toMatrix_add, Mat.toMatrix_mul,
    Mat.toMatrix_transpose]
  exact weight.add_posSemidef moved

/-- If no stage and no last state has a negative cost, then neither has the cost to go. -/
theorem posSemidef_costToGo (symmetric : problem.IsSymmetric)
    (weight : problem.inputWeight.toMatrix.PosDef)
    (terminal : problem.terminalWeight.toMatrix.PosSemidef)
    (stages : ∀ x u, 0 ≤ problem.stageCost x u) (j : Nat) :
    (problem.costToGo j).toMatrix.PosSemidef := by
  induction j with
  | zero => exact terminal
  | succ j ih =>
    refine posSemidef_of_nonneg (symmetric.isSymm_costToGo (j + 1)) fun x => ?_
    -- The cost to go is what the stage costs under its feedback.
    have followed := problem.stageCost_add_costToGo symmetric (problem.posDef_stageInputCost weight ih)
      x (-(problem.stageFeedback j).mulVec x)
    have stage := stages x (-(problem.stageFeedback j).mulVec x)
    have next := ih.dotProduct_mulVec_nonneg
      (problem.system.next x (-(problem.stageFeedback j).mulVec x)).get
    rw [Vec.get_neg, Mat.get_mulVec, neg_add_cancel, zero_dotProduct] at followed
    rw [star_trivial] at next
    linarith

theorem hasDefiniteStages_of_nonneg (symmetric : problem.IsSymmetric)
    (weight : problem.inputWeight.toMatrix.PosDef)
    (terminal : problem.terminalWeight.toMatrix.PosSemidef)
    (stages : ∀ x u, 0 ≤ problem.stageCost x u) : problem.HasDefiniteStages := fun j _ =>
  problem.posDef_stageInputCost weight
    (problem.posSemidef_costToGo symmetric weight terminal stages j)

theorem isSymmetric_doubleIntegrator (stage : StageConstraints ℝ 2 1 p) :
    (doubleIntegrator stage).IsSymmetric :=
  ⟨Mat.transpose_identity, Mat.transpose_identity, Mat.transpose_identity⟩

theorem hasDefiniteStages_doubleIntegrator (stage : StageConstraints ℝ 2 1 p) :
    (doubleIntegrator stage).HasDefiniteStages := by
  have identity {k : Nat} : (Mat.identity k : Mat ℝ k k).toMatrix.PosDef := by
    rw [Mat.toMatrix_identity]
    exact PosDef.one
  refine hasDefiniteStages_of_nonneg _ (isSymmetric_doubleIntegrator stage) identity
    identity.posSemidef fun x u => ?_
  have cost : (doubleIntegrator stage).stageCost x u =
      x.get 0 * x.get 0 + (x.get 1 + u.get 0) * (x.get 1 + u.get 0) := by
    simp only [stageCost, doubleIntegrator, Scalar.two_eq, Vec.dot_eq, Mat.get_mulVec,
      Mat.toMatrix_identity, Mat.toMatrix_ofFn, dotProduct, mulVec, Matrix.of_apply,
      Fin.sum_univ_two, Fin.sum_univ_one]
    norm_num
    ring
  rw [cost]
  exact add_nonneg (mul_self_nonneg _) (mul_self_nonneg _)

/-- The double integrator over three stages, with a cross weight and under a feedback. -/
theorem condensed_minimizer_is_riccati_feedback_doubleIntegrator :
    let problem := doubleIntegrator { states := 0, inputs := 0, bounds := Vec.zeros 0 }
    let x : Vec ℝ 2 := Vec.ofFn fun i => i.val + 1
    problem.IsSymmetric ∧
    (∀ j < problem.horizon, (problem.stageInputCost j).toMatrix.PosDef) ∧
    ∃ v, (∀ w, problem.condense.hessian.mulVec w = -problem.condense.linearTerm x ↔ w = v) ∧
      ∀ k < 3, problem.inputAt x v.partAt k =
        -(problem.stageFeedback (2 - k)).mulVec (problem.stateAt x v.partAt k) := by
  intro problem x
  have symmetric : problem.IsSymmetric := isSymmetric_doubleIntegrator _
  have definite : problem.HasDefiniteStages := hasDefiniteStages_doubleIntegrator _
  obtain ⟨v, stationary, -, follows⟩ :=
    condensed_minimizer_is_riccati_feedback problem x symmetric definite
  exact ⟨symmetric, definite, v, stationary, follows⟩

end ConstrainedLqr

end RecedingHorizon
