import RecedingHorizon.Condensing.Program
import RecedingHorizon.Problem.Cost
import RecedingHorizon.Proofs.Blocks.Kronecker
import RecedingHorizon.Proofs.Prediction.Trajectory

/-!
# Weights of all stages

The weights of the condensed program are matrices of blocks that act on a stack part by part: a
repeated weight is the same for every part (`part_mulVec_repeated`), and of the state weights only the
last one differs (`part_mulVec_stateWeights`). Under the feedback, the cost of a stage is a quadratic
form in the state and the free variable with the controlled weights (`stageCost_applied`).
-/

namespace RecedingHorizon.ConstrainedLqr

open Matrix

variable {N n m p k l : Nat}

/-! ### Blocks -/

theorem repeated_eq (W : Mat ℝ k l) : repeated N W = Mat.repeatDiagonal N W :=
  Mat.identity_kronecker W

/-- A repeated weight acts on every part. -/
theorem part_mulVec_repeated (W : Mat ℝ k l) (y : Vec ℝ (N * l)) (i : Fin N) :
    ((repeated N W).mulVec y).part i = W.mulVec (y.part i) := by
  rw [repeated_eq, Mat.part_mulVec_repeatDiagonal]

variable (problem : ConstrainedLqr ℝ n m p)

/-- The weight of the state that stage `i` leads to. -/
noncomputable def nextStateWeight (i : Nat) : Mat ℝ n n :=
  if i = problem.horizon - 1 then problem.terminalWeight else problem.controlledStateWeight

theorem stateWeights_eq :
    problem.stateWeights = Mat.ofBlocks fun i j =>
      if i = j then problem.nextStateWeight i.val else 0 := by
  ext i j
  by_cases same : Stacked.stage i = Stacked.stage j
  · by_cases last : (Stacked.stage j).val = problem.horizon - 1 <;>
      simp [stateWeights, nextStateWeight, repeated_eq, Mat.repeatDiagonal, Mat.ofBlocks, same, last]
  · -- The terminal weight replaces a block on the diagonal, so it is not met here either.
    have apart : ¬((Stacked.stage i).val = problem.horizon - 1 ∧
        (Stacked.stage j).val = problem.horizon - 1) := by
      rintro ⟨first, second⟩
      exact same (Fin.ext (first.trans second.symm))
    simp [stateWeights, repeated_eq, Mat.repeatDiagonal, Mat.ofBlocks, same, apart]

/-- The state weights act on every part with the weight of its state. -/
theorem part_mulVec_stateWeights (y : Vec ℝ (problem.horizon * n)) (i : Fin problem.horizon) :
    (problem.stateWeights.mulVec y).part i =
      (problem.nextStateWeight i.val).mulVec (y.part i) := by
  rw [stateWeights_eq, Mat.part_mulVec_ofBlocks_diagonal]
  · rw [if_pos rfl]
  · intro s t other
    exact if_neg other

theorem isSymm_nextStateWeight (terminal : problem.terminalWeight.toMatrix.IsSymm) (i : Nat) :
    (problem.nextStateWeight i).toMatrix.IsSymm := by
  unfold nextStateWeight
  split
  · exact terminal
  · exact Mat.isSymm_symmetrize _

theorem isSymm_stateWeights (terminal : problem.terminalWeight.toMatrix.IsSymm) :
    problem.stateWeights.toMatrix.IsSymm := by
  apply Matrix.IsSymm.ext
  intro i j
  rw [stateWeights_eq, Mat.toMatrix_apply, Mat.toMatrix_apply, Mat.ofBlocks, Mat.ofFn_entry,
    Mat.ofFn_entry]
  rcases eq_or_ne (Stacked.stage i) (Stacked.stage j) with same | other
  · rw [if_pos same, if_pos same.symm, same]
    exact (problem.isSymm_nextStateWeight terminal _).apply _ _
  · rw [if_neg other, if_neg other.symm, Mat.zero_entry, Mat.zero_entry]

/-! ### The feedback in a stage -/

/-- For symmetric weights, the weight of a state under the feedback is symmetric as it stands. -/
theorem toMatrix_controlledStateWeight_of_isSymm (state : problem.stateWeight.toMatrix.IsSymm)
    (input : problem.inputWeight.toMatrix.IsSymm) :
    problem.controlledStateWeight.toMatrix =
      problem.stateWeight.toMatrix - problem.gain.toMatrixᵀ * problem.crossWeight.toMatrixᵀ -
        problem.crossWeight.toMatrix * problem.gain.toMatrix +
        problem.gain.toMatrixᵀ * problem.inputWeight.toMatrix * problem.gain.toMatrix := by
  rw [controlledStateWeight, controlledWeight, Mat.symmetrize_eq_self]
  · simp only [Mat.toMatrix_add, Mat.toMatrix_sub, Mat.toMatrix_mul, Mat.toMatrix_transpose]
  · simp only [Matrix.IsSymm, Mat.toMatrix_add, Mat.toMatrix_sub, Mat.toMatrix_mul,
      Mat.toMatrix_transpose, Matrix.transpose_add, Matrix.transpose_sub, Matrix.transpose_mul,
      Matrix.transpose_transpose, state.eq, input.eq, Matrix.mul_assoc]
    abel

/-- The controlled state weight is the quadratic part of a stage cost under the feedback alone. -/
theorem dotProduct_controlledStateWeight (x : Fin n → ℝ) :
    x ⬝ᵥ problem.controlledStateWeight.toMatrix *ᵥ x =
      x ⬝ᵥ problem.stateWeight.toMatrix *ᵥ x -
        2 * (x ⬝ᵥ problem.crossWeight.toMatrix *ᵥ (problem.gain.toMatrix *ᵥ x)) +
        (problem.gain.toMatrix *ᵥ x) ⬝ᵥ
          problem.inputWeight.toMatrix *ᵥ (problem.gain.toMatrix *ᵥ x) := by
  -- The two cross terms are transposes of each other and count the same in a quadratic form.
  have reversed : x ⬝ᵥ (problem.gain.toMatrixᵀ * problem.crossWeight.toMatrixᵀ) *ᵥ x =
      x ⬝ᵥ problem.crossWeight.toMatrix *ᵥ (problem.gain.toMatrix *ᵥ x) := by
    rw [← Matrix.transpose_mul, dotProduct_mulVec, vecMul_transpose, dotProduct_comm,
      mulVec_mulVec]
  have fed : x ⬝ᵥ (problem.gain.toMatrixᵀ * problem.inputWeight.toMatrix *
        problem.gain.toMatrix) *ᵥ x =
      (problem.gain.toMatrix *ᵥ x) ⬝ᵥ
        problem.inputWeight.toMatrix *ᵥ (problem.gain.toMatrix *ᵥ x) := by
    rw [← mulVec_mulVec, ← mulVec_mulVec, dotProduct_mulVec, vecMul_transpose]
  rw [controlledStateWeight, controlledWeight, Mat.dotProduct_symmetrize_mulVec]
  simp only [Mat.toMatrix_add, Mat.toMatrix_sub, Mat.toMatrix_mul, Mat.toMatrix_transpose,
    add_mulVec, sub_mulVec, dotProduct_add, dotProduct_sub]
  rw [reversed, fed, ← mulVec_mulVec]
  ring

/-- The cost of a stage under the feedback is a quadratic form in the state and the free variable. -/
theorem stageCost_applied (symmetric : problem.inputWeight.toMatrix.IsSymm) (x : Vec ℝ n)
    (v : Vec ℝ m) :
    problem.stageCost x (LinearSystem.applied problem.gain x v) =
      x.get ⬝ᵥ problem.controlledStateWeight.toMatrix *ᵥ x.get +
        2 * (x.get ⬝ᵥ problem.controlledCrossWeight.toMatrix *ᵥ v.get) +
        v.get ⬝ᵥ problem.inputWeight.toMatrix *ᵥ v.get := by
  -- Only here the weight of the inputs has to be symmetric: `x' K' R v` stands for `v' R K x` too.
  have swapped : v.get ⬝ᵥ problem.inputWeight.toMatrix *ᵥ (problem.gain.toMatrix *ᵥ x.get) =
      (problem.gain.toMatrix *ᵥ x.get) ⬝ᵥ problem.inputWeight.toMatrix *ᵥ v.get := by
    rw [← dotProduct_transpose_mulVec, symmetric.eq]
  have fed : x.get ⬝ᵥ (problem.gain.toMatrixᵀ * problem.inputWeight.toMatrix) *ᵥ v.get =
      (problem.gain.toMatrix *ᵥ x.get) ⬝ᵥ problem.inputWeight.toMatrix *ᵥ v.get := by
    rw [← mulVec_mulVec, dotProduct_mulVec, vecMul_transpose]
  rw [dotProduct_controlledStateWeight, controlledCrossWeight, controlledCross]
  simp only [stageCost, Scalar.two_eq, Vec.dot_eq, Mat.get_mulVec, LinearSystem.get_applied,
    Mat.toMatrix_sub, Mat.toMatrix_mul, Mat.toMatrix_transpose, mulVec_sub, sub_mulVec,
    dotProduct_sub, sub_dotProduct, swapped, fed]
  ring

/-! ### A problem -/

/-- The double integrator over three stages, under a feedback that is neither zero nor optimal. -/
noncomputable def doubleIntegrator (stage : StageConstraints ℝ 2 1 p) : ConstrainedLqr ℝ 2 1 p where
  system :=
    { dynamics := Mat.ofFn fun i j => if i ≤ j then 1 else 0
      input := Mat.ofFn fun i _ => i.val
      interval := 1 }
  horizon := 3
  horizon_pos := by decide
  stateWeight := Mat.identity 2
  inputWeight := Mat.identity 1
  crossWeight := Mat.ofFn fun i _ => i.val
  gain := Mat.ofFn fun _ j => j.val + 1
  terminalKind := .explicit
  terminalWeight := Mat.identity 2
  stage := stage
  stateBounds := { lower := Vector.replicate 2 .bottom, upper := Vector.replicate 2 .top }
  inputBounds := { lower := Vector.replicate 1 .bottom, upper := Vector.replicate 1 .top }

end RecedingHorizon.ConstrainedLqr
