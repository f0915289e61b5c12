import RecedingHorizon.Proofs.Blocks.Equal
import RecedingHorizon.Proofs.Condensing.Telescoping
import RecedingHorizon.Proofs.Problem.Acceptance

/-!
# The quadratic term does not depend on the horizon

With a terminal weight that solves the Lyapunov equation, a block of the quadratic term depends on the
distance of its two stages alone (`block_hessian`): the cost of a free variable on the diagonal, and
below it the coupling of a stage to the free variable of an earlier one. So the blocks of a horizon are
the leading blocks of every longer one. A terminal weight that is computed from the Lyapunov equation
is such a weight, although only its symmetric part is kept (`hasLyapunovWeight_of_accepted`).
-/

namespace RecedingHorizon

open Matrix

variable {n m p : Nat}

/-! ### Blocks of products -/

namespace Mat

variable {N k l r : Nat}

theorem block_entry (M : Mat ℝ (N * k) (N * l)) (s t : Fin N) (i : Fin k) (j : Fin l) :
    M.block s t i j = M (Stacked.index s i) (Stacked.index t j) :=
  ofFn_entry _ i j

theorem toMatrix_block (M : Mat ℝ (N * k) (N * l)) (s t : Fin N) :
    (M.block s t).toMatrix = M.toMatrix.submatrix (Stacked.index s) (Stacked.index t) := by
  ext i j
  exact block_entry M s t i j

theorem toMatrix_repeated_index (W : Mat ℝ k l) (s t : Fin N) (i : Fin k) (j : Fin l) :
    (ConstrainedLqr.repeated N W).toMatrix (Stacked.index s i) (Stacked.index t j) =
      if s = t then W.toMatrix i j else 0 := by
  rw [ConstrainedLqr.repeated_eq, repeatDiagonal, toMatrix_apply, ofBlocks, ofFn_entry,
    Stacked.stage_index, Stacked.stage_index, Stacked.position_index, Stacked.position_index]
  split
  · rfl
  · exact zero_entry i j

theorem block_repeated (W : Mat ℝ k l) (s t : Fin N) :
    (ConstrainedLqr.repeated N W).block s t = if s = t then W else 0 := by
  rw [ConstrainedLqr.repeated_eq, repeatDiagonal, block_ofBlocks]

/-- A repeated matrix multiplies every block of another one. -/
theorem block_repeated_mul (W : Mat ℝ k r) (M : Mat ℝ (N * r) (N * l)) (s t : Fin N) :
    (ConstrainedLqr.repeated N W * M).block s t = W * M.block s t := by
  apply toMatrix_inj.mp
  ext i j
  -- Of the sum over the places of all stages only those of the stage itself count.
  rw [toMatrix_mul, toMatrix_block, toMatrix_block, Matrix.submatrix_apply, toMatrix_mul,
    Matrix.mul_apply, Matrix.mul_apply, Stacked.sum_places, Finset.sum_eq_single s]
  · simp only [toMatrix_repeated_index, if_pos, Matrix.submatrix_apply]
  · intro other _ apart
    simp only [toMatrix_repeated_index, if_neg apart.symm, zero_mul, Finset.sum_const_zero]
  · exact fun absent => absurd (Finset.mem_univ s) absent

end Mat

namespace ConstrainedLqr

variable {problem : ConstrainedLqr ℝ n m p}

/-! ### The blocks of the quadratic term -/

variable (problem) in
/-- The coupling of a stage to the free variable that lies `d + 1` stages before it. -/
noncomputable def lagCoupling (d : Nat) : Mat ℝ m m :=
  problem.freeCoupling * Prediction.propagate problem.closedLoop.dynamics problem.system.input d

/-- In terms of the powers of the closed loop, the coupling is `B' P A ^ (d + 1) B + S' A ^ d B`. -/
theorem toMatrix_lagCoupling (d : Nat) :
    (problem.lagCoupling d).toMatrix =
      problem.system.input.toMatrixᵀ * problem.terminalWeight.toMatrix *
          problem.closedLoop.dynamics.toMatrix ^ (d + 1) * problem.system.input.toMatrix +
        problem.controlledCrossWeight.toMatrixᵀ * problem.closedLoop.dynamics.toMatrix ^ d *
          problem.system.input.toMatrix := by
  simp only [lagCoupling, freeCoupling, Regulator.coupling, Mat.toMatrix_add, Mat.toMatrix_mul,
    Mat.toMatrix_transpose, Prediction.toMatrix_propagate, Matrix.add_mul, pow_succ',
    Matrix.mul_assoc]

theorem block_priorCoupling (i j : Fin problem.horizon) :
    problem.priorCoupling.block i j =
      if j < i then problem.lagCoupling (i.val - 1 - j.val) else 0 := by
  rw [priorCoupling, Mat.block_repeated_mul, Prediction.inputsToPriorStates_eq, Mat.block_ofBlocks]
  split
  · rfl
  · apply Mat.toMatrix_inj.mp
    simp

variable (problem) in
/-- The block for two stages, by their distance. -/
noncomputable def distanceBlock (i j : Nat) : Mat ℝ m m :=
  if i = j then problem.freeCost
  else if j < i then problem.lagCoupling (i - 1 - j)
  else (problem.lagCoupling (j - 1 - i)).transpose

/-- A block of the quadratic term depends on the distance of its stages alone. -/
theorem HasLyapunovWeight.block_hessian (lyapunov : problem.HasLyapunovWeight)
    (symmetric : problem.inputWeight.toMatrix.IsSymm)
    (terminal : problem.terminalWeight.toMatrix.IsSymm) (i j : Fin problem.horizon) :
    problem.hessian.block i j = problem.distanceBlock i.val j.val := by
  have sum : (problem.hessian.block i j).toMatrix =
      ((repeated problem.horizon problem.freeCost).block i j).toMatrix +
        ((problem.priorCoupling.block i j).toMatrix +
          (problem.priorCoupling.block j i).toMatrixᵀ) := by
    simp only [Mat.toMatrix_block, lyapunov.toMatrix_hessian symmetric terminal,
      Matrix.transpose_submatrix]
    rfl
  apply Mat.toMatrix_inj.mp
  rw [sum, Mat.block_repeated, block_priorCoupling, block_priorCoupling, distanceBlock]
  simp only [Fin.ext_iff, Fin.lt_def]
  -- Off the diagonal one of the two couplings is left, and on it neither is.
  rcases lt_trichotomy i.val j.val with before | same | after
  · simp [before.ne, before, before.asymm]
  · simp [same]
  · simp [after.ne', after, after.asymm]

theorem HasLyapunovWeight.hessian_entry (lyapunov : problem.HasLyapunovWeight)
    (symmetric : problem.inputWeight.toMatrix.IsSymm)
    (terminal : problem.terminalWeight.toMatrix.IsSymm) (s t : Fin problem.horizon) (i j : Fin m) :
    problem.hessian (Stacked.index s i) (Stacked.index t j) =
      problem.distanceBlock s.val t.val i j := by
  rw [← Mat.block_entry, lyapunov.block_hessian symmetric terminal]

/-! ### Longer horizons -/

/-- The mean of a solution of the Lyapunov equation and its transpose is a solution as well. -/
theorem mean_of_lyapunov {A X Q : Matrix (Fin n) (Fin n) ℝ} (symmetric : Q.IsSymm)
    (equation : X = Aᵀ * X * A + Q) :
    (1 / 2 : ℝ) • (X + Xᵀ) = Aᵀ * ((1 / 2 : ℝ) • (X + Xᵀ)) * A + Q := by
  have mirrored : Xᵀ = Aᵀ * Xᵀ * A + Q := by
    have transposed := congrArg Matrix.transpose equation
    rwa [Matrix.transpose_add, Matrix.transpose_mul, Matrix.transpose_mul,
      Matrix.transpose_transpose, symmetric.eq, ← Matrix.mul_assoc] at transposed
  calc (1 / 2 : ℝ) • (X + Xᵀ)
      = (1 / 2 : ℝ) • ((Aᵀ * X * A + Q) + (Aᵀ * Xᵀ * A + Q)) := by rw [← equation, ← mirrored]
    _ = Aᵀ * ((1 / 2 : ℝ) • (X + Xᵀ)) * A + Q := by
      rw [Matrix.mul_smul, Matrix.smul_mul, Matrix.mul_add, Matrix.add_mul]
      module

/-- The terminal weight that is computed from the Lyapunov equation solves it, if the method does. -/
theorem hasLyapunovWeight_of_accepted {kit : Kernels ℝ} {spec : Specification ℝ}
    (accepted : Specification.problem kit problem.system spec = .ok { problem })
    (kind : problem.terminalKind = .lyapunov)
    (exact : ∀ A Q X : Mat ℝ n n, kit.lyapunov A Q = some X → X = A * X * A.transpose + Q) :
    problem.HasLyapunovWeight := by
  have terminal := (Specification.problem_eq_ok_iff.mp accepted).2.terminal
  rw [kind] at terminal
  have built := Specification.terminalOfKind_of_readTerminal terminal (by decide)
  rw [Specification.terminalOfKind] at built
  split at built
  · next X solved =>
    -- The solution is made symmetric: its mean with its transpose solves the equation as well.
    have mean : problem.terminalWeight = X.symmetrize := (Except.ok.inj built).symm
    have equation := congrArg Mat.toMatrix (exact _ _ _ solved)
    apply Mat.toMatrix_inj.mp
    simp only [Mat.toMatrix_add, Mat.toMatrix_mul, Mat.toMatrix_transpose,
      Matrix.transpose_transpose] at equation ⊢
    rw [mean, Mat.toMatrix_symmetrize]
    exact mean_of_lyapunov (Mat.isSymm_symmetrize _) equation
  · cases built

/-- With a terminal weight `P` that solves the Lyapunov equation of the closed loop, the quadratic term
is block Toeplitz, with `R + B' P B` on the diagonal and `B' P A ^ (i - j) B + S' A ^ (i - 1 - j) B`
below it, and its blocks are the leading ones of every longer horizon. -/
theorem hessian_blocks_independent_of_horizon
    (symmetric : problem.inputWeight.transpose = problem.inputWeight)
    (terminal : problem.terminalWeight.transpose = problem.terminalWeight)
    (lyapunov : problem.HasLyapunovWeight) :
    let A := problem.closedLoop.dynamics.toMatrix
    let B := problem.system.input.toMatrix
    let P := problem.terminalWeight.toMatrix
    let S := problem.controlledCrossWeight.toMatrix
    let H := problem.condense.blocks.hessian
    (∀ i j : Fin problem.horizon, j < i → ∃ M : Mat ℝ m m,
      H.block (.whole i.val) (.whole j.val) = .ok (.ofMat M) ∧
      H.block (.whole j.val) (.whole i.val) = .ok (.ofMat M.transpose) ∧
      M.toMatrix = Bᵀ * P * A ^ (i.val - j.val) * B + Sᵀ * A ^ (i.val - 1 - j.val) * B) ∧
    (∀ i : Fin problem.horizon, ∃ M : Mat ℝ m m,
      H.block (.whole i.val) (.whole i.val) = .ok (.ofMat M) ∧
      M.toMatrix = problem.inputWeight.toMatrix + Bᵀ * P * B) ∧
    ∀ (N : Nat) (longer : problem.horizon ≤ N),
      let extended := problem.withHorizon N (problem.horizon_pos.trans longer)
      (∀ kit spec, Specification.problem kit problem.system spec = .ok { problem } →
        Specification.problem kit problem.system { spec with horizon := .whole N } =
          .ok { problem := extended }) ∧
      ∀ i j : Fin problem.horizon,
        extended.condense.blocks.hessian.block (.whole i.val) (.whole j.val) =
          H.block (.whole i.val) (.whole j.val) := by
  intro A B P S H
  have input := Mat.isSymm_of_transpose_eq symmetric
  have last := Mat.isSymm_of_transpose_eq terminal
  have blocks (i j : Fin problem.horizon) :
      H.block (.whole i.val) (.whole j.val) = .ok (.ofMat (problem.distanceBlock i.val j.val)) := by
    rw [← lyapunov.block_hessian input last]
    exact BlockMatrix.block_square problem.hessian i j
  refine ⟨fun i j before => ?_, fun i => ?_, fun N longer => ⟨fun kit spec accepted => ?_, ?_⟩⟩
  · have earlier : j.val < i.val := before
    have distance : i.val - 1 - j.val + 1 = i.val - j.val := by omega
    have formula := problem.toMatrix_lagCoupling (i.val - 1 - j.val)
    rw [distance] at formula
    refine ⟨problem.lagCoupling (i.val - 1 - j.val), ?_, ?_, formula⟩
    · rw [blocks, distanceBlock, if_neg (by omega), if_pos earlier]
    · rw [blocks, distanceBlock, if_neg (by omega), if_neg (by omega)]
  · refine ⟨problem.freeCost, ?_, ?_⟩
    · rw [blocks, distanceBlock, if_pos rfl]
    · simp only [freeCost, Regulator.inputCost, Mat.toMatrix_add, Mat.toMatrix_mul,
        Mat.toMatrix_transpose, B, P]
  · exact Specification.problem_withHorizon accepted _
  · intro i j
    let extended := problem.withHorizon N (problem.horizon_pos.trans longer)
    -- The data of a block do not change with the horizon, and neither does the equation.
    have lyapunov' : extended.HasLyapunovWeight := lyapunov
    have leading := BlockMatrix.block_square extended.hessian (i.castLE longer) (j.castLE longer)
    rw [lyapunov'.block_hessian input last] at leading
    rw [blocks]
    exact leading

section Doubling

variable {N : Nat} {positive : 1 ≤ N} {weight gain terminal : ℝ} {ends : Extended ℝ × Extended ℝ}

theorem hasLyapunovWeight_doubling
    (equation : terminal = (2 - gain) ^ 2 * terminal + (weight - 2 * gain + gain ^ 2)) :
    (doubling N positive weight gain terminal ends).HasLyapunovWeight := by
  apply Mat.toMatrix_inj.mp
  ext i j
  simp [doubling, closedLoop, LinearSystem.closedLoop, controlledStateWeight, controlledWeight,
    Mat.toMatrix_symmetrize, Matrix.mul_apply]
  linear_combination equation

/-- With a single state and a single input, an entry of the quadratic term is a block. -/
theorem hessian_doubling
    (lyapunov : (doubling N positive weight gain terminal ends).HasLyapunovWeight) (s t : Fin N) :
    (doubling N positive weight gain terminal ends).hessian (Stacked.index s 0) (Stacked.index t 0) =
      (doubling N positive weight gain terminal ends).distanceBlock s.val t.val 0 0 := by
  have input : (doubling N positive weight gain terminal ends).inputWeight.toMatrix.IsSymm :=
    Mat.isSymm_of_transpose_eq Mat.transpose_identity
  have last : (doubling N positive weight gain terminal ends).terminalWeight.toMatrix.IsSymm :=
    Matrix.IsSymm.ext fun i j => by rw [Subsingleton.elim i j]
  exact lyapunov.hessian_entry input last s t 0 0

theorem freeCost_doubling :
    (doubling N positive weight gain terminal ends).freeCost 0 0 = 1 + terminal := by
  rw [← Mat.toMatrix_apply]
  simp [doubling, freeCost, Regulator.inputCost]

theorem lagCoupling_doubling :
    (doubling N positive weight gain terminal ends).lagCoupling 0 0 0 =
      terminal * (2 - gain) + (1 - gain) := by
  rw [← Mat.toMatrix_apply, toMatrix_lagCoupling]
  simp [doubling, closedLoop, LinearSystem.closedLoop, controlledCrossWeight, controlledCross,
    Matrix.mul_apply]

end Doubling

/-- Under the gain the state of the problem turns around and halves in every stage, and every free
variable is coupled to the later ones. -/
theorem hessian_blocks_independent_of_horizon_doubling :
    let problem := doubling 2 one_le_two 1 (5 / 2) 3 (.bottom, .top)
    problem.inputWeight.transpose = problem.inputWeight ∧
    problem.terminalWeight.transpose = problem.terminalWeight ∧
    problem.HasLyapunovWeight ∧
    ∃ M : Mat ℝ 1 1,
      problem.condense.blocks.hessian.block (.whole 1) (.whole 0) = .ok (.ofMat M) ∧ M 0 0 = -3 := by
  intro problem
  have symmetric : problem.inputWeight.transpose = problem.inputWeight := Mat.transpose_identity
  have terminal : problem.terminalWeight.transpose = problem.terminalWeight := by
    ext i j
    simp [problem, doubling]
  have lyapunov : problem.HasLyapunovWeight := hasLyapunovWeight_doubling (by norm_num)
  obtain ⟨M, block, -, formula⟩ :=
    (hessian_blocks_independent_of_horizon symmetric terminal lyapunov).1 (1 : Fin 2) (0 : Fin 2)
      (by decide)
  refine ⟨symmetric, terminal, lyapunov, M, block, ?_⟩
  have entry := congrFun (congrFun formula 0) 0
  rw [Mat.toMatrix_apply] at entry
  rw [entry]
  simp [problem, doubling, closedLoop, LinearSystem.closedLoop, controlledCrossWeight,
    controlledCross, Matrix.mul_apply]
  norm_num

end ConstrainedLqr

end RecedingHorizon
