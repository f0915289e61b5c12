import RecedingHorizon.Proofs.Condensing.Toeplitz
import RecedingHorizon.Proofs.Controller.Accuracy
import RecedingHorizon.Proofs.Exact.Cholesky

/-!
# Definite quadratic terms

If no stage and no last state has a negative cost, the quadratic term of an accepted problem is positive
definite: the check of the input weight makes every stage of the Riccati recursion definite, whatever the
gain and the cross weight are. Then the bounds on the curvature that a controller computes are positive
(`posDef_hessian_of_accepted`).
-/

namespace RecedingHorizon.ConstrainedLqr

open RecedingHorizon.Gradient Matrix

variable {n m p : Nat} {problem : ConstrainedLqr ℝ n m p} {kit : Kernels ℝ}

variable (problem) in
/-- The weight `[[Q, S], [S', R]]` of a stage. -/
noncomputable def stageWeight : Matrix (Fin n ⊕ Fin m) (Fin n ⊕ Fin m) ℝ :=
  fromBlocks problem.stateWeight.toMatrix problem.crossWeight.toMatrix problem.crossWeight.toMatrixᵀ
    problem.inputWeight.toMatrix

/-- The cost of a stage is the quadratic form of its weight. -/
theorem stageCost_eq_dotProduct (x : Vec ℝ n) (u : Vec ℝ m) :
    problem.stageCost x u =
      Sum.elim x.get u.get ⬝ᵥ problem.stageWeight *ᵥ Sum.elim x.get u.get := by
  have mirrored : u.get ⬝ᵥ problem.crossWeight.toMatrixᵀ *ᵥ x.get =
      x.get ⬝ᵥ problem.crossWeight.toMatrix *ᵥ u.get := by
    rw [dotProduct_transpose_mulVec, dotProduct_comm]
  rw [stageWeight, fromBlocks_mulVec, Sum.elim_comp_inl, Sum.elim_comp_inr,
    sumElim_dotProduct_sumElim, dotProduct_add, dotProduct_add, mirrored, stageCost, Scalar.two_eq,
    Vec.dot_eq, Vec.dot_eq, Vec.dot_eq, Mat.get_mulVec, Mat.get_mulVec, Mat.get_mulVec]
  ring

theorem stageCost_nonneg (stage : problem.stageWeight.PosSemidef) (x : Vec ℝ n) (u : Vec ℝ m) :
    0 ≤ problem.stageCost x u := by
  rw [stageCost_eq_dotProduct]
  simpa using stage.dotProduct_mulVec_nonneg (Sum.elim x.get u.get)

/-- A symmetric weight of the stages and of the last state. -/
theorem isSymmetric_of_stageWeight (stage : problem.stageWeight.IsHermitian)
    (terminal : problem.terminalWeight.toMatrix.IsHermitian) : problem.IsSymmetric := by
  obtain ⟨state, -, -, input⟩ := isHermitian_fromBlocks_iff.mp stage
  have transposed {k : Nat} {M : Mat ℝ k k} (hermitian : M.toMatrix.IsHermitian) :
      M.transpose = M := by
    apply Mat.toMatrix_inj.mp
    rw [Mat.toMatrix_transpose, ← conjTranspose_eq_transpose_of_trivial]
    exact hermitian
  exact ⟨transposed state, transposed input, transposed terminal⟩

/-- The check of the weight of the inputs makes it positive definite, if it is symmetric. -/
theorem posDef_inputWeight {spec : Specification ℝ}
    (accepted : Specification.problem kit problem.system spec = .ok { problem })
    (symmetric : problem.inputWeight.toMatrix.IsSymm) : problem.inputWeight.toMatrix.PosDef :=
  Mat.posDef_of_isPositiveDefinite symmetric
    (Specification.isPositiveDefinite_of_readWeights
      (Specification.problem_eq_ok_iff.mp accepted).2.weights)

theorem posDef_hessian_of_posSemidef {spec : Specification ℝ}
    (accepted : Specification.problem kit problem.system spec = .ok { problem })
    (stage : problem.stageWeight.PosSemidef)
    (terminal : problem.terminalWeight.toMatrix.PosSemidef) : problem.hessian.toMatrix.PosDef := by
  have symmetric := isSymmetric_of_stageWeight stage.isHermitian terminal.isHermitian
  have weight := posDef_inputWeight accepted (Mat.isSymm_of_transpose_eq symmetric.input)
  exact problem.posDef_hessian symmetric
    (problem.hasDefiniteStages_of_nonneg symmetric weight terminal (stageCost_nonneg stage))

/-- If the weights of the stages and of the last state are positive semidefinite, the quadratic term of
an accepted problem is symmetric and positive definite for every horizon and gain, and so the bounds on
its eigenvalues that a controller computes are positive and in order. -/
theorem posDef_hessian_of_accepted {spec : Specification ℝ}
    (accepted : Specification.problem kit problem.system spec = .ok { problem })
    (stage : problem.stageWeight.PosSemidef)
    (terminal : problem.terminalWeight.toMatrix.PosSemidef) :
    problem.hessian.transpose = problem.hessian ∧
    (∀ v, v ≠ Vec.zeros _ → 0 < Vec.dot v (problem.hessian.mulVec v)) ∧
    ∀ values, kit.eigenvalues problem.hessian = .ok values → IsSpectrum problem.hessian values →
      (0 < m → ∃ L μ, eigenvalueBounds kit problem.hessian = .ok (L, μ) ∧ 0 < μ ∧ μ ≤ L) ∧
      ∀ (σ : Type) (settings : ControlSettings ℝ σ) c,
        Controller.ofProblem kit problem settings = .ok c →
          0 < c.smallest ∧ c.smallest ≤ c.largest := by
  have definite := posDef_hessian_of_posSemidef accepted stage terminal
  have bounds {values : Vec ℝ (problem.horizon * m)} {L μ : ℝ}
      (evaluated : kit.eigenvalues problem.hessian = .ok values)
      (exact : IsSpectrum problem.hessian values)
      (computed : eigenvalueBounds kit problem.hessian = .ok (L, μ)) : 0 < μ ∧ μ ≤ L := by
    obtain ⟨positive, ordered, -⟩ := hasCurvature_eigenvalueBounds exact definite evaluated
      problem.transpose_hessian computed
    exact ⟨positive, ordered⟩
  refine ⟨problem.transpose_hessian, fun v other => ?_, fun values evaluated exact =>
    ⟨fun width => ?_, fun σ settings c made => ?_⟩⟩
  · have nonzero : v.get ≠ 0 := fun zero =>
      other (Vec.get_inj.mp (zero.trans Vec.get_zeros.symm))
    have positive := definite.dotProduct_mulVec_pos nonzero
    rwa [star_trivial, ← Mat.get_mulVec, ← Vec.dot_eq] at positive
  · have rows : 0 < problem.horizon * m := Nat.mul_pos problem.horizon_pos width
    have computed := eigenvalueBounds_eq exact definite evaluated rows
    exact ⟨_, _, computed, bounds evaluated exact computed⟩
  · obtain ⟨_, _, _, -, computed, rfl⟩ := Controller.ofProblem_eq_ok made
    exact bounds evaluated exact computed

/-! ### Two coupled stages -/

/-- Methods that only know the eigenvalues one and seven. -/
noncomputable def twoEigenvalues : Kernels ℝ :=
  { identityKernels with eigenvalues := fun _ => .ok (Vec.ofFn fun i => 1 + 6 * i.val) }

theorem entry_hessian_doubling (s t : Fin 2) :
    (doubling 2 one_le_two 1 (5 / 2) 3 (.bottom, .top)).hessian (Stacked.index s 0)
      (Stacked.index t 0) = if s = t then 4 else -3 := by
  rw [hessian_doubling (hasLyapunovWeight_doubling (by norm_num))]
  fin_cases s <;> fin_cases t <;> simp [distanceBlock, freeCost_doubling, lagCoupling_doubling] <;>
    norm_num

/-- Two stages that count the same, each with one input, have two eigenvalues around their own cost. -/
theorem isSpectrum_pair {M : Mat ℝ (2 * 1) (2 * 1)} {own coupled low step : ℝ}
    (entries : ∀ s t, M (Stacked.index s 0) (Stacked.index t 0) = if s = t then own else coupled)
    (ordered : 0 ≤ step) (sum : own + own = low + (low + step))
    (product : own * own - coupled * coupled = low * (low + step)) :
    IsSpectrum M (Vec.ofFn fun i => low + step * i.val) := by
  have matrix : M.toMatrix = (!![own, coupled; coupled, own] : Matrix (Fin 2) (Fin 2) ℝ) := by
    ext i j
    fin_cases i <;> fin_cases j
    exacts [entries 0 0, entries 0 1, entries 1 0, entries 1 1]
  have pair : IsSpectrum (n := 2) M (Vec.ofFn fun i => low + step * i.val) := by
    refine isSpectrum_of_trace_det ?_ ?_ ?_
    · simpa using ordered
    · rw [matrix, Matrix.trace_fin_two_of, sum]
      simp
    · rw [matrix, Matrix.det_fin_two_of, product]
      simp
  exact pair

/-- Neither the stages nor the last state have a negative cost, but a stage can be free of cost. -/
theorem posDef_hessian_of_accepted_doubling :
    let problem := doubling 2 one_le_two 1 (5 / 2) 3 (.bottom, .top)
    let spec := doublingSpecification 2 1 (5 / 2) 3 (.bottom, .top)
    Specification.problem twoEigenvalues problem.system spec = .ok { problem } ∧
    problem.stageWeight.PosSemidef ∧ problem.terminalWeight.toMatrix.PosSemidef ∧
    (∀ v, v ≠ Vec.zeros _ → 0 < Vec.dot v (problem.hessian.mulVec v)) ∧
    ∃ L μ, eigenvalueBounds twoEigenvalues problem.hessian = .ok (L, μ) ∧ 0 < μ ∧ μ ≤ L := by
  intro problem spec
  have accepted : Specification.problem twoEigenvalues problem.system spec = .ok { problem } :=
    problem_doublingSpecification twoEigenvalues one_le_two 1 (5 / 2) 3 rfl
  have stage : problem.stageWeight.PosSemidef := by
    have square : problem.stageWeight = vecMulVec 1 (star 1) := by
      ext i j
      rcases i with i | i <;> rcases j with j | j <;>
        simp [problem, stageWeight, doubling, vecMulVec_apply, Subsingleton.elim i j]
    rw [square]
    exact posSemidef_vecMulVec_self_star 1
  have terminal : problem.terminalWeight.toMatrix.PosSemidef := by
    have multiple : problem.terminalWeight.toMatrix = (3 : ℝ) • (1 : Matrix (Fin 1) (Fin 1) ℝ) := by
      ext i j
      simp [problem, doubling, Subsingleton.elim i j]
    rw [multiple]
    exact PosSemidef.one.smul (by norm_num)
  have spectrum : IsSpectrum problem.hessian (Vec.ofFn fun i => 1 + 6 * i.val) :=
    isSpectrum_pair entry_hessian_doubling (by norm_num) (by norm_num) (by norm_num)
  obtain ⟨-, definite, controlled⟩ := posDef_hessian_of_accepted accepted stage terminal
  exact ⟨accepted, stage, terminal, definite, (controlled _ rfl spectrum).1 Nat.one_pos⟩

end RecedingHorizon.ConstrainedLqr
