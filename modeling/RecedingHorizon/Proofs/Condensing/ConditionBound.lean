import Mathlib.Analysis.Complex.Polynomial.Basic
import Mathlib.Analysis.InnerProductSpace.Positive
import RecedingHorizon.Proofs.Condensing.Frequency
import RecedingHorizon.Proofs.Condensing.Samples
import RecedingHorizon.Proofs.Controller.Definiteness
import RecedingHorizon.Proofs.Exact.Kernels
import RecedingHorizon.Proofs.Gradient.SingularValues

/-!
# The bound on the condition number

The bound that is computed from samples of the symbol takes no notice of the horizon and of the
terminal weight. If the terminal weight solves the Lyapunov equation, the bound is at least the
condition number of the quadratic term, for every horizon, once the samples are dense enough
(`conditionNumber_le_conditionBound`). For other terminal weights it is not, however dense the samples
are (`conditionBound_lt_conditionNumber`).
-/

namespace RecedingHorizon

open Matrix Metric Polynomial Real Topology ComplexOrder

variable {n m p : Nat}

theorem Mat.posSemidef_overComplex {M : Mat ℝ n n} (semidefinite : M.toMatrix.PosSemidef) :
    M.overComplex.PosSemidef := by
  -- The squares that a real matrix is the sum of are squares of complex vectors too.
  obtain ⟨k, v, squares⟩ := Matrix.posSemidef_iff_eq_sum_vecMulVec.mp semidefinite
  refine Matrix.posSemidef_iff_eq_sum_vecMulVec.mpr ⟨k, fun i a => (v i a : ℝ), ?_⟩
  ext a b
  rw [overComplex, squares, Matrix.map_apply, Matrix.sum_apply, Matrix.sum_apply, map_sum]
  refine Finset.sum_congr rfl fun i _ => ?_
  simp [Matrix.vecMulVec_apply]

namespace ConstrainedLqr

variable {problem : ConstrainedLqr ℝ n m p} {kit : Kernels ℝ} {z : ℂ}

/-! ### The symbol on the circle -/

theorem isHermitian_symbolAt (symmetric : problem.inputWeight.transpose = problem.inputWeight)
    (z : ℂ) : (problem.symbolAt z).IsHermitian := by
  have mirrored : problem.controlledStateWeight.transpose = problem.controlledStateWeight := by
    apply Mat.toMatrix_inj.mp
    rw [Mat.toMatrix_transpose]
    exact Mat.isSymm_symmetrize _
  have state := Mat.isHermitian_overComplex mirrored
  have input := Mat.isHermitian_overComplex symmetric
  rw [symbolAt, sub_sub]
  exact ((isHermitian_conjTranspose_mul_mul _ state).sub (Matrix.isHermitian_add_transpose_self _)).add
    input

/-- Without a cross weight, the symbol is what the states and the inputs of a frequency cost. -/
theorem symbolAt_eq_costs (symmetric : problem.IsSymmetric) (uncrossed : problem.crossWeight = 0)
    (onCircle : z ∈ sphere (0 : ℂ) 1) :
    problem.symbolAt z =
      (problem.response z)ᴴ * problem.stateWeight.overComplex * problem.response z +
        (1 - problem.gain.overComplex * problem.response z)ᴴ * problem.inputWeight.overComplex *
          (1 - problem.gain.overComplex * problem.response z) := by
  -- The weight of the controlled states is what states and inputs cost under the feedback.
  have weight : problem.controlledStateWeight.overComplex = problem.stateWeight.overComplex +
      problem.gain.overComplexᴴ * problem.inputWeight.overComplex * problem.gain.overComplex := by
    have equation : problem.controlledStateWeight = problem.stateWeight +
        problem.gain.transpose * problem.inputWeight * problem.gain := by
      apply Mat.toMatrix_inj.mp
      rw [problem.toMatrix_controlledStateWeight_of_isSymm
        (Mat.isSymm_of_transpose_eq symmetric.state) (Mat.isSymm_of_transpose_eq symmetric.input),
        uncrossed]
      simp
    rw [equation, Mat.overComplex_add, Mat.overComplex_mul, Mat.overComplex_mul,
      Mat.overComplex_transpose]
  have input := (Mat.isHermitian_overComplex symmetric.input).eq
  rw [symbolAt, Circle.conjTranspose_smul_mul_smul onCircle, weight]
  simp only [Mat.overComplex_mul, Matrix.conjTranspose_sub, Matrix.conjTranspose_mul,
    Matrix.conjTranspose_one, Matrix.mul_add, Matrix.add_mul, Matrix.mul_sub, Matrix.sub_mul,
    Matrix.one_mul, Matrix.mul_one, Matrix.mul_assoc, input]
  abel

theorem posSemidef_symbolAt (symmetric : problem.IsSymmetric) (uncrossed : problem.crossWeight = 0)
    (state : problem.stateWeight.toMatrix.PosSemidef)
    (input : problem.inputWeight.toMatrix.PosSemidef) (onCircle : z ∈ sphere (0 : ℂ) 1) :
    (problem.symbolAt z).PosSemidef := by
  rw [symbolAt_eq_costs symmetric uncrossed onCircle]
  exact ((Mat.posSemidef_overComplex state).conjTranspose_mul_mul_same _).add
    ((Mat.posSemidef_overComplex input).conjTranspose_mul_mul_same _)

/-! ### Extreme eigenvalues -/

theorem IsStable.continuousOn_symbolAt (stable : problem.IsStable) (a b : Fin m) :
    ContinuousOn (fun z => problem.symbolAt z a b) (sphere 0 1) := by
  rw [continuousOn_iff_continuous_domRestrict]
  exact stable.continuous_symbolAt.matrix_elem a b

/-- For every eigenvalue of the quadratic term, dense samples have an eigenvalue of the symbol that is
at least as large, and one that is at most as large. -/
theorem HasLyapunovWeight.eventually_sampledValues (lyapunov : problem.HasLyapunovWeight)
    (stable : problem.IsStable) (uncrossed : problem.crossWeight = 0)
    (symmetric : problem.IsSymmetric) {values : Vec ℝ (problem.horizon * m)}
    (spectrum : IsSpectrum problem.hessian values) (i : Fin (problem.horizon * m)) :
    ∀ᶠ samples in Filter.atTop, (∃ s ∈ problem.sampledValues samples, values i ≤ s) ∧
      ∃ s ∈ problem.sampledValues samples, s ≤ values i := by
  have hermitian := isHermitian_symbolAt symmetric.input
  obtain ⟨x, nonzero, stretched⟩ := spectrum.exists_eigenvector i
  have direction : x.get ≠ 0 := fun zero => nonzero (Vec.get_inj.mp (zero.trans Vec.get_zeros.symm))
  have quotient : x.get ⬝ᵥ problem.hessian.toMatrix *ᵥ x.get = values i * (x.get ⬝ᵥ x.get) := by
    rw [← Mat.get_mulVec, stretched, Vec.get_scale, dotProduct_smul, smul_eq_mul]
  have blocks (s t : Fin problem.horizon) (a b : Fin m) :
      circleAverage (fun z => z ^ ((s.val : ℤ) - t.val) * problem.symbolAt z a b) 0 1 =
        (problem.hessian.block s t).overComplex a b := by
    rw [lyapunov.block_hessian (Mat.isSymm_of_transpose_eq symmetric.input)
      (Mat.isSymm_of_transpose_eq symmetric.terminal)]
    exact lyapunov.average_symbolAt stable uncrossed symmetric.input symmetric.terminal _ _ a b
  have arc := Vec.exists_eventually_form stable.continuousOn_symbolAt blocks direction quotient
  -- On one arc the symbol is at least the eigenvalue in some direction, on another one at most it. Fine
  -- samples meet both.
  obtain ⟨z₁, onCircle₁, above⟩ := arc 1
  obtain ⟨z₂, onCircle₂, below⟩ := arc (-1)
  filter_upwards [eventually_exists_samplePoint onCircle₁ above,
    eventually_exists_samplePoint onCircle₂ below] with samples reached₁ reached₂
  constructor
  · obtain ⟨k, listed, away, side⟩ := reached₁
    obtain ⟨s, root, large⟩ := exists_le_mem_spectrum (r := values i) (hermitian _) away
      (by linarith)
    exact ⟨s, ⟨k, listed, root⟩, large⟩
  · obtain ⟨k, listed, away, side⟩ := reached₂
    obtain ⟨s, root, small⟩ := exists_mem_spectrum_le (r := values i) (hermitian _) away
      (by linarith)
    exact ⟨s, ⟨k, listed, root⟩, small⟩

end ConstrainedLqr

/-! ### The bound -/

/-- The largest magnitude of an eigenvalue is found exactly, if the matrix has any row. -/
def Kernels.EvaluatesRadius (kit : Kernels ℝ) : Prop :=
  ∀ {n : Nat} (M : Mat ℝ n n), 0 < n →
    ∃ ρ, kit.spectralRadius M = .ok ρ ∧ IsGreatest ((‖·‖) '' spectrum ℂ M.overComplex) ρ

/-- The methods that the bound relies on are exact. -/
structure Kernels.AnalysesExactly (kit : Kernels ℝ) : Prop where
  radius : kit.EvaluatesRadius
  solves : kit.SolvesComplex
  hermitian : kit.EvaluatesHermitian

open Classical in
/-- Methods that find what is exact, where there is anything. -/
noncomputable def exactAnalysis : Kernels ℝ :=
  { (Kernels.unable : Kernels ℝ) with
    spectralRadius := fun M =>
      if h : ∃ ρ, IsGreatest ((‖·‖) '' spectrum ℂ M.overComplex) ρ then .ok h.choose
      else .error .singular
    solveComplex := fun M Y => if h : ∃ X, M * X = Y then .ok h.choose else .error .singular
    hermitianEigenvalues := fun M =>
      if h : ∃ values, IsHermitianSpectrum M.toComplexMatrix values then .ok h.choose
      else .error .singular }

theorem analysesExactly_exactAnalysis : exactAnalysis.AnalysesExactly where
  radius {n} M rows := by
    have : Nonempty (Fin n) := ⟨⟨0, rows⟩⟩
    have known : ∃ ρ, IsGreatest ((‖·‖) '' spectrum ℂ M.overComplex) ρ := by
      obtain ⟨r, root, largest⟩ := Set.exists_max_image _ (‖·‖) (Matrix.finite_spectrum M.overComplex)
        (spectrum.nonempty_of_isAlgClosed_of_finiteDimensional ℂ M.overComplex)
      exact ⟨‖r‖, ⟨r, root, rfl⟩, fun _ ⟨s, other, same⟩ => same ▸ largest s other⟩
    exact ⟨_, dif_pos known, known.choose_spec⟩
  solves {n k} M Y unit := by
    have known : ∃ X : Mat (Complex ℝ) n k, M * X = Y := by
      refine ⟨.ofComplexMatrix (M.toComplexMatrix⁻¹ * Y.toComplexMatrix), ?_⟩
      apply Mat.toComplexMatrix_inj.mp
      rw [Mat.toComplexMatrix_mul, Mat.toComplexMatrix_ofComplexMatrix,
        Matrix.mul_nonsing_inv_cancel_left _ _ ((Matrix.isUnit_iff_isUnit_det _).mp unit)]
    exact ⟨_, dif_pos known, known.choose_spec⟩
  hermitian M hermitian := by
    have known : ∃ values, IsHermitianSpectrum M.toComplexMatrix values :=
      ⟨_, monotone_sortedEigenvalues hermitian, charpoly_eq_sortedEigenvalues hermitian⟩
    exact ⟨_, dif_pos known, known.choose_spec⟩

namespace ConstrainedLqr

variable {problem : ConstrainedLqr ℝ n m p} {kit : Kernels ℝ}

theorem isStable_closedLoop (exact : kit.EvaluatesRadius) (stable : problem.IsStable)
    (states : 0 < n) : problem.closedLoop.isStable kit = .ok true := by
  obtain ⟨ρ, computed, ⟨r, root, rfl⟩, -⟩ := exact problem.closedLoop.dynamics states
  have inside : ‖r‖ < 1 := stable r root
  simp [LinearSystem.isStable, LinearSystem.spectralRadius, computed, bind, Except.bind, pure,
    Except.pure, inside]

theorem hasCrossWeight_eq_false (uncrossed : problem.crossWeight = 0) :
    problem.hasCrossWeight = false :=
  Mat.anyEntry_eq_false.mpr fun i j => by simp [uncrossed]

/-- A stable problem without cross weight has its bound computed from the samples. -/
theorem conditionBound_eq_sampledRatio (exact : kit.EvaluatesRadius) (stable : problem.IsStable)
    (uncrossed : problem.crossWeight = 0) (states : 0 < n) {samples : Nat} (some : 0 < samples) :
    problem.conditionBound kit .nothing (.whole samples) =
      problem.sampledRatio kit (Mat.identity m) samples := by
  have counted : (Argument.whole samples : Argument ℝ).isBelow 1 = .ok false := by
    simp [Argument.isBelow, Nat.one_le_iff_ne_zero.mp some]
  simp only [conditionBound, isStable_closedLoop exact stable states,
    hasCrossWeight_eq_false uncrossed, counted, Argument.toLength_whole, readPreconditioner, bind,
    Except.bind]
  rfl

/-- If the terminal weight solves the Lyapunov equation, the bound is at least the condition number of
the quadratic term, once the samples are dense enough. The quotient is unbounded if the smallest of the
sampled eigenvalues vanishes. -/
theorem conditionNumber_le_conditionBound {spec : Specification ℝ} {κ : ℝ}
    (accepted : Specification.problem kit problem.system spec = .ok { problem })
    (exact : kit.AnalysesExactly) (states : 0 < n) (inputs : 0 < m)
    (uncrossed : problem.crossWeight = 0) (stable : problem.IsStable)
    (symmetric : problem.IsSymmetric) (state : problem.stateWeight.toMatrix.PosSemidef)
    (lyapunov : problem.HasLyapunovWeight) (definite : problem.hessian.toMatrix.PosDef)
    (condition : IsConditionNumber problem.hessian κ) :
    ∃ enough : Nat, ∀ samples : Nat, 0 < samples → ∃ largest smallest,
      problem.conditionBound kit .nothing (.whole samples) = .ok (largest / smallest) ∧
      0 ≤ smallest ∧ smallest ≤ largest ∧ (enough ≤ samples → κ * smallest ≤ largest) := by
  have rows : 0 < problem.horizon * m := Nat.mul_pos problem.horizon_pos inputs
  have hessian := problem.transpose_hessian
  obtain ⟨values, spectrum⟩ := exists_isSpectrum hessian
  obtain rfl := condition.unique (spectrum.isConditionNumber definite hessian rows)
  have input := posDef_inputWeight accepted (Mat.isSymm_of_transpose_eq symmetric.input)
  obtain ⟨enough, dense⟩ := Filter.eventually_atTop.mp <|
    (lyapunov.eventually_sampledValues stable uncrossed symmetric spectrum
      ⟨problem.horizon * m - 1, Nat.sub_one_lt_of_lt rows⟩).and
    (lyapunov.eventually_sampledValues stable uncrossed symmetric spectrum ⟨0, rows⟩)
  refine ⟨enough, fun samples some => ?_⟩
  obtain ⟨largest, smallest, computed, greatest, least⟩ := sampledRatio_eq_ok exact.solves
    exact.hermitian stable (fun z _ => isHermitian_symbolAt symmetric.input z) some inputs
  obtain ⟨member, -, same⟩ := least.1
  refine ⟨largest, smallest, ?_, same ▸ abs_nonneg member, greatest.2 least.1, fun reached => ?_⟩
  · rw [conditionBound_eq_sampledRatio exact.radius stable uncrossed states some, computed]
  obtain ⟨⟨⟨high, sampled, above⟩, -⟩, -, low, sampled', below⟩ := dense samples reached
  have upper : high ≤ largest := (le_abs_self high).trans (greatest.2 ⟨high, sampled, rfl⟩)
  have lower : smallest ≤ low := by
    -- The symbol is semidefinite, so that the magnitude of its eigenvalue is the eigenvalue itself.
    obtain ⟨k, -, root⟩ := id sampled'
    have nonneg := nonneg_of_mem_spectrum (isHermitian_symbolAt symmetric.input _)
      (posSemidef_symbolAt symmetric uncrossed state input.posSemidef (samplePoint_mem_sphere _ _))
      root
    have bound : smallest ≤ |low| := least.2 ⟨low, sampled', rfl⟩
    rwa [abs_of_nonneg nonneg] at bound
  have first := spectrum.pos definite ⟨0, rows⟩
  rw [div_mul_eq_mul_div, div_le_iff₀ first]
  calc values ⟨problem.horizon * m - 1, Nat.sub_one_lt_of_lt rows⟩ * smallest
      ≤ values ⟨problem.horizon * m - 1, Nat.sub_one_lt_of_lt rows⟩ * values ⟨0, rows⟩ :=
        mul_le_mul_of_nonneg_left (lower.trans below) (spectrum.pos definite _).le
    _ ≤ largest * values ⟨0, rows⟩ := mul_le_mul_of_nonneg_right (above.trans upper) first.le

/-! ### A state that decays -/

/-- A state that decays by a factor in every stage, and costs of states and inputs without coupling. -/
noncomputable def decaying (N : Nat) (positive : 1 ≤ N) (decay weight terminal : ℝ) :
    ConstrainedLqr ℝ 1 1 0 :=
  { doubling N positive weight 0 terminal (.bottom, .top) with
    system := { dynamics := Mat.ofFn fun _ _ => decay, input := Mat.identity 1, interval := 1 }
    crossWeight := 0 }

/-- The specification that lists the data of the problem. -/
noncomputable def decayingSpecification (N : Nat) (weight terminal : ℝ) : Specification ℝ :=
  { doublingSpecification N weight 0 terminal (.bottom, .top) with crossWeight := .nothing }

section Decaying

variable {N : Nat} {positive : 1 ≤ N} {decay weight terminal : ℝ}

theorem problem_decayingSpecification (kit : Kernels ℝ) :
    let problem := decaying N positive decay weight terminal
    Specification.problem kit problem.system (decayingSpecification N weight terminal) =
      .ok { problem } := by
  have accepted : let problem := doubling N positive weight 0 terminal (.bottom, .top)
      Specification.problem kit problem.system
        (doublingSpecification N weight 0 terminal (.bottom, .top)) = .ok { problem } :=
    problem_doublingSpecification kit positive weight 0 terminal rfl
  obtain ⟨-, yields⟩ := Specification.problem_eq_ok_iff.mp accepted
  -- Neither the gain nor the terminal weight was computed from the system or the cross weight.
  exact Specification.problem_eq_ok_iff.mpr ⟨rfl, {
    horizon := yields.horizon
    weights := yields.weights
    cross := rfl
    gain := yields.gain
    stage := yields.stage
    terminal := yields.terminal
    bounds := yields.bounds }⟩

theorem transpose_one_entry (M : Mat ℝ 1 1) : M.transpose = M :=
  Mat.ext fun i j => by rw [Mat.transpose_entry, Subsingleton.elim i j]

theorem isSymmetric_decaying : (decaying N positive decay weight terminal).IsSymmetric :=
  ⟨transpose_one_entry _, transpose_one_entry _, transpose_one_entry _⟩

theorem overComplex_closedLoop_decaying :
    (decaying N positive decay weight terminal).closedLoop.dynamics.overComplex =
      algebraMap ℂ _ (decay : ℂ) := by
  ext i j
  simp [decaying, doubling, closedLoop, LinearSystem.closedLoop, Mat.overComplex,
    Matrix.algebraMap_matrix_apply, Subsingleton.elim i j]

theorem isStable_decaying (inside : |decay| < 1) :
    (decaying N positive decay weight terminal).IsStable := by
  intro r root
  rw [overComplex_closedLoop_decaying, spectrum.scalar_eq, Set.mem_singleton_iff] at root
  rw [root, Complex.norm_real]
  exact inside

theorem posSemidef_stageWeight_decaying (nonneg : 0 ≤ weight) :
    (decaying N positive decay weight terminal).stageWeight.PosSemidef := by
  have separate : (decaying N positive decay weight terminal).stageWeight =
      Matrix.diagonal (Sum.elim (fun _ => weight) fun _ => 1) := by
    ext i j
    rcases i with i | i <;> rcases j with j | j <;>
      simp [decaying, doubling, stageWeight, Subsingleton.elim i j]
  rw [separate]
  refine Matrix.PosSemidef.diagonal fun i => ?_
  rcases i with i | i
  exacts [nonneg, zero_le_one]

theorem posSemidef_one_entry {value : ℝ} (nonneg : 0 ≤ value) :
    (Mat.ofFn fun _ _ => value : Mat ℝ 1 1).toMatrix.PosSemidef := by
  have entry : (Mat.ofFn fun _ _ => value : Mat ℝ 1 1).toMatrix =
      Matrix.diagonal fun _ => value := by
    ext i j
    simp [Subsingleton.elim i j]
  rw [entry]
  exact Matrix.PosSemidef.diagonal fun _ => nonneg

theorem hasLyapunovWeight_decaying (equation : terminal = decay ^ 2 * terminal + weight) :
    (decaying N positive decay weight terminal).HasLyapunovWeight := by
  apply Mat.toMatrix_inj.mp
  ext i j
  simp [decaying, doubling, closedLoop, LinearSystem.closedLoop, controlledStateWeight,
    controlledWeight, Mat.toMatrix_symmetrize, Matrix.mul_apply]
  linear_combination equation

theorem freeCost_decaying : (decaying N positive decay weight terminal).freeCost 0 0 = 1 + terminal := by
  rw [← Mat.toMatrix_apply]
  simp [decaying, doubling, freeCost, Regulator.inputCost]

theorem lagCoupling_decaying :
    (decaying N positive decay weight terminal).lagCoupling 0 0 0 = terminal * decay := by
  rw [← Mat.toMatrix_apply, toMatrix_lagCoupling]
  simp [decaying, doubling, closedLoop, LinearSystem.closedLoop, controlledCrossWeight,
    controlledCross, Matrix.mul_apply]

theorem entry_hessian_decaying (equation : terminal = decay ^ 2 * terminal + weight) (s t : Fin 2) :
    (decaying 2 one_le_two decay weight terminal).hessian (Stacked.index s 0) (Stacked.index t 0) =
      if s = t then 1 + terminal else terminal * decay := by
  refine ((hasLyapunovWeight_decaying equation).hessian_entry
    (Mat.isSymm_of_transpose_eq (transpose_one_entry _))
    (Mat.isSymm_of_transpose_eq (transpose_one_entry _)) s t 0 0).trans ?_
  fin_cases s <;> fin_cases t <;> simp [distanceBlock, freeCost_decaying, lagCoupling_decaying]

end Decaying

/-- With a state that halves in every stage and the terminal weight `4`, the quadratic term of two
stages has the eigenvalues `3` and `7`. -/
theorem isConditionNumber_decaying
    (definite : (decaying 2 one_le_two (1 / 2) 3 4).hessian.toMatrix.PosDef) :
    IsConditionNumber (decaying 2 one_le_two (1 / 2) 3 4).hessian (7 / 3) := by
  have spectrum : IsSpectrum (decaying 2 one_le_two (1 / 2) 3 4).hessian
      (Vec.ofFn fun i => 3 + 4 * i.val) :=
    isSpectrum_pair (entry_hessian_decaying (by norm_num)) (by norm_num) (by norm_num) (by norm_num)
  have ratio := spectrum.isConditionNumber definite (transpose_hessian _) (by decide)
  have extremes : (7 / 3 : ℝ) = (3 + 4 * ((1 : Nat) : ℝ)) / (3 + 4 * ((0 : Nat) : ℝ)) := by norm_num
  rw [extremes]
  simp only [Vec.ofFn_get] at ratio
  exact ratio

theorem conditionNumber_le_conditionBound_decaying :
    let problem := decaying 2 one_le_two (1 / 2) 3 4
    Specification.problem exactAnalysis problem.system (decayingSpecification 2 3 4) =
      .ok { problem } ∧
    exactAnalysis.AnalysesExactly ∧ problem.crossWeight = 0 ∧ problem.IsStable ∧
    problem.stateWeight.toMatrix.PosSemidef ∧ problem.HasLyapunovWeight ∧
    problem.hessian.toMatrix.PosDef ∧ IsConditionNumber problem.hessian (7 / 3) ∧
    ∃ enough : Nat, ∀ samples : Nat, enough ≤ samples → 0 < samples → ∃ largest smallest,
      problem.conditionBound exactAnalysis .nothing (.whole samples) = .ok (largest / smallest) ∧
      7 / 3 * smallest ≤ largest := by
  intro problem
  have accepted : Specification.problem exactAnalysis problem.system (decayingSpecification 2 3 4) =
      .ok { problem } := problem_decayingSpecification exactAnalysis
  have stable : problem.IsStable := isStable_decaying (by rw [abs_lt]; constructor <;> norm_num)
  have state : problem.stateWeight.toMatrix.PosSemidef := posSemidef_one_entry (by norm_num)
  have lyapunov : problem.HasLyapunovWeight := hasLyapunovWeight_decaying (by norm_num)
  have definite : problem.hessian.toMatrix.PosDef :=
    posDef_hessian_of_posSemidef accepted (posSemidef_stageWeight_decaying (by norm_num))
      (posSemidef_one_entry (by norm_num))
  obtain ⟨enough, bounded⟩ := conditionNumber_le_conditionBound accepted
    analysesExactly_exactAnalysis Nat.one_pos Nat.one_pos rfl stable isSymmetric_decaying state
    lyapunov definite (isConditionNumber_decaying definite)
  refine ⟨accepted, analysesExactly_exactAnalysis, rfl, stable, state, lyapunov, definite,
    isConditionNumber_decaying definite, enough, fun samples reached some => ?_⟩
  obtain ⟨largest, smallest, computed, -, -, bound⟩ := bounded samples some
  exact ⟨largest, smallest, computed, bound reached⟩

/-! ### Other terminal weights -/

section Memoryless

variable {N : Nat} {positive : 1 ≤ N} {weight terminal : ℝ} {z : ℂ}

/-- A state that is gone in the next stage costs the same at all frequencies. -/
theorem symbolAt_memoryless (onCircle : z ∈ sphere (0 : ℂ) 1) :
    (decaying N positive 0 weight terminal).symbolAt z = algebraMap ℝ _ (1 + weight) := by
  have response : (decaying N positive 0 weight terminal).response z = z⁻¹ • 1 := by
    have input : (decaying N positive 0 weight terminal).system.input.overComplex = 1 :=
      Mat.overComplex_identity
    have nonzero := Circle.ne_zero_of_mem onCircle
    have inverse : Circle.resolvent (0 : Matrix (Fin 1) (Fin 1) ℂ) z = z⁻¹ • 1 := by
      refine Matrix.inv_eq_left_inv ?_
      rw [sub_zero, Matrix.smul_mul, Matrix.mul_smul, smul_smul, inv_mul_cancel₀ nonzero, one_smul,
        Matrix.one_mul]
    rw [ConstrainedLqr.response, overComplex_closedLoop_decaying, Complex.ofReal_zero, map_zero,
      inverse, input, Matrix.mul_one]
  have gain : (decaying N positive 0 weight terminal).gain.overComplex = 0 := by
    ext i j
    simp [decaying, doubling, Mat.overComplex]
  have inside : z⁻¹ ∈ sphere (0 : ℂ) 1 := by
    rw [mem_sphere_zero_iff_norm, norm_inv, mem_sphere_zero_iff_norm.mp onCircle, inv_one]
  rw [symbolAt_eq_costs isSymmetric_decaying rfl onCircle, response, gain,
    Circle.conjTranspose_smul_mul_smul inside]
  ext i j
  simp [decaying, doubling, Mat.overComplex, Matrix.algebraMap_matrix_apply, Subsingleton.elim i j,
    add_comm]

theorem stateAt_memoryless (x : Vec ℝ 1) (v : Nat → Vec ℝ 1) (k : Nat) :
    (decaying N positive 0 weight terminal).stateAt x v (k + 1) = v k := by
  have dynamics : (decaying N positive 0 weight terminal).closedLoop.dynamics.toMatrix = 0 := by
    ext i j
    simp [decaying, doubling, closedLoop, LinearSystem.closedLoop]
  have input : (decaying N positive 0 weight terminal).system.input.toMatrix = 1 :=
    Mat.toMatrix_identity
  apply Vec.get_inj.mp
  refine (LinearSystem.get_next_applied _ _ _ _).trans ?_
  rw [← closedLoop, dynamics, input, zero_mulVec, one_mulVec, zero_add]

theorem nextStateWeight_memoryless (k : Nat) :
    ((decaying N positive 0 weight terminal).nextStateWeight k).toMatrix =
      diagonal fun _ => if k = N - 1 then terminal else weight := by
  have last : (decaying N positive 0 weight terminal).terminalWeight.toMatrix =
      diagonal fun _ => terminal := by
    ext i j
    simp [decaying, doubling, Subsingleton.elim i j]
  have earlier : (decaying N positive 0 weight terminal).controlledStateWeight.toMatrix =
      diagonal fun _ => weight := by
    ext i j
    simp [decaying, doubling, controlledStateWeight, controlledWeight, Mat.toMatrix_symmetrize,
      Matrix.mul_apply, Subsingleton.elim i j]
    ring
  by_cases same : k = N - 1
  · rw [if_pos same]
    exact (congrArg Mat.toMatrix (if_pos same)).trans last
  · rw [if_neg same]
    exact (congrArg Mat.toMatrix (if_neg same)).trans earlier

/-- Every free variable costs what its input costs and what the state costs that it leads to. -/
theorem toMatrix_hessian_memoryless :
    (decaying N positive 0 weight terminal).hessian.toMatrix =
      diagonal fun i => 1 + if (Stacked.stage i).val = N - 1 then terminal else weight := by
  have cross : (decaying N positive 0 weight terminal).controlledCrossWeight.toMatrix = 0 := by
    ext i j
    simp [decaying, doubling, controlledCrossWeight, controlledCross]
  have input : (decaying N positive 0 weight terminal).inputWeight.toMatrix = 1 :=
    Mat.toMatrix_identity
  refine Mat.eq_of_quadraticForm_eq (Mat.isSymm_symmetrize _) (isSymm_diagonal _) fun x => ?_
  have form := (decaying N positive 0 weight terminal).dotProduct_hessian (Vec.ofFn x)
  rw [Vec.get_ofFn, stackedCost_eq_sum, Finset.sum_range] at form
  rw [form, dotProduct, Stacked.sum_places]
  refine Finset.sum_congr rfl fun s _ => ?_
  rw [Fin.sum_univ_one, stateAt_memoryless, nextStateWeight_memoryless, cross, input, mulVec_diagonal]
  have part : (Vec.ofFn x).partAt s.val 0 = x (Stacked.index s 0) := by
    rw [Vec.partAt_val, Vec.part_get, Vec.ofFn_get]
  simp only [dotProduct, Fin.sum_univ_one, mulVec_diagonal, Stacked.stage_index, part,
    Matrix.one_mulVec, Matrix.zero_mulVec, Pi.zero_apply, mul_zero, add_zero]
  ring

/-- With one entry in each part, the places of a stack are its stages. -/
theorem val_stage_one (i : Fin (N * 1)) : (Stacked.stage i).val = i.val := Nat.div_one i.val

theorem isSpectrum_hessian_memoryless (ordered : weight ≤ terminal) :
    IsSpectrum (decaying N positive 0 weight terminal).hessian
      (Vec.ofFn fun i => 1 + if (Stacked.stage i).val = N - 1 then terminal else weight) := by
  constructor
  · intro i j before
    have order : i.val ≤ j.val := before
    have last : j.val < N * 1 := j.isLt
    rw [Vec.get_ofFn, val_stage_one, val_stage_one]
    split <;> split <;> first | omega | linarith
  · rw [toMatrix_hessian_memoryless, charpoly_diagonal]
    simp only [Vec.ofFn_get]

variable {kit : Kernels ℝ}

/-- Beside a terminal weight that exceeds the weight of the other states, the bound says that the
quadratic term is perfectly conditioned, from any number of samples, while its condition number is the
ratio of the costs of the last stage and of the others. -/
theorem conditionBound_lt_conditionNumber (exact : kit.AnalysesExactly) (several : 2 ≤ N)
    (nonneg : 0 ≤ weight) (larger : weight < terminal) {samples : Nat} (some : 0 < samples) :
    let problem := decaying N positive 0 weight terminal
    Specification.problem kit problem.system (decayingSpecification N weight terminal) =
      .ok { problem } ∧
    problem.crossWeight = 0 ∧ problem.IsStable ∧ problem.hessian.toMatrix.PosDef ∧
    problem.conditionBound kit .nothing (.whole samples) = .ok 1 ∧
    IsConditionNumber problem.hessian ((1 + terminal) / (1 + weight)) ∧
    1 < (1 + terminal) / (1 + weight) := by
  intro problem
  have stable : problem.IsStable := isStable_decaying (by simp)
  have definite : problem.hessian.toMatrix.PosDef := by
    have matrix : problem.hessian.toMatrix = _ := toMatrix_hessian_memoryless
    rw [matrix, posDef_diagonal_iff]
    intro i
    split <;> linarith
  refine ⟨problem_decayingSpecification kit, rfl, stable, definite, ?_, ?_, ?_⟩
  · have hermitian (z : ℂ) : (problem.symbolAt z).IsHermitian :=
      isHermitian_symbolAt isSymmetric_decaying.input z
    obtain ⟨largest, smallest, computed, ⟨⟨high, ⟨k, -, root⟩, rfl⟩, -⟩,
        ⟨⟨low, ⟨l, -, root'⟩, rfl⟩, -⟩⟩ :=
      sampledRatio_eq_ok exact.solves exact.hermitian stable (fun z _ => hermitian z) some
        Nat.one_pos
    -- All samples have the same eigenvalue.
    rw [symbolAt_memoryless (samplePoint_mem_sphere _ _), spectrum.scalar_eq,
      Set.mem_singleton_iff] at root root'
    have positive : 0 < 1 + weight := by linarith
    rw [conditionBound_eq_sampledRatio exact.radius stable rfl Nat.one_pos some, computed, root, root',
      div_self (abs_pos.mpr positive.ne').ne']
  · have spectrum : IsSpectrum problem.hessian _ := isSpectrum_hessian_memoryless larger.le
    have ratio := spectrum.isConditionNumber definite (transpose_hessian _)
      (Nat.mul_pos positive Nat.one_pos)
    have apart : 0 ≠ N - 1 := by omega
    have final : problem.horizon * 1 - 1 = N - 1 := congrArg (· - 1) (Nat.mul_one N)
    simp only [Vec.ofFn_get, val_stage_one] at ratio
    rwa [if_pos final, if_neg apart] at ratio
  · rw [one_lt_div (by linarith)]
    linarith

end Memoryless
end ConstrainedLqr

end RecedingHorizon
