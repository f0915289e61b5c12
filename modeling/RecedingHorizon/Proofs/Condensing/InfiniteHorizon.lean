import Mathlib.Analysis.Matrix.Order
import RecedingHorizon.Proofs.Condensing.Telescoping
import RecedingHorizon.Proofs.Problem.Acceptance

/-!
# The regulator for an infinite horizon

If the gain is the regulator's and the terminal weight solves the Riccati equation, the terminal weight
solves the Lyapunov equation of the closed loop as well (`hasLyapunovWeight`), and a free variable is
not coupled to the state of its stage (`freeCoupling_eq_zero`). So the condensed program falls apart into
one program for each stage, all of them the same and independent of the first state: without free
variables the regulator's feedback is applied. That this is the minimizer takes a positive definite
matrix `R + B' P B`, and invertible is not enough (`exists_objective_lt_mirrored`).
-/

namespace RecedingHorizon

open Matrix

variable {n m p : Nat}

/-- Linear equations are solved exactly. -/
def Kernels.SolvesExactly (kit : Kernels ℝ) : Prop :=
  ∀ {n k : Nat} (M : Mat ℝ n n) (Y : Mat ℝ n k), IsUnit M.toMatrix →
    ∃ X, kit.solve M Y = .ok X ∧ M * X = Y

/-- The kind of terminal weight that is asked for, directly or by its name. -/
def TerminalChoice.kind? {α : Type} : TerminalChoice α → Option TerminalWeight
  | .kind w => some w
  | .given (.text s) => TerminalWeight.ofText? s
  | .given _ => none

@[simp] theorem Mat.toMatrix_repeated_zero {k l : Nat} (N : Nat) :
    (ConstrainedLqr.repeated N (0 : Mat ℝ k l)).toMatrix = 0 := by
  rw [ConstrainedLqr.repeated_eq, repeatDiagonal]
  ext i j
  simp [ofBlocks]

namespace Regulator

/-- A symmetric matrix `X` for which `R + B' X B` is invertible and
`A' X A - X - (A' X B + S) (R + B' X B)⁻¹ (B' X A + S') + Q = 0`. -/
structure IsRiccatiSolution (A : Mat ℝ n n) (B : Mat ℝ n m) (Q : Mat ℝ n n) (R : Mat ℝ m m)
    (S : Mat ℝ n m) (X : Mat ℝ n n) : Prop where
  symmetric : X.transpose = X
  invertible : IsUnit (inputCost B R X).toMatrix
  equation : A.toMatrixᵀ * X.toMatrix * A.toMatrix - X.toMatrix -
    (A.toMatrixᵀ * X.toMatrix * B.toMatrix + S.toMatrix) * (inputCost B R X).toMatrix⁻¹ *
      (B.toMatrixᵀ * X.toMatrix * A.toMatrix + S.toMatrixᵀ) + Q.toMatrix = 0

variable {A : Mat ℝ n n} {B : Mat ℝ n m} {Q : Mat ℝ n n} {R : Mat ℝ m m} {S : Mat ℝ n m}
  {X : Mat ℝ n n} {K : Mat ℝ m n}

/-- With the gain for it, a solution is `A' X A + Q` less what the input saves. -/
theorem IsRiccatiSolution.toMatrix_eq (solution : IsRiccatiSolution A B Q R S X)
    (gain : inputCost B R X * K = coupling A B S X) :
    X.toMatrix = A.toMatrixᵀ * X.toMatrix * A.toMatrix + Q.toMatrix -
      (coupling A B S X).toMatrixᵀ * K.toMatrix := by
  have determinant := (isUnit_iff_isUnit_det _).mp solution.invertible
  have feedback : (inputCost B R X).toMatrix⁻¹ * (coupling A B S X).toMatrix = K.toMatrix := by
    rw [← gain, Mat.toMatrix_mul, nonsing_inv_mul_cancel_left _ _ determinant]
  have coupled : (coupling A B S X).toMatrix =
      B.toMatrixᵀ * X.toMatrix * A.toMatrix + S.toMatrixᵀ := by
    simp only [coupling, Mat.toMatrix_add, Mat.toMatrix_mul, Mat.toMatrix_transpose]
  have equation := solution.equation
  rw [← transpose_coupling A B S X (Mat.isSymm_of_transpose_eq solution.symmetric), ← coupled,
    Matrix.mul_assoc (coupling A B S X).toMatrixᵀ, feedback] at equation
  rw [← sub_eq_zero, ← neg_eq_zero, ← equation]
  abel

end Regulator

namespace ConstrainedLqr

variable {problem : ConstrainedLqr ℝ n m p}

/-! ### Problems under the regulator -/

variable (problem) in
/-- The terminal weight solves the Riccati equation, and the gain is the regulator's for it. -/
structure IsRegulated : Prop where
  state : problem.stateWeight.transpose = problem.stateWeight
  input : problem.inputWeight.transpose = problem.inputWeight
  solution : Regulator.IsRiccatiSolution problem.system.dynamics problem.system.input
    problem.stateWeight problem.inputWeight problem.crossWeight problem.terminalWeight
  gain : problem.freeCost * problem.gain = Regulator.coupling problem.system.dynamics
    problem.system.input problem.crossWeight problem.terminalWeight

namespace IsRegulated

/-- The shift of the cross weight takes away exactly what the feedback adds to the coupling. -/
theorem freeCoupling_eq_zero (regulated : problem.IsRegulated) : problem.freeCoupling = 0 := by
  have symmetric := (Mat.isSymm_of_transpose_eq regulated.input).eq
  have shifted : problem.freeCoupling.toMatrix =
      (Regulator.coupling problem.system.dynamics problem.system.input problem.crossWeight
        problem.terminalWeight).toMatrix - problem.freeCost.toMatrix * problem.gain.toMatrix := by
    simp only [freeCoupling, freeCost, Regulator.coupling, Regulator.inputCost, closedLoop,
      LinearSystem.closedLoop, controlledCrossWeight, controlledCross, Mat.toMatrix_add,
      Mat.toMatrix_sub, Mat.toMatrix_mul, Mat.toMatrix_transpose, Matrix.transpose_sub,
      Matrix.transpose_mul, Matrix.transpose_transpose, symmetric, Matrix.mul_sub, Matrix.add_mul,
      Matrix.mul_assoc]
    abel
  apply Mat.toMatrix_inj.mp
  rw [shifted, ← Mat.toMatrix_mul, regulated.gain, sub_self, Mat.toMatrix_zero]

theorem toMatrix_controlledStateWeight (regulated : problem.IsRegulated) :
    problem.controlledStateWeight.toMatrix =
      problem.stateWeight.toMatrix - problem.gain.toMatrixᵀ * problem.crossWeight.toMatrixᵀ -
        problem.crossWeight.toMatrix * problem.gain.toMatrix +
        problem.gain.toMatrixᵀ * problem.inputWeight.toMatrix * problem.gain.toMatrix :=
  problem.toMatrix_controlledStateWeight_of_isSymm (Mat.isSymm_of_transpose_eq regulated.state)
    (Mat.isSymm_of_transpose_eq regulated.input)

/-- The solution of the Riccati equation solves the Lyapunov equation of its closed loop. -/
theorem hasLyapunovWeight (regulated : problem.IsRegulated) : problem.HasLyapunovWeight := by
  set A := problem.system.dynamics.toMatrix with dynamics
  set B := problem.system.input.toMatrix with push
  set K := problem.gain.toMatrix with feedback
  set P := problem.terminalWeight.toMatrix with last
  set Q := problem.stateWeight.toMatrix
  set R := problem.inputWeight.toMatrix
  set S := problem.crossWeight.toMatrix
  have riccati := regulated.solution.toMatrix_eq regulated.gain
  rw [Regulator.transpose_coupling _ _ _ _
    (Mat.isSymm_of_transpose_eq regulated.solution.symmetric)] at riccati
  -- Applied to the feedback itself, the equation for the gain cancels the terms with two gains.
  have cancel : Kᵀ * ((R + Bᵀ * P * B) * K) = Kᵀ * (Bᵀ * P * A + Sᵀ) := by
    have gain := congrArg Mat.toMatrix regulated.gain
    simp only [freeCost, Regulator.inputCost, Regulator.coupling, Mat.toMatrix_add, Mat.toMatrix_mul,
      Mat.toMatrix_transpose] at gain
    exact congrArg (Kᵀ * ·) gain
  apply Mat.toMatrix_inj.mp
  rw [Mat.toMatrix_add, regulated.toMatrix_controlledStateWeight]
  simp only [closedLoop, LinearSystem.closedLoop, Mat.toMatrix_mul, Mat.toMatrix_transpose,
    Mat.toMatrix_sub]
  calc P = Aᵀ * P * A + Q - (Aᵀ * P * B + S) * K := riccati
    _ = Aᵀ * P * A + Q - (Aᵀ * P * B + S) * K +
        (Kᵀ * ((R + Bᵀ * P * B) * K) - Kᵀ * (Bᵀ * P * A + Sᵀ)) := by
      rw [cancel, sub_self, add_zero]
    _ = (A - B * K)ᵀ * P * (A - B * K) + (Q - Kᵀ * Sᵀ - S * K + Kᵀ * R * K) := by
      simp only [Matrix.transpose_sub, Matrix.transpose_mul, Matrix.sub_mul, Matrix.mul_sub,
        Matrix.add_mul, Matrix.mul_add, Matrix.mul_assoc]
      abel

/-! ### The condensed program -/

/-- The quadratic term repeats the cost of one free variable. -/
theorem hessian_eq (regulated : problem.IsRegulated) :
    problem.hessian = repeated problem.horizon problem.freeCost := by
  have uncoupled : problem.priorCoupling.toMatrix = 0 := by
    rw [priorCoupling, regulated.freeCoupling_eq_zero, Mat.toMatrix_mul, Mat.toMatrix_repeated_zero,
      Matrix.zero_mul]
  apply Mat.toMatrix_inj.mp
  rw [regulated.hasLyapunovWeight.toMatrix_hessian (Mat.isSymm_of_transpose_eq regulated.input)
    (Mat.isSymm_of_transpose_eq regulated.solution.symmetric), uncoupled, Matrix.transpose_zero,
    add_zero, add_zero]

theorem linearCoefficients_eq_zero (regulated : problem.IsRegulated) :
    problem.linearCoefficients = 0 := by
  apply Mat.toMatrix_inj.mp
  rw [regulated.hasLyapunovWeight.linearCoefficients_eq (Mat.isSymm_of_transpose_eq regulated.input)
    (Mat.isSymm_of_transpose_eq regulated.solution.symmetric), initialCoupling,
    regulated.freeCoupling_eq_zero, Mat.toMatrix_mul, Mat.toMatrix_repeated_zero, Matrix.zero_mul,
    Mat.toMatrix_zero]

variable (x : Vec ℝ n)

theorem linearTerm_eq_zero (regulated : problem.IsRegulated) :
    problem.condense.linearTerm x = Vec.zeros _ := by
  apply Vec.get_inj.mp
  rw [CondensedProgram.linearTerm, Mat.get_mulVec]
  change problem.linearCoefficients.toMatrix *ᵥ x.get = _
  rw [regulated.linearCoefficients_eq_zero, Mat.toMatrix_zero, zero_mulVec, Vec.get_zeros]

theorem objective_eq_sum (regulated : problem.IsRegulated) (v : Vec ℝ (problem.horizon * m)) :
    problem.condense.objective x v =
      ∑ k, (v.part k).get ⬝ᵥ problem.freeCost.toMatrix *ᵥ (v.part k).get := by
  rw [CondensedProgram.objective, regulated.linearTerm_eq_zero, Vec.dot_eq, Vec.dot_eq,
    Vec.get_zeros, zero_dotProduct, mul_zero, add_zero, Mat.get_mulVec]
  change v.get ⬝ᵥ problem.hessian.toMatrix *ᵥ v.get = _
  rw [regulated.hessian_eq, Mat.dotProduct_repeated]

theorem objective_zeros (regulated : problem.IsRegulated) :
    problem.condense.objective x (Vec.zeros _) = 0 := by
  rw [regulated.objective_eq_sum]
  simp

/-- The origin is the only stationary point. -/
theorem stationary_iff (regulated : problem.IsRegulated) (v : Vec ℝ (problem.horizon * m)) :
    problem.condense.hessian.mulVec v = -problem.condense.linearTerm x ↔ v = Vec.zeros _ := by
  have hessian : problem.condense.hessian = repeated problem.horizon problem.freeCost :=
    regulated.hessian_eq
  have term : -problem.condense.linearTerm x = Vec.zeros _ := by
    rw [regulated.linearTerm_eq_zero]
    apply Vec.get_inj.mp
    simp
  rw [hessian, term]
  constructor
  · intro stationary
    -- Every part is sent to zero by an invertible matrix.
    apply Vec.ext_part
    intro k
    have part := congrArg (fun y => (Vec.part y k).get) stationary
    simp only [part_mulVec_repeated, Vec.part_zeros, Mat.get_mulVec, Vec.get_zeros] at part
    rw [Vec.part_zeros, ← Vec.get_inj, Vec.get_zeros]
    exact mulVec_injective_of_isUnit regulated.solution.invertible (part.trans (mulVec_zero _).symm)
  · rintro rfl
    apply Vec.get_inj.mp
    simp

/-- If the origin is a minimizer, the cost of a free variable is positive definite. -/
theorem posDef_of_objective_zeros_le (regulated : problem.IsRegulated)
    (least : ∀ v, problem.condense.objective x (Vec.zeros _) ≤ problem.condense.objective x v) :
    problem.freeCost.toMatrix.PosDef := by
  have symmetric := problem.isSymm_freeCost (Mat.isSymm_of_transpose_eq regulated.input)
    (Mat.isSymm_of_transpose_eq regulated.solution.symmetric)
  have nonneg := posSemidef_of_nonneg symmetric fun y => ?_
  · exact nonneg.posDef_iff_isUnit.mpr regulated.solution.invertible
  · -- The same free variable in every stage costs so many times what it costs in one.
    have stages := least (Vec.stack fun _ => y)
    have positive : (0 : ℝ) < problem.horizon := Nat.cast_pos.mpr problem.horizon_pos
    rw [regulated.objective_zeros, regulated.objective_eq_sum] at stages
    simp only [Vec.part_stack, Finset.sum_const, Finset.card_univ, Fintype.card_fin,
      nsmul_eq_mul] at stages
    exact (mul_nonneg_iff_of_pos_left positive).mp stages

/-- With a positive definite cost of a free variable, the origin is the only minimizer. -/
theorem objective_zeros_lt (regulated : problem.IsRegulated)
    (definite : problem.freeCost.toMatrix.PosDef) {v : Vec ℝ (problem.horizon * m)}
    (other : v ≠ Vec.zeros _) :
    problem.condense.objective x (Vec.zeros _) < problem.condense.objective x v := by
  rw [regulated.objective_zeros, regulated.objective_eq_sum]
  have nonneg (k : Fin problem.horizon) :
      0 ≤ (v.part k).get ⬝ᵥ problem.freeCost.toMatrix *ᵥ (v.part k).get := by
    simpa using definite.posSemidef.dotProduct_mulVec_nonneg (v.part k).get
  -- No part costs less than nothing, and one that is not zero costs something.
  have part : ∃ k, v.part k ≠ Vec.zeros m := by
    by_contra none
    push Not at none
    exact other (Vec.ext_part fun k => by rw [none k, Vec.part_zeros])
  obtain ⟨k, nonzero⟩ := part
  have away : (v.part k).get ≠ 0 := fun zero =>
    nonzero (Vec.get_inj.mp (zero.trans Vec.get_zeros.symm))
  have positive := definite.dotProduct_mulVec_pos away
  rw [star_trivial] at positive
  exact Finset.sum_pos' (fun k _ => nonneg k) ⟨k, Finset.mem_univ k, positive⟩

end IsRegulated

/-! ### Specifications that ask for the regulator -/

/-- The same problem with another gain and a solution of the Riccati equation for the last state. -/
def withRegulator (problem : ConstrainedLqr ℝ n m p) (K : Mat ℝ m n) (X : Mat ℝ n n) :
    ConstrainedLqr ℝ n m p :=
  { problem with
    gain := K
    terminalKind := .riccati
    terminalWeight := X }

end ConstrainedLqr

namespace Specification

variable {kit : Kernels ℝ} {system : LinearSystem ℝ n m} {spec : Specification ℝ}
  {problem : ConstrainedLqr ℝ n m p} {X : Mat ℝ n n}

theorem readTerminal_kind {Q P : Mat ℝ n n} {R : Mat ℝ m m} {S : Mat ℝ n m} {K : Mat ℝ m n}
    {choice : TerminalChoice ℝ} {w : TerminalWeight} (named : choice.kind? = some w)
    (built : terminalOfKind kit system Q R S K w = .ok P) :
    readTerminal kit system Q R S K choice = .ok (w, P) := by
  have paired : (do return (w, ← terminalOfKind kit system Q R S K w) : Except Fault _) =
      .ok (w, P) := by
    rw [built]
    rfl
  unfold readTerminal
  match choice, named with
  | .kind _, rfl => exact paired
  | .given (.text s), named =>
    have read : TerminalWeight.ofText? s = some w := named
    simp only [read]
    exact paired

/-- If the Riccati equation has a solution, a specification that asks for the regulator is accepted. -/
theorem problem_withRegulator (accepted : Specification.problem kit system spec = .ok { problem })
    {choice : TerminalChoice ℝ} (named : choice.kind? = some .riccati)
    (solves : kit.SolvesExactly)
    (returned : kit.riccati system.dynamics system.input problem.stateWeight problem.inputWeight
      problem.crossWeight = some X)
    (symmetric : X.transpose = X)
    (invertible : IsUnit (Regulator.inputCost system.input problem.inputWeight X).toMatrix) :
    ∃ K, Specification.problem kit system
        { spec with
          gain := .text "dlqr"
          terminal := choice } = .ok { problem := problem.withRegulator K X } ∧
      Regulator.inputCost system.input problem.inputWeight X * K =
        Regulator.coupling system.dynamics system.input problem.crossWeight X := by
  obtain ⟨rfl, yields⟩ := problem_eq_ok_iff.mp accepted
  obtain ⟨K, solved, gain⟩ := solves _
    (Regulator.coupling problem.system.dynamics problem.system.input problem.crossWeight X) invertible
  -- The gain and the terminal weight are both made from the solution that the method returns.
  have read : readGain kit problem.system problem.stateWeight problem.inputWeight
      problem.crossWeight (.text "dlqr") = .ok K := by
    change Regulator.gain kit _ _ _ _ _ = _
    rw [Regulator.gain, returned]
    exact solved
  have built : terminalOfKind kit problem.system problem.stateWeight problem.inputWeight
      problem.crossWeight K .riccati = .ok X := by
    rw [terminalOfKind, returned]
    exact congrArg _ (Mat.symmetrize_eq_self (Mat.isSymm_of_transpose_eq symmetric))
  refine ⟨K, problem_eq_ok_iff.mpr ⟨rfl, ?_⟩, gain⟩
  exact { yields with
    gain := read
    terminal := readTerminal_kind named built }

end Specification

namespace ConstrainedLqr

/-- Without free variables, the feedback alone is applied. -/
theorem row_rollout_zeros (problem : ConstrainedLqr ℝ n m p) (x : Vec ℝ n)
    (k : Fin problem.horizon) :
    let run := problem.system.rollout problem.gain x (Vec.zeros (problem.horizon * m))
    run.inputs.row k = -problem.gain.mulVec (run.states.row k.castSucc) := by
  intro run
  rw [LinearSystem.row_rollout_inputs, LinearSystem.row_rollout_states, LinearSystem.inputAt,
    LinearSystem.applied, Vec.partAt_zeros]
  apply Vec.get_inj.mp
  simp

/-- If the Riccati equation has the symmetric solution `X`, every specification that can be read is
accepted with the regulator as its gain and `X` for its last state. The terminal weight then solves the
Lyapunov equation too, the quadratic term repeats `M = R + B' X B` on its diagonal and the linear term
vanishes: the origin is the only stationary point for every first state, it is a minimizer exactly if
`M` is positive definite, and without free variables the feedback is applied in every stage. -/
theorem regulator_program_decouples {kit : Kernels ℝ} {system : LinearSystem ℝ n m}
    {spec : Specification ℝ} {problem : ConstrainedLqr ℝ n m p} {choice : TerminalChoice ℝ}
    {X : Mat ℝ n n}
    (accepted : Specification.problem kit system spec = .ok { problem })
    (named : choice.kind? = some .riccati) (solves : kit.SolvesExactly)
    (returned : kit.riccati system.dynamics system.input problem.stateWeight problem.inputWeight
      problem.crossWeight = some X)
    (state : problem.stateWeight.transpose = problem.stateWeight)
    (input : problem.inputWeight.transpose = problem.inputWeight)
    (solution : Regulator.IsRiccatiSolution system.dynamics system.input problem.stateWeight
      problem.inputWeight problem.crossWeight X) :
    ∃ K,
      let regulated := problem.withRegulator K X
      let M := Regulator.inputCost system.input problem.inputWeight X
      Specification.problem kit system
        { spec with
          gain := .text "dlqr"
          terminal := choice } = .ok { problem := regulated } ∧
      regulated.terminalWeight =
        regulated.closedLoop.dynamics.transpose * regulated.terminalWeight *
          regulated.closedLoop.dynamics + regulated.controlledStateWeight ∧
      regulated.condense.hessian = (Mat.identity regulated.horizon).kronecker M ∧
      regulated.condense.linear = 0 ∧
      ∀ x,
        (∀ v, regulated.condense.hessian.mulVec v = -regulated.condense.linearTerm x ↔
          v = Vec.zeros _) ∧
        ((∀ v, regulated.condense.objective x (Vec.zeros _) ≤ regulated.condense.objective x v) ↔
          M.toMatrix.PosDef) ∧
        (M.toMatrix.PosDef → ∀ v, v ≠ Vec.zeros _ →
          regulated.condense.objective x (Vec.zeros _) < regulated.condense.objective x v) ∧
        ∀ k : Fin regulated.horizon,
          let run := system.rollout K x (Vec.zeros (regulated.horizon * m))
          run.inputs.row k = -K.mulVec (run.states.row k.castSucc) := by
  obtain rfl : problem.system = system := (Specification.problem_eq_ok_iff.mp accepted).1
  obtain ⟨K, built, gain⟩ := Specification.problem_withRegulator accepted named solves returned
    solution.symmetric solution.invertible
  have regulated : (problem.withRegulator K X).IsRegulated := ⟨state, input, solution, gain⟩
  refine ⟨K, built, regulated.hasLyapunovWeight, regulated.hessian_eq,
    regulated.linearCoefficients_eq_zero, fun x => ⟨regulated.stationary_iff x, ⟨?_, ?_⟩, ?_,
      (problem.withRegulator K X).row_rollout_zeros x⟩⟩
  · exact regulated.posDef_of_objective_zeros_le x
  · intro definite v
    rcases eq_or_ne v (Vec.zeros _) with rfl | other
    · exact le_rfl
    · exact (regulated.objective_zeros_lt x definite other).le
  · exact fun definite v other => regulated.objective_zeros_lt x definite other

/-! ### Two regulators -/

open Classical in
/-- Methods that solve linear equations by the inverse matrix and answer every Riccati equation with a
multiple of the identity. -/
noncomputable def regulatorKernels (answer : ℝ) : Kernels ℝ where
  eigenvalues _ := .error .singular
  hermitianEigenvalues _ := .error .singular
  spectralRadius _ := .error .singular
  rank _ := .error .singular
  conditionNumber _ := .error .singular
  solve M Y :=
    if IsUnit M.toMatrix then .ok (Mat.ofFn (M.toMatrix⁻¹ * Y.toMatrix)) else .error .singular
  solveComplex _ _ := .error .singular
  riccati _ _ _ _ _ := some (Mat.scale answer (Mat.identity _))
  lyapunov _ _ := none
  nonnegativeLeastSquares _ _ := .error .singular
  leastSquares _ _ := .error .singular
  quadraticProgram _ _ _ _ := .error .singular
  rootBetween _ _ _ := none

theorem solvesExactly_regulatorKernels (answer : ℝ) : (regulatorKernels answer).SolvesExactly := by
  intro n k M Y invertible
  have determinant := (isUnit_iff_isUnit_det _).mp invertible
  have read : (Mat.ofFn (M.toMatrix⁻¹ * Y.toMatrix)).toMatrix = M.toMatrix⁻¹ * Y.toMatrix :=
    Mat.toMatrix_ofFn _
  refine ⟨Mat.ofFn (M.toMatrix⁻¹ * Y.toMatrix), if_pos invertible, ?_⟩
  apply Mat.toMatrix_inj.mp
  rw [Mat.toMatrix_mul, read, mul_nonsing_inv_cancel_left _ _ determinant]

theorem transpose_scale_identity (c : ℝ) :
    (Mat.scale c (Mat.identity n)).transpose = Mat.scale c (Mat.identity n) := by
  apply Mat.toMatrix_inj.mp
  rw [Mat.toMatrix_transpose, Mat.toMatrix_scale, Mat.toMatrix_identity, Matrix.transpose_smul,
    Matrix.transpose_one]

theorem isRiccatiSolution_doubling (gain terminal : ℝ) :
    let problem := doubling 2 one_le_two (3 / 2) gain terminal (.bottom, .top)
    Regulator.IsRiccatiSolution problem.system.dynamics problem.system.input problem.stateWeight
      problem.inputWeight problem.crossWeight (Mat.scale 1 (Mat.identity 1)) := by
  intro problem
  have half : (Regulator.inputCost problem.system.input problem.inputWeight
      (Mat.scale 1 (Mat.identity 1))).toMatrix * Matrix.of (fun _ _ => 1 / 2) = 1 := by
    ext i j
    rw [Subsingleton.elim i 0, Subsingleton.elim j 0, Matrix.mul_apply, Fin.sum_univ_one]
    simp [problem, doubling, Regulator.inputCost]
    norm_num
  refine ⟨transpose_scale_identity 1, IsUnit.of_mul_eq_one _ half, ?_⟩
  rw [inv_eq_right_inv half]
  ext i j
  rw [Subsingleton.elim i 0, Subsingleton.elim j 0]
  simp [problem, doubling, Matrix.mul_apply]
  norm_num

/-- The regulator of a state that doubles in every stage: it halves instead. -/
theorem regulator_program_decouples_doubling :
    let problem := doubling 2 one_le_two (3 / 2) 0 0 (.bottom, .top)
    let spec := doublingSpecification 2 (3 / 2) 0 0 (.bottom, .top)
    let kit := regulatorKernels 1
    let X : Mat ℝ 1 1 := Mat.scale 1 (Mat.identity 1)
    Specification.problem kit problem.system spec = .ok { problem } ∧ kit.SolvesExactly ∧
    kit.riccati problem.system.dynamics problem.system.input problem.stateWeight problem.inputWeight
      problem.crossWeight = some X ∧
    problem.stateWeight.transpose = problem.stateWeight ∧
    problem.inputWeight.transpose = problem.inputWeight ∧
    Regulator.IsRiccatiSolution problem.system.dynamics problem.system.input problem.stateWeight
      problem.inputWeight problem.crossWeight X ∧
    ∃ K, Specification.problem kit problem.system
        { spec with
          gain := .text "dlqr"
          terminal := .kind .riccati } = .ok { problem := problem.withRegulator K X } ∧
      (problem.withRegulator K X).condense.linear = 0 := by
  intro problem spec kit X
  have accepted : Specification.problem kit problem.system spec = .ok { problem } :=
    problem_doublingSpecification kit one_le_two (3 / 2) 0 0 rfl
  have solves : kit.SolvesExactly := solvesExactly_regulatorKernels 1
  have state : problem.stateWeight.transpose = problem.stateWeight := by
    ext i j
    simp [problem, doubling]
  have input : problem.inputWeight.transpose = problem.inputWeight := Mat.transpose_identity
  have solution := isRiccatiSolution_doubling 0 0
  have named : (TerminalChoice.kind .riccati : TerminalChoice ℝ).kind? = some .riccati := rfl
  obtain ⟨K, built, -, -, linear, -⟩ :=
    regulator_program_decouples accepted named solves rfl state input solution
  exact ⟨accepted, solves, rfl, state, input, solution, K, built, linear⟩

/-- A state that halves in every stage and has a negative weight. Its first input does nothing, the second
one is added to the state. -/
noncomputable def mirrored : ConstrainedLqr ℝ 1 2 0 where
  system :=
    { dynamics := Mat.ofFn fun _ _ => 1 / 2
      input := Mat.ofFn fun _ j => j.val
      interval := 1 }
  horizon := 1
  horizon_pos := Nat.one_pos
  stateWeight := Mat.ofFn fun _ _ => -5 / 2
  inputWeight := Mat.identity 2
  crossWeight := 0
  gain := 0
  terminalKind := .explicit
  terminalWeight := 0
  stage := { states := 0, inputs := 0, bounds := Vec.zeros 0 }
  stateBounds := .uniform (.bottom, .top)
  inputBounds := .uniform (.bottom, .top)

/-- The specification that lists the weights of the problem, without a gain. -/
noncomputable def mirroredSpecification : Specification ℝ where
  horizon := .whole 1
  stateWeight := .array (.ofMat mirrored.stateWeight)
  inputWeight := .array (.ofMat mirrored.inputWeight)
  crossWeight := .array (.ofMat mirrored.crossWeight)
  terminal := .given (.array (.ofMat mirrored.terminalWeight))

theorem problem_mirroredSpecification (kit : Kernels ℝ) :
    Specification.problem kit mirrored.system mirroredSpecification = .ok { problem := mirrored } := by
  have single (M : Mat ℝ 1 1) (i j : Fin 1) : |M i j - M j i| ≤ symmetryTolerance := by
    rw [Subsingleton.elim i j, sub_self, abs_zero, symmetryTolerance]
    norm_num
  have identity (i j : Fin 2) :
      |mirrored.inputWeight i j - mirrored.inputWeight j i| ≤ symmetryTolerance := by
    fin_cases i <;> fin_cases j <;> simp [mirrored, Mat.identity, symmetryTolerance] <;> norm_num
  have definite : mirrored.inputWeight.isPositiveDefinite = true := by
    simp [mirrored, Mat.isPositiveDefinite, Mat.cholesky?, firstIndex, Mat.identity]
  exact Specification.problem_eq_ok_iff.mpr ⟨rfl, {
    horizon := Specification.readHorizon_whole mirrored.horizon_pos
    weights := Specification.readWeights_ofMat (single _) identity definite
    cross := Specification.readCross_ofMat _
    gain := rfl
    stage := rfl
    terminal := Specification.readTerminal_ofMat (single _)
    bounds := Specification.readBounds_real (.bottom, .top) (.bottom, .top) rfl rfl rfl rfl rfl
      rfl }⟩

theorem toMatrix_inputCost_mirrored :
    (Regulator.inputCost mirrored.system.input mirrored.inputWeight
      (Mat.scale (-2) (Mat.identity 1))).toMatrix = !![1, 0; 0, -1] := by
  ext i j
  fin_cases i <;> fin_cases j <;> simp [mirrored, Regulator.inputCost, Matrix.mul_apply]
  norm_num

theorem isRiccatiSolution_mirrored :
    Regulator.IsRiccatiSolution mirrored.system.dynamics mirrored.system.input mirrored.stateWeight
      mirrored.inputWeight mirrored.crossWeight (Mat.scale (-2) (Mat.identity 1)) := by
  have involution : (!![1, 0; 0, -1] * !![1, 0; 0, -1] : Matrix (Fin 2) (Fin 2) ℝ) = 1 := by
    ext i j
    fin_cases i <;> fin_cases j <;> simp
  refine ⟨transpose_scale_identity (-2), ?_, ?_⟩
  · rw [toMatrix_inputCost_mirrored]
    exact IsUnit.of_mul_eq_one _ involution
  · rw [toMatrix_inputCost_mirrored, inv_eq_right_inv involution]
    ext i j
    rw [Subsingleton.elim i 0, Subsingleton.elim j 0]
    simp [mirrored, Matrix.mul_apply]
    norm_num

/-- The Riccati equation of the problem has a symmetric solution with an invertible matrix `R + B' X B`,
whose closed loop halves and mirrors the state, but the origin is not a minimizer. -/
theorem exists_objective_lt_mirrored :
    let kit := regulatorKernels (-2)
    let X : Mat ℝ 1 1 := Mat.scale (-2) (Mat.identity 1)
    let x : Vec ℝ 1 := Vec.ofFn fun _ => 1
    mirrored.stateWeight.transpose = mirrored.stateWeight ∧
    mirrored.inputWeight.transpose = mirrored.inputWeight ∧
    Regulator.IsRiccatiSolution mirrored.system.dynamics mirrored.system.input mirrored.stateWeight
      mirrored.inputWeight mirrored.crossWeight X ∧
    kit.SolvesExactly ∧
    kit.riccati mirrored.system.dynamics mirrored.system.input mirrored.stateWeight
      mirrored.inputWeight mirrored.crossWeight = some X ∧
    ∃ K, Specification.problem kit mirrored.system
        { mirroredSpecification with
          gain := .text "dlqr"
          terminal := .given (.text "dare") } = .ok { problem := mirrored.withRegulator K X } ∧
      ∃ v, (mirrored.withRegulator K X).condense.objective x v <
        (mirrored.withRegulator K X).condense.objective x (Vec.zeros _) := by
  intro kit X x
  have state : mirrored.stateWeight.transpose = mirrored.stateWeight := by
    ext i j
    simp [mirrored]
  have input : mirrored.inputWeight.transpose = mirrored.inputWeight := Mat.transpose_identity
  have solves : kit.SolvesExactly := solvesExactly_regulatorKernels (-2)
  have solution := isRiccatiSolution_mirrored
  have named : (TerminalChoice.given (.text "dare") : TerminalChoice ℝ).kind? = some .riccati := rfl
  obtain ⟨K, built, gain⟩ := Specification.problem_withRegulator
    (problem_mirroredSpecification kit) named solves rfl solution.symmetric solution.invertible
  have regulated : (mirrored.withRegulator K X).IsRegulated := ⟨state, input, solution, gain⟩
  -- The second input costs `-1`, as much as its effect on the last state saves.
  let v : Vec ℝ 2 := Vec.ofFn fun i => i.val
  let stages : Vec ℝ ((mirrored.withRegulator K X).horizon * 2) := Vec.stack fun _ => v
  have cost : (mirrored.withRegulator K X).freeCost.toMatrix = !![1, 0; 0, -1] :=
    toMatrix_inputCost_mirrored
  have single : (mirrored.withRegulator K X).horizon = 1 := rfl
  refine ⟨state, input, solution, solves, rfl, K, built, stages, ?_⟩
  rw [regulated.objective_zeros, regulated.objective_eq_sum, cost]
  simp only [stages, Vec.part_stack, Finset.sum_const, Finset.card_univ, Fintype.card_fin, single]
  simp [v, dotProduct, Matrix.mulVec, Fin.sum_univ_two]

end ConstrainedLqr

end RecedingHorizon
