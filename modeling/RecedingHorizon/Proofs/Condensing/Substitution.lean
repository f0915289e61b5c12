import RecedingHorizon.Proofs.Condensing.Constraints
import RecedingHorizon.Proofs.Condensing.Cost
import RecedingHorizon.Proofs.Prediction.Feedback
import RecedingHorizon.Proofs.Problem.Acceptance

/-!
# A feedback is a change of variables

Condensing under a feedback gives the program without a feedback after the substitution
`u = Γ v + Φ x₀` of the inputs of the rollout. The costs of the two rollouts are the same, so the
objectives differ by a constant only (`objective_withoutGain`); as symmetric matrices are determined by
their quadratic forms, this settles the matrices. The substitution can be undone, and so it carries
the minimizers onto each other.
-/

namespace RecedingHorizon

open Matrix

variable {N n m p : Nat}

namespace CondensedProgram

variable (qp : CondensedProgram ℝ N n m p) (x : Vec ℝ n) (v : Vec ℝ (N * m))

/-- The free variables satisfy `G v ≤ g + L x₀`. -/
def IsFeasible : Prop := ∀ i, qp.coefficients.mulVec v i ≤ qp.rightSide x i

/-- The feasible free variables with the least objective. -/
def minimizers : Set (Vec ℝ (N * m)) :=
  {v | qp.IsFeasible x v ∧ ∀ w, qp.IsFeasible x w → qp.objective x v ≤ qp.objective x w}

theorem isFeasible_iff : qp.IsFeasible x v ↔ ∀ i, (qp.feasibleSet x).residual v i ≤ 0 := by
  apply forall_congr'
  intro i
  change _ ↔ (qp.coefficients.mulVec v - qp.rightSide x : Vec ℝ (N * p)).get i ≤ 0
  rw [Vec.get_sub, Pi.sub_apply, sub_nonpos]

/-- A change of variables that reaches every point and keeps feasibility, and the objective up to a constant,
carries the minimizers of one program onto those of the other. -/
theorem image_minimizers {fed plain : CondensedProgram ℝ N n m p} {x : Vec ℝ n} {offset : ℝ}
    {inputs free : Vec ℝ (N * m) → Vec ℝ (N * m)} (redone : ∀ u, inputs (free u) = u)
    (feasible : ∀ v, fed.IsFeasible x v ↔ plain.IsFeasible x (inputs v))
    (objective : ∀ v, fed.objective x v = plain.objective x (inputs v) - offset) :
    inputs '' fed.minimizers x = plain.minimizers x := by
  ext u
  constructor
  · rintro ⟨v, ⟨inside, least⟩, rfl⟩
    refine ⟨(feasible v).mp inside, fun w possible => ?_⟩
    -- A better sequence of inputs would come from better free variables.
    have below := least (free w) ((feasible (free w)).mpr (by rwa [redone]))
    rw [objective, objective, redone] at below
    linarith
  · rintro ⟨inside, least⟩
    -- Free variables lead to feasible inputs, which cost at least as much.
    refine ⟨free u, ⟨(feasible (free u)).mpr (by rwa [redone]), fun w possible => ?_⟩, redone u⟩
    have below := least (inputs w) ((feasible w).mp possible)
    rw [objective, objective, redone]
    linarith

end CondensedProgram

namespace ConstrainedLqr

variable (problem : ConstrainedLqr ℝ n m p) (x : Vec ℝ n) (v : Vec ℝ (problem.horizon * m))

/-- The condensed program without the feedback. -/
noncomputable def plainProgram : CondensedProgram ℝ problem.horizon n m p :=
  problem.withoutGain.condense

/-! ### The same rollout -/

theorem cost_withoutGain :
    problem.withoutGain.cost x (problem.plannedInputs x v).partAt = problem.cost x v.partAt := by
  -- The planned inputs lead to the states that the free variables lead to under the feedback.
  have state {k : Nat} (inside : k ≤ problem.horizon) :
      problem.withoutGain.stateAt x (problem.plannedInputs x v).partAt k =
        problem.stateAt x v.partAt k :=
    problem.system.stateAt_stack_inputs problem.gain x v.partAt inside
  have input (k : Fin problem.horizon) :
      problem.withoutGain.inputAt x (problem.plannedInputs x v).partAt k.val =
        problem.inputAt x v.partAt k.val :=
    (LinearSystem.applied_zero _ _).trans (Vec.partAt_stack _ k)
  have stages : (fun k : Fin problem.horizon => problem.withoutGain.stageCost
      (problem.withoutGain.stateAt x (problem.plannedInputs x v).partAt k.val)
      (problem.withoutGain.inputAt x (problem.plannedInputs x v).partAt k.val)) =
      fun k => problem.stageCost (problem.stateAt x v.partAt k.val)
        (problem.inputAt x v.partAt k.val) := by
    funext k
    rw [state k.isLt.le, input]
    rfl
  have terminal : problem.withoutGain.terminalCost
      (problem.withoutGain.stateAt x (problem.plannedInputs x v).partAt problem.horizon) =
      problem.terminalCost (problem.stateAt x v.partAt problem.horizon) := by
    rw [state le_rfl]
    rfl
  exact congrArg₂ (· + ·) (congrArg (Vec.sumOver problem.horizon) stages) terminal

/-- The two objectives differ by what the free motion costs the program without the feedback. -/
theorem objective_withoutGain (symmetric : problem.inputWeight.toMatrix.IsSymm)
    (terminal : problem.terminalWeight.toMatrix.IsSymm) :
    problem.condense.objective x v =
      problem.plainProgram.objective x (problem.plannedInputs x v) -
        problem.plainProgram.objective x (problem.plannedInputs x (Vec.zeros _)) := by
  have plain (u : Vec ℝ (problem.horizon * m)) : problem.plainProgram.objective x u =
      problem.withoutGain.cost x u.partAt -
        problem.withoutGain.cost x (Vec.zeros (problem.horizon * m)).partAt :=
    problem.withoutGain.objective_eq_cost_sub x u symmetric terminal
  rw [plain, plain, cost_withoutGain, cost_withoutGain,
    problem.objective_eq_cost_sub x v symmetric terminal]
  ring

theorem residual_withoutGain :
    (problem.condense.feasibleSet x).residual v =
      (problem.plainProgram.feasibleSet x).residual (problem.plannedInputs x v) := by
  have plain (u : Vec ℝ (problem.horizon * m)) :
      (problem.plainProgram.feasibleSet x).residual u =
        problem.inputInequalities.residual x (problem.withoutGain.plannedInputs x u) :=
    problem.withoutGain.residual_inequalities x u
  have unfed (u : Vec ℝ (problem.horizon * m)) : problem.withoutGain.plannedInputs x u = u :=
    problem.withoutGain.plannedInputs_of_gain_eq_zero x u rfl
  rw [plain, unfed]
  exact problem.residual_inequalities x v

/-! ### The same matrices -/

theorem isSymm_plainProgram_hessian : problem.plainProgram.hessian.toMatrix.IsSymm :=
  Mat.isSymm_symmetrize _

theorem dotProduct_plainProgram_hessian_comm (a b : Fin (problem.horizon * m) → ℝ) :
    a ⬝ᵥ problem.plainProgram.hessian.toMatrix *ᵥ b =
      b ⬝ᵥ problem.plainProgram.hessian.toMatrix *ᵥ a := by
  rw [← dotProduct_transpose_mulVec, problem.isSymm_plainProgram_hessian.eq]

/-- The substitution in terms of the free variables and the first state. -/
theorem plannedInputs_eq :
    problem.plannedInputs x v =
      (Prediction.freeToInputs problem.closedLoop problem.gain problem.horizon).mulVec v +
        (Prediction.initialToInputs problem.closedLoop problem.gain problem.horizon).mulVec x :=
  problem.system.stack_inputs problem.gain x v

/-- The quadratic term is that of the plain program after the substitution. -/
theorem hessian_eq_substituted (symmetric : problem.inputWeight.toMatrix.IsSymm)
    (terminal : problem.terminalWeight.toMatrix.IsSymm) :
    problem.condense.hessian =
      (Prediction.freeToInputs problem.closedLoop problem.gain problem.horizon).transpose *
        problem.plainProgram.hessian *
        Prediction.freeToInputs problem.closedLoop problem.gain problem.horizon := by
  -- From the origin the objective is the quadratic form alone, and the forms agree everywhere.
  have plainSymmetric := problem.isSymm_plainProgram_hessian
  apply Mat.toMatrix_inj.mp
  apply Mat.eq_of_quadraticForm_eq
  · exact Mat.isSymm_symmetrize _
  · rw [Mat.toMatrix_mul, Mat.toMatrix_mul, Mat.toMatrix_transpose, Matrix.IsSymm,
      Matrix.transpose_mul, Matrix.transpose_mul, Matrix.transpose_transpose, plainSymmetric.eq,
      Matrix.mul_assoc]
  · intro y
    have fromOrigin := problem.objective_withoutGain (Vec.zeros n) (Vec.ofFn y) symmetric terminal
    simp only [CondensedProgram.objective_eq, get_plannedInputs, Vec.get_ofFn, Vec.get_zeros,
      mulVec_zero, zero_dotProduct, add_zero, mul_zero, sub_zero] at fromOrigin
    rw [fromOrigin, Mat.toMatrix_mul, Mat.toMatrix_mul, Mat.toMatrix_transpose, ← mulVec_mulVec,
      ← mulVec_mulVec, dotProduct_transpose_mulVec, dotProduct_comm]

theorem dotProduct_substituted_linear {k l : Nat} (Γ H : Matrix (Fin k) (Fin k) ℝ)
    (J Φ : Matrix (Fin k) (Fin l) ℝ) (z : Fin l → ℝ) (y : Fin k → ℝ) :
    ((Γᵀ * (J + H * Φ)) *ᵥ z) ⬝ᵥ y = (J *ᵥ z) ⬝ᵥ (Γ *ᵥ y) + (Γ *ᵥ y) ⬝ᵥ H *ᵥ (Φ *ᵥ z) := by
  rw [← mulVec_mulVec, dotProduct_comm, dotProduct_transpose_mulVec, add_mulVec, add_dotProduct,
    ← mulVec_mulVec, dotProduct_comm (H *ᵥ _)]

/-- The linear term is that of the plain program after the substitution. -/
theorem linear_eq_substituted (symmetric : problem.inputWeight.toMatrix.IsSymm)
    (terminal : problem.terminalWeight.toMatrix.IsSymm) :
    problem.condense.linear =
      (Prediction.freeToInputs problem.closedLoop problem.gain problem.horizon).transpose *
        (problem.plainProgram.linear + problem.plainProgram.hessian *
          Prediction.initialToInputs problem.closedLoop problem.gain problem.horizon) := by
  -- With the quadratic terms known, the objectives leave the linear terms to compare: as bilinear forms
  -- in the first state and the free variables.
  have hessian := problem.hessian_eq_substituted symmetric terminal
  apply Mat.toMatrix_inj.mp
  apply Matrix.ext_iff_mulVec.mpr
  intro z
  apply dotProduct_eq
  intro y
  have objectives :=
    problem.objective_withoutGain (Vec.ofFn z) (Vec.ofFn y) symmetric terminal
  simp only [CondensedProgram.objective_eq, get_plannedInputs, Vec.get_ofFn, Vec.get_zeros,
    mulVec_zero, zero_add, hessian, Mat.toMatrix_mul, Mat.toMatrix_transpose, ← mulVec_mulVec,
    mulVec_add, dotProduct_add, add_dotProduct, dotProduct_transpose_mulVec] at objectives
  rw [dotProduct_comm (problem.plainProgram.hessian.toMatrix *ᵥ _)] at objectives
  have crossed := problem.dotProduct_plainProgram_hessian_comm
    ((Prediction.initialToInputs problem.closedLoop problem.gain problem.horizon).toMatrix *ᵥ z)
    ((Prediction.freeToInputs problem.closedLoop problem.gain problem.horizon).toMatrix *ᵥ y)
  simp only [Mat.toMatrix_mul, Mat.toMatrix_add, Mat.toMatrix_transpose,
    dotProduct_substituted_linear]
  linarith

theorem bounds_inequalities :
    problem.inequalities.bounds = problem.inputInequalities.bounds := by
  simp only [inequalities]
  split <;> rfl

/-! ### The same minimizers -/

theorem isFeasible_withoutGain :
    problem.condense.IsFeasible x v ↔
      problem.plainProgram.IsFeasible x (problem.plannedInputs x v) := by
  rw [CondensedProgram.isFeasible_iff, CondensedProgram.isFeasible_iff, residual_withoutGain]

/-- Every sequence of inputs is planned by some free variables. -/
theorem exists_plannedInputs_eq (u : Vec ℝ (problem.horizon * m)) :
    ∃ v, problem.plannedInputs x v = u :=
  ⟨_, problem.system.stack_inputs_redone problem.gain x u⟩

theorem image_plannedInputs (symmetric : problem.inputWeight.toMatrix.IsSymm)
    (terminal : problem.terminalWeight.toMatrix.IsSymm) :
    problem.plannedInputs x '' problem.condense.minimizers x =
      problem.plainProgram.minimizers x := by
  choose free redone using problem.exists_plannedInputs_eq x
  exact CondensedProgram.image_minimizers redone (problem.isFeasible_withoutGain x)
    fun v => problem.objective_withoutGain x v symmetric terminal

/-- The condensed program under a feedback is the program without it after the substitution
`u = Γ v + Φ x₀`, an invertible one: its matrices are the substituted ones, it has the same feasible
inputs and the same minimizers. The problem without the feedback is the one that is accepted without
the gain. -/
theorem prestabilized_program_eq_substituted
    (symmetric : problem.inputWeight.transpose = problem.inputWeight)
    (terminal : problem.terminalWeight.transpose = problem.terminalWeight) :
    let fed := problem.condense
    let plain : CondensedProgram ℝ problem.horizon n m p := problem.withoutGain.condense
    let Γ := Prediction.freeToInputs problem.closedLoop problem.gain problem.horizon
    let Φ := Prediction.initialToInputs problem.closedLoop problem.gain problem.horizon
    (∀ kit system spec, Specification.problem kit system spec = .ok { problem } →
      problem.terminalKind = .explicit →
      Specification.problem kit system { spec with gain := .nothing } =
        .ok { problem := problem.withoutGain }) ∧
    (∃ Δ : Mat ℝ (problem.horizon * m) (problem.horizon * m),
      Δ * Γ = Mat.identity _ ∧ Γ * Δ = Mat.identity _) ∧
    fed.hessian = Γ.transpose * plain.hessian * Γ ∧
    fed.linear = Γ.transpose * (plain.linear + plain.hessian * Φ) ∧
    fed.bounds = plain.bounds ∧
    ∀ x, (∀ v, fed.IsFeasible x v ↔ plain.IsFeasible x (Γ.mulVec v + Φ.mulVec x)) ∧
      (fun v => Γ.mulVec v + Φ.mulVec x) '' fed.minimizers x = plain.minimizers x := by
  intro fed plain Γ Φ
  have symmetric := Mat.isSymm_of_transpose_eq symmetric
  have terminal := Mat.isSymm_of_transpose_eq terminal
  have substitution (x : Vec ℝ n) :
      problem.plannedInputs x = fun v => Γ.mulVec v + Φ.mulVec x :=
    funext fun v => problem.plannedInputs_eq x v
  refine ⟨fun kit system spec => Specification.problem_withoutGain,
    ⟨_, Prediction.freeToInputs_neg_mul problem.system problem.gain,
    Prediction.freeToInputs_mul_neg problem.system problem.gain⟩,
    problem.hessian_eq_substituted symmetric terminal,
    problem.linear_eq_substituted symmetric terminal, ?_, fun x => ⟨fun v => ?_, ?_⟩⟩
  · exact problem.bounds_inequalities.trans problem.withoutGain.bounds_inequalities.symm
  · have feasible := problem.isFeasible_withoutGain x v
    rwa [substitution] at feasible
  · have carried := problem.image_plannedInputs x symmetric terminal
    rwa [substitution] at carried

theorem prestabilized_program_eq_substituted_doubleIntegrator :
    let problem := doubleIntegrator
      { states := Mat.ofFn fun _ j => j.val, inputs := Mat.identity 1, bounds := Vec.zeros 1 }
    let x : Vec ℝ 2 := Vec.ofFn fun i => i.val + 1
    problem.inputWeight.transpose = problem.inputWeight ∧
    problem.terminalWeight.transpose = problem.terminalWeight ∧
    (fun v => (Prediction.freeToInputs problem.closedLoop problem.gain 3).mulVec v +
      (Prediction.initialToInputs problem.closedLoop problem.gain 3).mulVec x) ''
        problem.condense.minimizers x =
      problem.withoutGain.condense.minimizers x := by
  intro problem x
  have symmetric : problem.inputWeight.transpose = problem.inputWeight := Mat.transpose_identity
  have terminal : problem.terminalWeight.transpose = problem.terminalWeight :=
    Mat.transpose_identity
  obtain ⟨-, -, -, -, -, program⟩ :=
    prestabilized_program_eq_substituted problem symmetric terminal
  exact ⟨symmetric, terminal, (program x).2⟩

/-! ### Weights that are symmetric up to the tolerance only -/

/-- What the substituted linear term says about the objectives, with the quadratic parts taken away. -/
theorem objective_of_linear_substituted
    (linear : problem.condense.linear =
      (Prediction.freeToInputs problem.closedLoop problem.gain problem.horizon).transpose *
        (problem.plainProgram.linear + problem.plainProgram.hessian *
          Prediction.initialToInputs problem.closedLoop problem.gain problem.horizon)) :
    problem.condense.objective x v - problem.condense.objective (Vec.zeros n) v =
      problem.plainProgram.objective x (problem.plannedInputs x v) -
        problem.plainProgram.objective x (problem.plannedInputs x (Vec.zeros _)) -
        problem.plainProgram.objective (Vec.zeros n) (problem.plannedInputs (Vec.zeros n) v) := by
  -- What is left of the differences is the bilinear form of the Hessian at the two parts of the inputs.
  have crossed := problem.dotProduct_plainProgram_hessian_comm
    ((Prediction.initialToInputs problem.closedLoop problem.gain problem.horizon).toMatrix *ᵥ
      x.get)
    ((Prediction.freeToInputs problem.closedLoop problem.gain problem.horizon).toMatrix *ᵥ v.get)
  simp only [CondensedProgram.objective_eq, get_plannedInputs, linear, Mat.toMatrix_mul,
    Mat.toMatrix_add, Mat.toMatrix_transpose, dotProduct_substituted_linear, Vec.get_zeros,
    mulVec_zero, zero_dotProduct, zero_add, add_zero, mulVec_add, dotProduct_add, add_dotProduct]
  linarith

/-- A single stage without a terminal weight costs what its free variables cost. -/
theorem objective_one_stage (one : problem.horizon = 1) (unweighted : problem.terminalWeight = 0) :
    problem.condense.objective x v =
      2 * (x.get ⬝ᵥ problem.controlledCrossWeight.toMatrix *ᵥ (v.partAt 0).get) +
        (v.partAt 0).get ⬝ᵥ problem.inputWeight.toMatrix *ᵥ (v.partAt 0).get := by
  have last : problem.nextStateWeight 0 = 0 := by
    rw [nextStateWeight, one, if_pos rfl, unweighted]
  have terminal : problem.terminalWeight.toMatrix.IsSymm := by
    rw [unweighted, Mat.toMatrix_zero]
    exact Matrix.isSymm_zero
  have stages : Finset.range problem.horizon = {0} := by
    rw [one]
    rfl
  rw [objective_eq_stackedCost problem x v terminal, stackedCost_eq_sum, stackedCost_eq_sum, stages,
    Finset.sum_singleton, Finset.sum_singleton, last]
  simp [Vec.partAt_zeros, stateAt]

/-- An integrator with two inputs, whose weight is as far from its transpose as the tolerance allows.
The gain makes up for the size of the tolerance. -/
noncomputable def unevenIntegrator : ConstrainedLqr ℝ 1 2 0 where
  system := { dynamics := Mat.identity 1, input := Mat.ofFn fun _ _ => 1, interval := 1 }
  horizon := 1
  horizon_pos := by decide
  stateWeight := 0
  inputWeight := Mat.ofFn fun i j => if i = j then 1 else if i < j then (10 ^ 10)⁻¹ else 0
  crossWeight := Mat.ofFn fun _ _ => 10 ^ 10
  gain := Mat.ofFn fun _ _ => 10 ^ 10
  terminalKind := .explicit
  terminalWeight := 0
  stage := { states := 0, inputs := 0, bounds := Vec.zeros 0 }
  stateBounds := { lower := Vector.replicate 1 .bottom, upper := Vector.replicate 1 .top }
  inputBounds := { lower := Vector.replicate 2 .bottom, upper := Vector.replicate 2 .top }

/-- The specification that lists the data of the integrator. -/
noncomputable def unevenSpecification : Specification ℝ where
  horizon := .whole 1
  stateWeight := .array (.ofMat unevenIntegrator.stateWeight)
  inputWeight := .array (.ofMat unevenIntegrator.inputWeight)
  terminal := .given (.array (.ofMat unevenIntegrator.terminalWeight))
  crossWeight := .array (.ofMat unevenIntegrator.crossWeight)
  gain := .array (.ofMat unevenIntegrator.gain)

theorem problem_unevenSpecification (kit : Kernels ℝ) :
    Specification.problem kit unevenIntegrator.system unevenSpecification =
      .ok { problem := unevenIntegrator } := by
  have zero (i j : Fin 1) : |(0 : Mat ℝ 1 1) i j - (0 : Mat ℝ 1 1) j i| ≤ symmetryTolerance := by
    simp [symmetryTolerance]
    norm_num
  have uneven (i j : Fin 2) :
      |unevenIntegrator.inputWeight i j - unevenIntegrator.inputWeight j i| ≤ symmetryTolerance := by
    fin_cases i <;> fin_cases j <;> simp [unevenIntegrator, symmetryTolerance] <;> norm_num
  have definite : unevenIntegrator.inputWeight.isPositiveDefinite = true := by
    simp [unevenIntegrator, Mat.isPositiveDefinite, Mat.cholesky?, firstIndex]
  exact Specification.problem_eq_ok_iff.mpr ⟨rfl, {
    horizon := Specification.readHorizon_whole unevenIntegrator.horizon_pos
    weights := Specification.readWeights_ofMat zero uneven definite
    cross := Specification.readCross_ofMat _
    gain := Specification.readGain_ofMat _
    stage := rfl
    terminal := Specification.readTerminal_ofMat zero
    bounds := Specification.readBounds_real (.bottom, .top) (.bottom, .top) rfl rfl rfl rfl rfl
      rfl }⟩

/-- The integrator is accepted and has a symmetric terminal weight, but its linear term is not the
substituted one: the weight of the inputs has to be symmetric exactly. -/
theorem linear_ne_substituted_unevenIntegrator :
    (∀ kit, Specification.problem kit unevenIntegrator.system unevenSpecification =
      .ok { problem := unevenIntegrator }) ∧
    unevenIntegrator.terminalWeight.transpose = unevenIntegrator.terminalWeight ∧
    unevenIntegrator.condense.linear ≠
      (Prediction.freeToInputs unevenIntegrator.closedLoop unevenIntegrator.gain
        unevenIntegrator.horizon).transpose *
        (unevenIntegrator.plainProgram.linear + unevenIntegrator.plainProgram.hessian *
          Prediction.initialToInputs unevenIntegrator.closedLoop unevenIntegrator.gain
            unevenIntegrator.horizon) := by
  refine ⟨problem_unevenSpecification, ?_, fun substituted => ?_⟩
  · ext i j
    simp [unevenIntegrator]
  · -- The two linear terms differ by half the gain times the distance of the weight from its transpose.
    let x : Vec ℝ 1 := Vec.ofFn fun _ => 1
    let v : Vec ℝ (unevenIntegrator.horizon * 2) := Vec.stack fun _ => Vec.ofFn fun i => 1 - i.val
    have objectives := unevenIntegrator.objective_of_linear_substituted x v substituted
    have fed (x : Vec ℝ 1) (v : Vec ℝ (unevenIntegrator.horizon * 2)) :=
      unevenIntegrator.objective_one_stage x v rfl rfl
    have plain (x : Vec ℝ 1) (u : Vec ℝ (unevenIntegrator.horizon * 2)) :
        unevenIntegrator.plainProgram.objective x u =
          2 * (x.get ⬝ᵥ unevenIntegrator.withoutGain.controlledCrossWeight.toMatrix *ᵥ
            (u.partAt 0).get) +
            (u.partAt 0).get ⬝ᵥ unevenIntegrator.inputWeight.toMatrix *ᵥ (u.partAt 0).get :=
      unevenIntegrator.withoutGain.objective_one_stage x u rfl rfl
    have input (x : Vec ℝ 1) (v : Vec ℝ (unevenIntegrator.horizon * 2)) :
        (unevenIntegrator.plannedInputs x v).partAt 0 =
          LinearSystem.applied unevenIntegrator.gain x (v.partAt 0) :=
      Vec.partAt_stack _ (⟨0, Nat.one_pos⟩ : Fin 1)
    have free : v.partAt 0 = (Vec.ofFn fun i => 1 - i.val : Vec ℝ 2) :=
      Vec.partAt_stack _ (⟨0, Nat.one_pos⟩ : Fin 1)
    have rest : (Vec.zeros (unevenIntegrator.horizon * 2) : Vec ℝ _).partAt 0 = Vec.zeros 2 :=
      Vec.partAt_zeros 0
    rw [fed, fed, plain, plain, plain, input, input, input, free, rest] at objectives
    simp [unevenIntegrator, withoutGain, controlledCrossWeight, controlledCross, x,
      LinearSystem.get_applied, dotProduct, mulVec, Matrix.mul_apply, Fin.sum_univ_two]
      at objectives
    norm_num at objectives

end ConstrainedLqr

end RecedingHorizon
