import RecedingHorizon.Proofs.Condensing.Weights

/-!
# The condensed inequalities are those of the rollout

In terms of the inputs, the inequalities of all stages are those of a rollout without a feedback
(`residual_inputInequalities`). The change to the free variables replaces the inputs by the inputs of
the rollout (`residual_inequalities`), and these lead to the same states. So each part of the residual
is the residual of its stage.
-/

namespace RecedingHorizon

open Matrix

namespace ConstrainedLqr

variable {N n m p : Nat}

/-- The left side of the inequalities less the right side. -/
noncomputable def Inequalities.residual (rows : Inequalities ℝ N n m p) (x : Vec ℝ n)
    (v : Vec ℝ (N * m)) : Vec ℝ (N * p) :=
  rows.coefficients.mulVec v - (rows.bounds + rows.coupling.mulVec x)

theorem part_kronecker_replicate (g : Vec ℝ p) (k : Fin N) :
    (Vec.kronecker (Vector.replicate N 1) g).part k = g := by
  rw [Vec.part_kronecker]
  apply Vec.ext
  intro i
  change (Vector.map _ g)[i.val] = g[i.val]
  simp [Vector.get]

variable (problem : ConstrainedLqr ℝ n m p) (x : Vec ℝ n)

/-! ### Inequalities of the inputs -/

theorem residual_inputInequalities_eq (u : Vec ℝ (problem.horizon * m)) :
    problem.inputInequalities.residual x u =
      (repeated problem.horizon problem.stage.states).mulVec
          (Vec.stack fun k => problem.system.stateAt 0 x u.partAt (k.val + 1)) +
        (repeated problem.horizon problem.stage.inputs).mulVec u -
        Vec.kronecker (Vector.replicate problem.horizon 1) problem.stage.bounds := by
  have states := problem.system.stack_later_states 0 x u
  rw [LinearSystem.closedLoop_zero] at states
  rw [states]
  apply Vec.get_inj.mp
  simp only [Inequalities.residual, inputInequalities, Vec.get_sub, Vec.get_add, Mat.get_mulVec,
    Mat.toMatrix_add, Mat.toMatrix_neg, Mat.toMatrix_mul, add_mulVec, neg_mulVec, mulVec_add,
    ← mulVec_mulVec]
  abel

/-- In terms of the inputs, each part of the residual is that of a stage without a feedback. -/
theorem residual_inputInequalities (u : Vec ℝ (problem.horizon * m)) (k : Fin problem.horizon) :
    (problem.inputInequalities.residual x u).part k =
      problem.stageResidual (problem.system.stateAt 0 x u.partAt (k.val + 1)) (u.part k) := by
  rw [residual_inputInequalities_eq, Vec.part_sub, Vec.part_add, part_mulVec_repeated,
    part_mulVec_repeated, Vec.part_stack, part_kronecker_replicate, stageResidual]

/-! ### Inequalities of the free variables -/

variable (v : Vec ℝ (problem.horizon * m))

/-- The inputs `u₀, …, u_{N-1}` of the rollout. -/
noncomputable def plannedInputs : Vec ℝ (problem.horizon * m) :=
  Vec.stack fun i => problem.inputAt x v.partAt i.val

theorem get_plannedInputs :
    (problem.plannedInputs x v).get =
      (Prediction.freeToInputs problem.closedLoop problem.gain problem.horizon).toMatrix *ᵥ v.get +
        (Prediction.initialToInputs problem.closedLoop problem.gain problem.horizon).toMatrix *ᵥ
          x.get := by
  have inputs := problem.system.stack_inputs problem.gain x v
  rw [← Mat.get_mulVec, ← Mat.get_mulVec, ← Vec.get_add]
  exact congrArg Vector.get inputs

theorem gain_eq_zero (plain : problem.isPrestabilized = false) : problem.gain = 0 := by
  ext i j
  have entry := Mat.anyEntry_eq_false.mp plain i j
  rw [Mat.zero_entry]
  simpa using entry

theorem plannedInputs_of_gain_eq_zero (plain : problem.gain = 0) :
    problem.plannedInputs x v = v := by
  apply Vec.ext_part
  intro k
  rw [plannedInputs, Vec.part_stack, inputAt, LinearSystem.inputAt, plain,
    LinearSystem.applied_zero, Vec.partAt_val]

/-- The inequalities of the free variables are those of the inputs that they lead to. -/
theorem residual_inequalities :
    problem.inequalities.residual x v =
      problem.inputInequalities.residual x (problem.plannedInputs x v) := by
  simp only [inequalities]
  -- The change of variables is made for a gain that is not zero; without one it changes nothing.
  split
  · apply Vec.get_inj.mp
    simp only [Inequalities.residual, Vec.get_sub, Vec.get_add, Mat.get_mulVec, Mat.toMatrix_sub,
      Mat.toMatrix_mul, get_plannedInputs, sub_mulVec, mulVec_add, ← mulVec_mulVec]
    abel
  · next unfed =>
    have plain := problem.gain_eq_zero (Bool.eq_false_iff.mpr unfed)
    rw [plannedInputs_of_gain_eq_zero problem x v plain]

/-- The residual of the condensed program is the stack of the residuals of all stages. -/
theorem residual_feasibleSet :
    (problem.condense.feasibleSet x).residual v =
      Vec.stack fun k => problem.residualAt x v.partAt k.val := by
  -- First to the residual of the inputs of the rollout, then part by part to their states.
  have moved : (problem.condense.feasibleSet x).residual v =
      problem.inputInequalities.residual x (problem.plannedInputs x v) :=
    problem.residual_inequalities x v
  rw [moved]
  apply Vec.ext_part
  intro k
  have state : problem.system.stateAt 0 x (problem.plannedInputs x v).partAt (k.val + 1) =
      problem.stateAt x v.partAt (k.val + 1) :=
    problem.system.stateAt_stack_inputs problem.gain x v.partAt k.isLt
  rw [residual_inputInequalities, state, plannedInputs, Vec.part_stack, Vec.part_stack, residualAt]

end ConstrainedLqr

/-! ### Arrays -/

namespace ConstrainedLqr

variable {n m p : Nat} (problem : ConstrainedLqr ℝ n m p) (x : Vec ℝ n)
  (v : Vec ℝ (problem.horizon * m))

theorem residualAt_nonpos_iff (k : Nat) (i : Fin p) :
    problem.residualAt x v.partAt k i ≤ 0 ↔
      (problem.stage.states.mulVec (problem.stateAt x v.partAt (k + 1)) +
        problem.stage.inputs.mulVec (problem.inputAt x v.partAt k)) i ≤ problem.stage.bounds i := by
  rw [residualAt, stageResidual]
  change (_ - _ : Vec ℝ p).get i ≤ 0 ↔ _
  rw [Vec.get_sub, Pi.sub_apply, sub_nonpos]

/-- The free variables are feasible exactly if every row of every stage of the rollout holds. -/
theorem isSatisfied_feasibleSet_iff :
    (problem.condense.feasibleSet x).isSatisfied v 0 = true ↔
      ∀ (k : Fin problem.horizon) (i : Fin p),
        (problem.stage.states.mulVec (problem.stateAt x v.partAt (k.val + 1)) +
          problem.stage.inputs.mulVec (problem.inputAt x v.partAt k.val)) i ≤
            problem.stage.bounds i := by
  rw [Polytope.isSatisfied_iff, residual_feasibleSet]
  simp only [← residualAt_nonpos_iff]
  constructor
  · intro holds k i
    have row := holds (Stacked.index k i)
    rwa [Vec.stack_get, Stacked.stage_index, Stacked.position_index] at row
  · intro holds place
    rw [Vec.stack_get]
    exact holds _ _

/-- The residual of the condensed program, and that of its feasible set, stack the residuals of the
stages of the rollout. So free variables are feasible exactly if every row of every stage holds, and
without rows all of them are. -/
theorem condensed_rows_are_stage_rows :
    let rows := Vec.stack fun k : Fin problem.horizon => problem.residualAt x v.partAt k.val
    problem.condense.residualOf (.ofVec v) (.ofVec x) = .ok (.ofVec rows) ∧
    ∃ set, problem.condense.feasibleSetOf (.ofVec x) = .ok set ∧
      set.polytope.residualOf (.ofVec v) = .ok (.ofVec rows) ∧
      ∃ satisfied, set.polytope.isSatisfiedBy (.ofVec v) 0 = .ok satisfied ∧
        (satisfied = true ↔ ∀ (k : Fin problem.horizon) (i : Fin p),
          (problem.stage.states.mulVec (problem.stateAt x v.partAt (k.val + 1)) +
            problem.stage.inputs.mulVec (problem.inputAt x v.partAt k.val)) i ≤
              problem.stage.bounds i) ∧
        (p = 0 → satisfied = true) := by
  intro rows
  have stacked : (problem.condense.feasibleSet x).residual v = rows :=
    problem.residual_feasibleSet x v
  refine ⟨?_, _, CondensedProgram.feasibleSetOf_ofVec problem.condense x, ?_, _,
    Polytope.isSatisfiedBy_ofVec _ v 0, problem.isSatisfied_feasibleSet_iff x v, ?_⟩
  · rw [CondensedProgram.residualOf_ofVec, stacked]
  · rw [Polytope.residualOf_ofVec, stacked]
  · intro noRows
    rw [isSatisfied_feasibleSet_iff]
    intro k i
    exact absurd i.isLt (by omega)

/-! ### Rows of the double integrator -/

/-- The double integrator, whose next position and input are in sum at most `4`. -/
noncomputable def cappedIntegrator : ConstrainedLqr ℝ 2 1 1 := doubleIntegrator
  { states := Mat.ofFn fun _ j => 1 - j.val, inputs := Mat.identity 1, bounds := #v[4] }

section CappedIntegrator

variable {x : Vec ℝ 2} {v : Nat → Vec ℝ 1} {k : Nat} {a b w : ℝ}

theorem inputAt_cappedIntegrator (state : cappedIntegrator.stateAt x v k = #v[a, b])
    (free : v k = #v[w]) : cappedIntegrator.inputAt x v k = #v[w - (a + 2 * b)] := by
  rw [inputAt, LinearSystem.inputAt, ← stateAt, state, free]
  apply Vec.get_inj.mp
  funext i
  rw [LinearSystem.get_applied, Pi.sub_apply, Matrix.mulVec, dotProduct, Fin.sum_univ_two]
  simp [cappedIntegrator, doubleIntegrator, Vector.get, Subsingleton.elim i 0]
  norm_num

theorem stateAt_succ_cappedIntegrator (state : cappedIntegrator.stateAt x v k = #v[a, b])
    (free : v k = #v[w]) : cappedIntegrator.stateAt x v (k + 1) = #v[a + b, w - (a + b)] := by
  have moved : cappedIntegrator.stateAt x v (k + 1) =
      cappedIntegrator.system.next #v[a, b] #v[w - (a + 2 * b)] := by
    rw [← state, ← inputAt_cappedIntegrator state free]
    rfl
  rw [moved]
  apply Vec.get_inj.mp
  funext i
  rw [LinearSystem.next, Vec.get_add, Pi.add_apply, Mat.get_mulVec, Mat.get_mulVec, Matrix.mulVec,
    Matrix.mulVec, dotProduct, dotProduct, Fin.sum_univ_two, Fin.sum_univ_one]
  fin_cases i <;> simp [cappedIntegrator, doubleIntegrator, Vector.get]
  ring

theorem residualAt_cappedIntegrator (state : cappedIntegrator.stateAt x v k = #v[a, b])
    (free : v k = #v[w]) : cappedIntegrator.residualAt x v k = #v[w - b - 4] := by
  rw [residualAt, stateAt_succ_cappedIntegrator state free, inputAt_cappedIntegrator state free]
  apply Vec.get_inj.mp
  funext i
  rw [stageResidual, Vec.get_sub, Vec.get_add, Pi.sub_apply, Pi.add_apply, Mat.get_mulVec,
    Mat.get_mulVec, Matrix.mulVec, Matrix.mulVec, dotProduct, dotProduct, Fin.sum_univ_two,
    Fin.sum_univ_one]
  simp [cappedIntegrator, doubleIntegrator, Vector.get, Subsingleton.elim i 0]
  ring

end CappedIntegrator

/-- The first and the last stage leave room and the middle one none; a stage without rows asks for
nothing. -/
theorem condensed_rows_are_stage_rows_doubleIntegrator :
    let rowless := doubleIntegrator { states := 0, inputs := 0, bounds := Vec.zeros 0 }
    let x : Vec ℝ 2 := #v[1, 2]
    let v : Vec ℝ (cappedIntegrator.horizon * 1) := Vec.stack fun k => #v[(k.val : ℝ)]
    cappedIntegrator.condense.residualOf (.ofVec v) (.ofVec x) =
      .ok (.ofVec (Vec.stack ![#v[-6], #v[0], #v[-3]])) ∧
    (∃ set, cappedIntegrator.condense.feasibleSetOf (.ofVec x) = .ok set ∧
      set.polytope.isSatisfiedBy (.ofVec v) 0 = .ok true) ∧
    ∃ set, rowless.condense.feasibleSetOf (.ofVec x) = .ok set ∧
      set.polytope.isSatisfiedBy (.ofVec v) 0 = .ok true := by
  intro rowless x v
  obtain ⟨stacked, set, built, -, satisfied, answer, accepted, -⟩ :=
    condensed_rows_are_stage_rows cappedIntegrator x v
  have free (k : Fin 3) : v.partAt k.val = #v[(k.val : ℝ)] := Vec.partAt_stack _ k
  have first : cappedIntegrator.stateAt x v.partAt 0 = #v[1, 2] := rfl
  have second := stateAt_succ_cappedIntegrator first (free 0)
  have third := stateAt_succ_cappedIntegrator second (free 1)
  have rows : (fun k : Fin 3 => cappedIntegrator.residualAt x v.partAt k.val) =
      ![#v[-6], #v[0], #v[-3]] := by
    funext k
    fin_cases k
    · exact (residualAt_cappedIntegrator first (free 0)).trans (by norm_num)
    · exact (residualAt_cappedIntegrator second (free 1)).trans (by norm_num)
    · exact (residualAt_cappedIntegrator third (free 2)).trans (by norm_num)
  have inside : satisfied = true := by
    refine accepted.mpr fun k i => (residualAt_nonpos_iff cappedIntegrator x v k i).mp ?_
    rw [congrFun rows k, Subsingleton.elim i 0]
    fin_cases k
    · exact neg_nonpos.mpr (by norm_num)
    · exact le_rfl
    · exact neg_nonpos.mpr (by norm_num)
  obtain ⟨-, plain, formed, -, all, taken, -, accepted⟩ :=
    condensed_rows_are_stage_rows rowless x v
  have whole : all = true := accepted rfl
  exact ⟨rows ▸ stacked, ⟨set, built, inside ▸ answer⟩, plain, formed, whole ▸ taken⟩

end ConstrainedLqr

end RecedingHorizon
