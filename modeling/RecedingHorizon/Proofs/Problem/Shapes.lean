import RecedingHorizon.Proofs.Condensing.Assembly
import RecedingHorizon.Proofs.Exact.Kernels
import RecedingHorizon.Proofs.Problem.Acceptance

/-!
# Shapes of accepted problems

Every part of a specification is read from an argument of any shape. What is read from it, if it is
read at all, has the shape that the system asks for (`Fits`), whatever the argument was: a scalar, a
list or a matrix. The matrices of the problem therefore fit together wherever they meet, and the
condensed program can be assembled from them (`problem_fits_and_assembles`).
-/

namespace RecedingHorizon

variable {α : Type} [Scalar α] {n m p : Nat}

/-! ### Bounds -/

theorem Argument.isUndefined_of_toBoundVector {a : Argument (Extended α)} {name : String}
    {bounds : Vec (Extended α) n} (read : a.toBoundVector n name = .ok bounds) (i : Fin n) :
    (bounds i).isUndefined = false := by
  obtain ⟨t, -, read⟩ := bind_eq_ok read
  dsimp only at read
  split at read
  · cases read
  · next defined =>
    have entry {e : Extended α} (member : e ∈ t.toList) : e.isUndefined = false :=
      Bool.eq_false_iff.mpr fun undefined => defined (List.any_eq_true.mpr ⟨e, member, undefined⟩)
    -- A single bound is repeated, and a list of the right length is taken as it is.
    split at read
    · next bound single =>
      cases read
      have value : (Vector.replicate n bound) i = bound := Vector.getElem_replicate i.isLt
      rw [value]
      exact entry (single ▸ List.mem_singleton_self bound)
    · split at read
      · next sized =>
        cases read
        exact entry (List.getElem_mem (h := sized.symm ▸ i.isLt))
      · cases read

/-- Intervals that are not empty: no bound is undefined, and no upper bound is below its lower one. -/
structure Bounds.AreOrdered (bounds : Bounds α n) : Prop where
  lower_defined (i : Fin n) : (bounds.lower i).isUndefined = false
  upper_defined (i : Fin n) : (bounds.upper i).isUndefined = false
  not_lt (i : Fin n) : Extended.lt (bounds.upper i) (bounds.lower i) = false

/-- Among numbers of which one is always the smaller or they are equal, the bounds are ordered. -/
theorem Bounds.AreOrdered.le {bounds : Bounds α n} (ordered : bounds.AreOrdered)
    (total : ∀ x y : α, ¬y < x → x ≤ y) (i : Fin n) :
    Extended.le (bounds.lower i) (bounds.upper i) = true := by
  have lower := ordered.lower_defined i
  have upper := ordered.upper_defined i
  have apart := ordered.not_lt i
  revert lower upper apart
  cases bounds.lower i <;> cases bounds.upper i <;>
    simp_all [Extended.isUndefined, Extended.lt, Extended.le]

/-! ### Weights -/

/-- If sums do not depend on the order, a symmetric part is symmetric. -/
theorem Mat.transpose_symmetrize (commutes : ∀ x y : α, x + y = y + x) (M : Mat α n n) :
    M.symmetrize.transpose = M.symmetrize := by
  ext i j
  simp only [symmetrize, scale, transpose_entry, map_entry, add_entry, commutes (M j i)]

namespace Specification

theorem readHorizon_eq_ok {a : Argument α} {N : Nat} {positive : 1 ≤ N}
    (read : readHorizon a = .ok ⟨N, positive⟩) :
    a.wholePart = .ok (N : Int) ∧ isEqualTo a N = true := by
  obtain ⟨i, whole, read⟩ := bind_eq_ok read
  dsimp only at read
  split at read
  · next atLeastOne =>
    split at read
    · next equal =>
      cases read
      have exact : (i.toNat : Int) = i := by omega
      rw [exact]
      exact ⟨whole, equal⟩
    · cases read
  · cases read

omit [Scalar α] in
/-- An array that has passed the check of its size is the matrix it was read as. -/
theorem eq_ok_of_matrixOfSize {x : Except Fault (Tensor α)} {M : Mat α n m} {name : String}
    (read : (do (← x).matrixOfSize n m name) = .ok M) : x = .ok (.ofMat M) := by
  obtain ⟨t, built, sized⟩ := bind_eq_ok read
  rw [built, Tensor.eq_ofMat_of_matrixOfSize sized]

theorem readCross_eq_ok {a : Argument α} {S : Mat α n m} (read : readCross a = .ok S) :
    if a.isGiven then a.toMatrix .nothing "S" = .ok (.ofMat S) else S = 0 := by
  unfold readCross at read
  cases given : a.isGiven with
  | true =>
    rw [given] at read
    exact eq_ok_of_matrixOfSize read
  | false =>
    rw [given] at read
    cases read
    rfl

/-- An array as a gain, where a list is the only row. -/
def gainMatrix : Tensor α → Except Fault (Tensor α)
  | ⟨[k], cells⟩ =>
    let row : Vec α k := cells
    .ok (.ofMat (Mat.ofRow row))
  | t => (Argument.array t).toMatrix .nothing "K"

theorem readGain_eq_ok {kit : Kernels α} {system : LinearSystem α n m} {Q : Mat α n n}
    {R : Mat α m m} {S : Mat α n m} {K : Mat α m n} {t : Tensor α}
    (read : readGain kit system Q R S (.array t) = .ok K) : gainMatrix t = .ok (.ofMat K) := by
  obtain ⟨shape, cells⟩ := t
  match shape, cells with
  | [_], _ => exact congrArg Except.ok (Tensor.eq_ofMat_of_matrixOfSize read)
  | [], _ => exact eq_ok_of_matrixOfSize read
  | _ :: _ :: _, _ => exact eq_ok_of_matrixOfSize read

theorem readTerminal_eq_ok {kit : Kernels α} {system : LinearSystem α n m} {Q P : Mat α n n}
    {R : Mat α m m} {S : Mat α n m} {K : Mat α m n} {a : Argument α} {kind : TerminalWeight}
    (unnamed : ∀ s, a ≠ .text s)
    (read : readTerminal kit system Q R S K (.given a) = .ok (kind, P)) :
    kind = .explicit ∧ a.toMatrix (.whole n) "P" = .ok (.ofMat P) := by
  unfold readTerminal at read
  split at read
  · next same => cases same
  · next same =>
    cases same
    exact absurd rfl (unnamed _)
  · next same =>
    cases same
    obtain ⟨weight, built, read⟩ := bind_eq_ok read
    obtain ⟨_, sized, read⟩ := bind_eq_ok read
    obtain ⟨_, -, read⟩ := bind_eq_ok read
    cases read
    rw [built, Tensor.eq_ofMat_of_matrixOfSize sized]
    exact ⟨rfl, rfl⟩

theorem readStage_eq_ok {states inputs bounds : Argument α} {stage : StageConstraints α n m p}
    (read : readStage n m states inputs bounds = .ok ⟨p, stage⟩) :
    (states.isGiven = false ∧ inputs.isGiven = false ∧ bounds.isGiven = false ∧ p = 0) ∨
      ∃ t, bounds.toTensor = .ok t ∧ t.flatten = .ofVec stage.bounds ∧
        readCoefficients states p n = .ok (.ofMat stage.states) ∧
        readCoefficients inputs p m = .ok (.ofMat stage.inputs) := by
  unfold readStage at read
  -- Either nothing is given, or all parts are read and their numbers of rows compared.
  split at read
  · next missing =>
    cases read
    left
    simpa [and_assoc] using missing
  · right
    split at read
    · cases read
    · obtain ⟨t, entries, read⟩ := bind_eq_ok read
      obtain ⟨E, stateRows, read⟩ := bind_eq_ok read
      obtain ⟨F, inputRows, read⟩ := bind_eq_ok read
      dsimp only at read
      split at read
      · obtain ⟨sameRows, read⟩ := dite_eq_ok read
        obtain ⟨rows, read⟩ := dite_eq_ok read
        obtain ⟨states, read⟩ := dite_eq_ok read
        obtain ⟨inputs, read⟩ := dite_eq_ok read
        subst states inputs sameRows rows
        cases read
        exact ⟨t, entries, t.flatten_eq_ofVec rfl, stateRows, inputRows⟩
      · cases read

/-! ### All parts -/

/-- The arguments of a specification, as arrays, have the shapes of the parts of a problem. -/
structure Fits (spec : Specification α) (problem : ConstrainedLqr α n m p) : Prop where
  /-- The horizon is a positive whole number. -/
  horizon : 1 ≤ problem.horizon ∧ spec.horizon.wholePart = .ok (problem.horizon : Int) ∧
    isEqualTo spec.horizon problem.horizon = true
  stateWeight : spec.stateWeight.toMatrix (.whole n) "Q" = .ok (.ofMat problem.stateWeight)
  inputWeight : spec.inputWeight.toMatrix (.whole m) "R" = .ok (.ofMat problem.inputWeight)
  crossWeight : if spec.crossWeight.isGiven then
      spec.crossWeight.toMatrix .nothing "S" = .ok (.ofMat problem.crossWeight)
    else problem.crossWeight = 0
  gain (t : Tensor α) : spec.gain = .array t → gainMatrix t = .ok (.ofMat problem.gain)
  /-- The weights under the feedback, put together from these arrays. -/
  controlledStateWeight : Assembly.controlledWeight (.ofMat problem.stateWeight)
    (.ofMat problem.inputWeight) (.ofMat problem.crossWeight) (.ofMat problem.gain) =
      .ok (.ofMat problem.controlledStateWeight)
  controlledCrossWeight : Assembly.controlledCross (.ofMat problem.inputWeight)
    (.ofMat problem.crossWeight) (.ofMat problem.gain) = .ok (.ofMat problem.controlledCrossWeight)
  /-- A terminal weight that is not asked for by name. -/
  terminalWeight (a : Argument α) : spec.terminal = .given a → (∀ s, a ≠ .text s) →
    a.toMatrix (.whole n) "P" = .ok (.ofMat problem.terminalWeight)
  /-- Either there are no inequalities, or the bounds are as many as both matrices have rows. -/
  stage : (spec.stageStates.isGiven = false ∧ spec.stageInputs.isGiven = false ∧
      spec.stageBounds.isGiven = false ∧ p = 0) ∨
    ∃ t, spec.stageBounds.toTensor = .ok t ∧ t.flatten = .ofVec problem.stage.bounds ∧
      readCoefficients spec.stageStates p n = .ok (.ofMat problem.stage.states) ∧
      readCoefficients spec.stageInputs p m = .ok (.ofMat problem.stage.inputs)
  stateBounds : spec.stateLower.toBoundVector n "x_lower" = .ok problem.stateBounds.lower ∧
    spec.stateUpper.toBoundVector n "x_upper" = .ok problem.stateBounds.upper ∧
    problem.stateBounds.AreOrdered
  inputBounds : spec.inputLower.toBoundVector m "u_lower" = .ok problem.inputBounds.lower ∧
    spec.inputUpper.toBoundVector m "u_upper" = .ok problem.inputBounds.upper ∧
    problem.inputBounds.AreOrdered

variable {kit : Kernels α} {system : LinearSystem α n m} {spec : Specification α}
  {problem : ConstrainedLqr α n m p}

theorem Yields.fits (yields : Yields kit spec problem) : spec.Fits problem := by
  obtain ⟨state, input, -, -⟩ := readWeights_eq_ok yields.weights
  obtain ⟨stateLower, stateUpper, inputLower, inputUpper, states, inputs⟩ :=
    readBounds_eq_ok yields.bounds
  exact {
    horizon := ⟨problem.horizon_pos, readHorizon_eq_ok yields.horizon⟩
    stateWeight := state
    inputWeight := input
    crossWeight := readCross_eq_ok yields.cross
    gain := fun t given => readGain_eq_ok (given ▸ yields.gain)
    controlledStateWeight := Assembly.controlledWeight_ofMat _ _ _ _
    controlledCrossWeight := Assembly.controlledCross_ofMat _ _ _
    terminalWeight := fun a given unnamed =>
      (readTerminal_eq_ok unnamed (given ▸ yields.terminal)).2
    stage := readStage_eq_ok yields.stage
    stateBounds := ⟨stateLower, stateUpper, {
      lower_defined := Argument.isUndefined_of_toBoundVector stateLower
      upper_defined := Argument.isUndefined_of_toBoundVector stateUpper
      not_lt := Bounds.areCrossed_eq_false.mp states }⟩
    inputBounds := ⟨inputLower, inputUpper, {
      lower_defined := Argument.isUndefined_of_toBoundVector inputLower
      upper_defined := Argument.isUndefined_of_toBoundVector inputUpper
      not_lt := Bounds.areCrossed_eq_false.mp inputs }⟩ }

/-- Whatever the arguments of an accepted specification are, they are read as parts of the right
shapes: a horizon of at least one stage, weights and inequalities that fit the system and each other,
a symmetric weight under the feedback and ordered bounds. No step of the assembly of the condensed
program then fails; its matrices are cut into one block for every stage, and they can be applied to
every first state and every stack of free variables. -/
theorem problem_fits_and_assembles
    (accepted : Specification.problem kit system spec = .ok { problem }) :
    let N := problem.horizon
    let program := problem.condense
    spec.Fits problem ∧
    ((∀ x y : α, x + y = y + x) →
      problem.controlledStateWeight.transpose = problem.controlledStateWeight) ∧
    ((∀ x y : α, ¬y < x → x ≤ y) →
      (∀ i, Extended.le (problem.stateBounds.lower i) (problem.stateBounds.upper i) = true) ∧
      ∀ i, Extended.le (problem.inputBounds.lower i) (problem.inputBounds.upper i) = true) ∧
    Assembly.program problem = .ok program.blocks ∧
    program.blocks.hessian.HasBlocks N N m m ∧ program.blocks.linear.HasBlocks N 1 m n ∧
    program.blocks.coefficients.HasBlocks N N p m ∧ program.blocks.coupling.HasBlocks N 1 p n ∧
    program.blocks.bounds.HasParts N p ∧
    ∀ (x : Vec α n) (v : Vec α (N * m)),
      (∃ term : Vec α (N * m), program.linearTermOf (.ofVec x) = .ok (.ofVec term)) ∧
      (∃ right : Vec α (N * p), program.rightSideOf (.ofVec x) = .ok (.ofVec right)) ∧
      (∃ set : Polytope α (N * p) (N * m),
        program.feasibleSetOf (.ofVec x) = .ok { polytope := set }) ∧
      ∃ residual : Vec α (N * p),
        program.residualOf (.ofVec v) (.ofVec x) = .ok (.ofVec residual) := by
  intro N program
  have fits : spec.Fits problem := (problem_eq_ok_iff.mp accepted).2.fits
  refine ⟨fits, fun commutes => ?_, fun total => ⟨?_, ?_⟩, Assembly.program_eq problem,
    BlockMatrix.hasBlocks_square _, BlockMatrix.hasBlocks_column _,
    BlockMatrix.hasBlocks_square _, BlockMatrix.hasBlocks_column _,
    BlockMatrix.hasParts_stacked _, fun x v => ⟨?_, ?_, ?_, ?_⟩⟩
  · exact Mat.transpose_symmetrize commutes _
  · exact fits.stateBounds.2.2.le total
  · exact fits.inputBounds.2.2.le total
  · exact ⟨_, program.linearTermOf_ofVec x⟩
  · exact ⟨_, program.rightSideOf_ofVec x⟩
  · exact ⟨_, program.feasibleSetOf_ofVec x⟩
  · exact ⟨_, program.residualOf_ofVec x v⟩

end Specification

/-! ### A problem with inequalities -/

namespace ConstrainedLqr

/-- The state that doubles in every stage, over two stages under a feedback, with two inequalities
for the input of a stage. -/
noncomputable def limitedDoubling : ConstrainedLqr ℝ 1 1 2 :=
  { doubling 2 one_le_two 1 (5 / 2) 3 (.bottom, .top) with
    stage :=
      { states := 0
        inputs := Mat.ofColumn #v[1, -1]
        bounds := #v[4, 4] } }

/-- The specification of the problem, with the coefficients of the input as a list. -/
noncomputable def limitedSpecification : Specification ℝ :=
  { doublingSpecification 2 1 (5 / 2) 3 (.bottom, .top) with
    stageInputs := .array (.ofVec #v[1, -1])
    stageBounds := .array (.ofVec #v[4, 4]) }

theorem problem_limitedSpecification (kit : Kernels ℝ) :
    Specification.problem kit limitedDoubling.system limitedSpecification =
      .ok { problem := limitedDoubling } := by
  have accepted : Specification.problem kit limitedDoubling.system
      (doublingSpecification 2 1 (5 / 2) 3 (.bottom, .top)) =
        .ok { problem := doubling 2 one_le_two 1 (5 / 2) 3 (.bottom, .top) } :=
    problem_doublingSpecification kit one_le_two 1 (5 / 2) 3 rfl
  obtain ⟨-, yields⟩ := Specification.problem_eq_ok_iff.mp accepted
  exact Specification.problem_eq_ok_iff.mpr ⟨rfl, { yields with stage := rfl }⟩

/-- Two stages with two inequalities each. -/
theorem problem_fits_and_assembles_limitedDoubling :
    let problem := limitedDoubling
    Specification.problem Kernels.unable problem.system limitedSpecification = .ok { problem } ∧
    limitedSpecification.Fits problem ∧
    problem.controlledStateWeight.transpose = problem.controlledStateWeight ∧
    (∀ i, Extended.le (problem.inputBounds.lower i) (problem.inputBounds.upper i) = true) ∧
    ∃ blocks, Assembly.program problem = .ok blocks ∧ blocks.hessian.HasBlocks 2 2 1 1 ∧
      blocks.coefficients.HasBlocks 2 2 2 1 ∧ blocks.bounds.HasParts 2 2 := by
  intro problem
  have accepted := problem_limitedSpecification Kernels.unable
  have ordered (x y : ℝ) (apart : ¬y < x) : x ≤ y := not_lt.mp apart
  obtain ⟨fits, symmetric, bounds, assembled, hessian, -, coefficients, -, parts, -⟩ :=
    Specification.problem_fits_and_assembles accepted
  exact ⟨accepted, fits, symmetric add_comm, (bounds ordered).2, _, assembled, hessian, coefficients,
    parts⟩

end ConstrainedLqr

end RecedingHorizon
