import RecedingHorizon.Problem.Specification
import RecedingHorizon.Proofs.Exact.Matrix

/-!
# Accepted problems

Which arrays pass the checks of a specification: a weight within the tolerance of its transpose
(`requireSymmetric_ofMat`), and one that has a triangular square root besides
(`requirePositiveDefinite_ofMat`). A specification is accepted exactly when all its parts can be
read, and the problem then consists of what they are read as (`problem_eq_ok_iff`). So a part can be
exchanged without a look at the others: the horizon (`problem_withHorizon`), or the gain if the
terminal weight does not depend on it (`problem_withoutGain`).
-/

namespace RecedingHorizon

variable {n m p : Nat}

/-! ### Weights -/

namespace Tensor

/-- Within the tolerance of its transpose, a matrix counts as symmetric. -/
theorem requireSymmetric_ofMat (M : Mat ℝ n n) (name : String) (tolerance : ℝ)
    (close : ∀ i j, |M i j - M j i| ≤ tolerance) :
    (ofMat M).requireSymmetric name tolerance = .ok () := by
  have near (i j : Fin n) : Scalar.near tolerance (M i j) (M j i) = true := by
    have distance : Scalar.abs (M i j - M j i) ≤ tolerance := close i j
    simp [Scalar.near, distance]
  have all : (ofMat (Mat.ofFn fun i j => Scalar.near tolerance (M i j) (M j i))).allEntries id =
      true := by
    rw [allEntries_ofMat]
    intro i j
    rw [Mat.ofFn_entry]
    exact near i j
  unfold requireSymmetric
  simp only [shape_ofMat, List.reverse_cons, List.reverse_nil, List.nil_append,
    List.singleton_append]
  rw [ofFn_read_reverse, combine_ofMat, if_neg (not_not.mpr rfl)]
  simp only [Mat.transpose_entry]
  change (if _ then _ else _) = _
  rw [if_pos all]
  rfl

theorem requirePositiveDefinite_ofMat (M : Mat ℝ n n) (name : String) (tolerance : ℝ)
    (close : ∀ i j, |M i j - M j i| ≤ tolerance) (definite : M.isPositiveDefinite = true) :
    (ofMat M).requirePositiveDefinite name tolerance = .ok () := by
  have checked : positiveDefinite (ofMat M).rank (ofMat M) = .ok true := by
    unfold positiveDefinite ofMat
    simp [definite]
  rw [requirePositiveDefinite, requireSymmetric_ofMat M name tolerance close, checked]
  rfl

theorem eq_ofMat_of_matrixOfSize {β : Type} {t : Tensor β} {M : Mat β m n} {name : String}
    (sized : t.matrixOfSize m n name = .ok M) : t = .ofMat M := by
  obtain ⟨shape, cells⟩ := t
  by_cases fits : shape = [m, n]
  · subst fits
    have whole : (ofMat ⟨cells⟩ : Tensor β).matrixOfSize m n name = .ok ⟨cells⟩ :=
      matrixOfSize_ofMat _ name
    cases whole.symm.trans sized
    rfl
  · have unread : toMat? ⟨shape, cells⟩ m n = none := dif_neg fits
    rw [matrixOfSize, unread] at sized
    cases sized

/-- What passes as positive definite has a triangular square root. -/
theorem isPositiveDefinite_of_required {M : Mat ℝ n n} {name : String} {tolerance : ℝ}
    (passed : (ofMat M).requirePositiveDefinite name tolerance = .ok ()) :
    M.isPositiveDefinite = true := by
  obtain ⟨-, -, passed⟩ := bind_eq_ok passed
  cases factored : M.isPositiveDefinite with
  | true => rfl
  | false =>
    have refused : positiveDefinite (ofMat M).rank (ofMat M) = .ok false := by
      unfold positiveDefinite ofMat
      simp [factored]
    rw [refused] at passed
    cases passed

end Tensor

/-! ### The parts of a specification -/

/-- The same problem over another horizon. -/
def ConstrainedLqr.withHorizon {α : Type} (problem : ConstrainedLqr α n m p) (N : Nat)
    (positive : 1 ≤ N) : ConstrainedLqr α n m p :=
  { problem with
    horizon := N
    horizon_pos := positive }

namespace Specification

section

variable {α : Type} [Scalar α] {kit : Kernels α} {system : LinearSystem α n m}

/-- A problem consists of what the parts of a specification are read as. -/
structure Yields (kit : Kernels α) (spec : Specification α) (problem : ConstrainedLqr α n m p) :
    Prop where
  horizon : readHorizon spec.horizon = .ok ⟨problem.horizon, problem.horizon_pos⟩
  weights : readWeights spec.stateWeight spec.inputWeight =
    .ok (problem.stateWeight, problem.inputWeight)
  cross : readCross spec.crossWeight = .ok problem.crossWeight
  gain : readGain kit problem.system problem.stateWeight problem.inputWeight problem.crossWeight
    spec.gain = .ok problem.gain
  stage : readStage n m spec.stageStates spec.stageInputs spec.stageBounds = .ok ⟨p, problem.stage⟩
  terminal : readTerminal kit problem.system problem.stateWeight problem.inputWeight
    problem.crossWeight problem.gain spec.terminal =
      .ok (problem.terminalKind, problem.terminalWeight)
  bounds : readBounds n m spec = .ok (problem.stateBounds, problem.inputBounds)

/-- A specification is accepted if all its parts can be read, and a problem is made of them. -/
theorem problem_eq_ok_iff {spec : Specification α} {problem : ConstrainedLqr α n m p} :
    Specification.problem kit system spec = .ok { problem } ↔
      problem.system = system ∧ Yields kit spec problem := by
  constructor
  · intro accepted
    unfold Specification.problem at accepted
    obtain ⟨⟨N, positive⟩, horizon, accepted⟩ := bind_eq_ok accepted
    obtain ⟨⟨Q, R⟩, weights, accepted⟩ := bind_eq_ok accepted
    obtain ⟨S, cross, accepted⟩ := bind_eq_ok accepted
    obtain ⟨K, gain, accepted⟩ := bind_eq_ok accepted
    obtain ⟨⟨rows, stage⟩, inequalities, accepted⟩ := bind_eq_ok accepted
    obtain ⟨⟨kind, P⟩, terminal, accepted⟩ := bind_eq_ok accepted
    obtain ⟨⟨stateBounds, inputBounds⟩, bounds, accepted⟩ := bind_eq_ok accepted
    cases accepted
    exact ⟨rfl, horizon, weights, cross, gain, inequalities, terminal, bounds⟩
  · rintro ⟨rfl, yields⟩
    unfold Specification.problem
    simp only [yields.horizon, yields.weights, yields.cross, yields.gain, yields.stage,
      yields.terminal, yields.bounds, bind, Except.bind, pure, Except.pure]

/-- A horizon that is a whole number, at least one. -/
theorem readHorizon_whole {N : Nat} (positive : 1 ≤ N) :
    readHorizon (.whole N : Argument α) = .ok ⟨N, positive⟩ := by
  simp [readHorizon, Argument.wholePart, isEqualTo, positive, bind, Except.bind, pure, Except.pure]

/-- No other part depends on the horizon. -/
theorem problem_withHorizon {spec : Specification α} {problem : ConstrainedLqr α n m p}
    (accepted : Specification.problem kit system spec = .ok { problem }) {N : Nat}
    (positive : 1 ≤ N) :
    Specification.problem kit system { spec with horizon := .whole N } =
      .ok { problem := problem.withHorizon N positive } := by
  obtain ⟨rfl, yields⟩ := problem_eq_ok_iff.mp accepted
  exact problem_eq_ok_iff.mpr ⟨rfl, { yields with horizon := readHorizon_whole positive }⟩

end

end Specification

/-! ### Gains -/

def ConstrainedLqr.withoutGain {α : Type} [Scalar α] (problem : ConstrainedLqr α n m p) :
    ConstrainedLqr α n m p :=
  { problem with gain := 0 }

namespace Extended

theorem isUndefined_of_le {a b : Extended ℝ} (ordered : le a b = true) :
    a.isUndefined = false ∧ b.isUndefined = false := by
  constructor
  · cases a with
    | undefined => cases ordered
    | _ => rfl
  · cases b with
    | undefined => cases a <;> cases ordered
    | _ => rfl

theorem lt_eq_false_of_le {a b : Extended ℝ} (ordered : le a b = true) : lt b a = false := by
  cases a with
  | undefined => cases ordered
  | bottom => cases b <;> rfl
  | finite x =>
    cases b with
    | finite y =>
      rw [le_finite, decide_eq_true_eq] at ordered
      rw [lt_finite, decide_eq_false_iff_not, not_lt]
      exact ordered
    | top => rfl
    | _ => cases ordered
  | top =>
    cases b with
    | top => rfl
    | _ => cases ordered

end Extended

namespace Bounds

/-- The same interval for every entry. -/
def uniform {α : Type} (ends : Extended α × Extended α) : Bounds α n where
  lower := Vector.replicate n ends.1
  upper := Vector.replicate n ends.2

theorem areCrossed_eq_false {α : Type} [Scalar α] {bounds : Bounds α n} :
    bounds.areCrossed = false ↔ ∀ i, Extended.lt (bounds.upper i) (bounds.lower i) = false := by
  rw [areCrossed, List.any_eq_false]
  constructor
  · intro ordered i
    refine Bool.eq_false_iff.mpr (ordered _ ?_)
    rw [List.mem_iff_getElem]
    refine ⟨i.val, by simp, ?_⟩
    rw [List.getElem_zipWith, Vector.getElem_toList, Vector.getElem_toList]
    rfl
  · intro ordered crossed member
    obtain ⟨i, within, rfl⟩ := List.mem_iff_getElem.mp member
    have inside : i < n := by simpa using within
    rw [List.getElem_zipWith, Vector.getElem_toList, Vector.getElem_toList]
    exact Bool.eq_false_iff.mp (ordered ⟨i, inside⟩)

theorem areCrossed_uniform {ends : Extended ℝ × Extended ℝ} (n : Nat)
    (ordered : Extended.le ends.1 ends.2 = true) : (uniform ends : Bounds ℝ n).areCrossed = false := by
  apply areCrossed_eq_false.mpr
  intro i
  have lower : (uniform ends : Bounds ℝ n).lower i = ends.1 := Vector.getElem_replicate i.isLt
  have upper : (uniform ends : Bounds ℝ n).upper i = ends.2 := Vector.getElem_replicate i.isLt
  rw [lower, upper]
  exact Extended.lt_eq_false_of_le ordered

end Bounds

namespace Specification

variable {kit : Kernels ℝ} {system : LinearSystem ℝ n m}

/-- A terminal weight that was given does not depend on the gain. -/
theorem readTerminal_explicit {Q P : Mat ℝ n n} {R : Mat ℝ m m} {S : Mat ℝ n m} {K : Mat ℝ m n}
    {choice : TerminalChoice ℝ}
    (read : readTerminal kit system Q R S K choice = .ok (.explicit, P)) (K' : Mat ℝ m n) :
    readTerminal kit system Q R S K' choice = .ok (.explicit, P) := by
  -- A weight of a kind is computed, and no kind that can be computed is explicit.
  have named (w : TerminalWeight) :
      (do return (w, ← terminalOfKind kit system Q R S K w) : Except Fault _) ≠
        .ok (TerminalWeight.explicit, P) := by
    intro same
    obtain ⟨X, built, paired⟩ := bind_eq_ok same
    cases paired
    cases built
  unfold readTerminal at read ⊢
  split at read
  · exact absurd read (named _)
  · split at read
    · exact absurd read (named _)
    · cases read
  · exact read

/-- A terminal weight that was not given is the one of its kind. -/
theorem terminalOfKind_of_readTerminal {Q P : Mat ℝ n n} {R : Mat ℝ m m} {S : Mat ℝ n m}
    {K : Mat ℝ m n} {choice : TerminalChoice ℝ} {w : TerminalWeight}
    (read : readTerminal kit system Q R S K choice = .ok (w, P)) (computed : w ≠ .explicit) :
    terminalOfKind kit system Q R S K w = .ok P := by
  have named {w' : TerminalWeight}
      (read : (do return (w', ← terminalOfKind kit system Q R S K w') : Except Fault _) =
        .ok (w, P)) : terminalOfKind kit system Q R S K w = .ok P := by
    obtain ⟨X, built, paired⟩ := bind_eq_ok read
    cases paired
    exact built
  -- A weight is named by its kind or by a text, or given as a matrix, which is not computed.
  unfold readTerminal at read
  split at read
  · exact named read
  · split at read
    · exact named read
    · cases read
  · obtain ⟨_, -, read⟩ := bind_eq_ok read
    obtain ⟨_, -, read⟩ := bind_eq_ok read
    obtain ⟨_, -, read⟩ := bind_eq_ok read
    cases read
    exact absurd rfl computed

/-- With an explicit terminal weight, leaving out the gain only takes the feedback away. -/
theorem problem_withoutGain {spec : Specification ℝ} {problem : ConstrainedLqr ℝ n m p}
    (accepted : Specification.problem kit system spec = .ok { problem })
    (explicit : problem.terminalKind = .explicit) :
    Specification.problem kit system { spec with gain := .nothing } =
      .ok { problem := problem.withoutGain } := by
  obtain ⟨rfl, yields⟩ := problem_eq_ok_iff.mp accepted
  have terminal := yields.terminal
  rw [explicit] at terminal
  have unfed := readTerminal_explicit terminal 0
  rw [← explicit] at unfed
  exact problem_eq_ok_iff.mpr ⟨rfl, { yields with gain := rfl, terminal := unfed }⟩

/-! ### Weights and bounds that are read -/

theorem readWeights_ofMat {Q : Mat ℝ n n} {R : Mat ℝ m m}
    (state : ∀ i j, |Q i j - Q j i| ≤ symmetryTolerance)
    (input : ∀ i j, |R i j - R j i| ≤ symmetryTolerance) (definite : R.isPositiveDefinite = true) :
    readWeights (.array (.ofMat Q)) (.array (.ofMat R)) = .ok (Q, R) := by
  simp only [readWeights, Argument.toMatrix_ofMat, Tensor.matrixOfSize_ofMat,
    Tensor.requireSymmetric_ofMat Q "Q" _ state,
    Tensor.requirePositiveDefinite_ofMat R "R" _ input definite, bind, Except.bind, pure, Except.pure]

/-- The weights are the arrays that were given, and have passed their checks. -/
theorem readWeights_eq_ok {α : Type} [Scalar α] {state input : Argument α} {Q : Mat α n n}
    {R : Mat α m m} (read : readWeights state input = .ok (Q, R)) :
    state.toMatrix (.whole n) "Q" = .ok (.ofMat Q) ∧
      input.toMatrix (.whole m) "R" = .ok (.ofMat R) ∧
      (Tensor.ofMat Q).requireSymmetric "Q" symmetryTolerance = .ok () ∧
      (Tensor.ofMat R).requirePositiveDefinite "R" symmetryTolerance = .ok () := by
  obtain ⟨weight, state, read⟩ := bind_eq_ok read
  obtain ⟨weight', input, read⟩ := bind_eq_ok read
  obtain ⟨_, sized, read⟩ := bind_eq_ok read
  obtain ⟨_, sized', read⟩ := bind_eq_ok read
  obtain ⟨_, symmetric, read⟩ := bind_eq_ok read
  obtain ⟨_, definite, read⟩ := bind_eq_ok read
  cases read
  obtain rfl := Tensor.eq_ofMat_of_matrixOfSize sized
  obtain rfl := Tensor.eq_ofMat_of_matrixOfSize sized'
  exact ⟨state, input, symmetric, definite⟩

/-- The weight of the inputs has passed the check for definiteness. -/
theorem isPositiveDefinite_of_readWeights {state input : Argument ℝ} {Q : Mat ℝ n n}
    {R : Mat ℝ m m} (read : readWeights state input = .ok (Q, R)) : R.isPositiveDefinite = true :=
  Tensor.isPositiveDefinite_of_required (readWeights_eq_ok read).2.2.2

theorem readCross_ofMat (S : Mat ℝ n m) : readCross (.array (.ofMat S)) = .ok S :=
  Tensor.matrixOfSize_ofMat S "S"

theorem readGain_ofMat {Q : Mat ℝ n n} {R : Mat ℝ m m} {S : Mat ℝ n m} (K : Mat ℝ m n) :
    readGain kit system Q R S (.array (.ofMat K)) = .ok K :=
  Tensor.matrixOfSize_ofMat K "K"

theorem readTerminal_ofMat {Q P : Mat ℝ n n} {R : Mat ℝ m m} {S : Mat ℝ n m} {K : Mat ℝ m n}
    (symmetric : ∀ i j, |P i j - P j i| ≤ symmetryTolerance) :
    readTerminal kit system Q R S K (.given (.array (.ofMat P))) = .ok (.explicit, P) := by
  simp only [readTerminal, Argument.toMatrix_ofMat, Tensor.matrixOfSize_ofMat,
    Tensor.requireSymmetric_ofMat P "P" _ symmetric, bind, Except.bind, pure, Except.pure]

theorem readBounds_real {spec : Specification ℝ} (states inputs : Extended ℝ × Extended ℝ)
    (stateLower : spec.stateLower = .real states.1) (stateUpper : spec.stateUpper = .real states.2)
    (inputLower : spec.inputLower = .real inputs.1) (inputUpper : spec.inputUpper = .real inputs.2)
    (stateOrder : Extended.le states.1 states.2 = true)
    (inputOrder : Extended.le inputs.1 inputs.2 = true) :
    readBounds n m spec = .ok (.uniform states, .uniform inputs) := by
  obtain ⟨defined, defined'⟩ := Extended.isUndefined_of_le stateOrder
  obtain ⟨definedInput, definedInput'⟩ := Extended.isUndefined_of_le inputOrder
  have states' := Bounds.areCrossed_uniform n stateOrder
  have inputs' := Bounds.areCrossed_uniform m inputOrder
  rw [Bounds.uniform] at states' inputs'
  simp only [readBounds, stateLower, stateUpper, inputLower, inputUpper,
    Argument.toBoundVector_real _ defined, Argument.toBoundVector_real _ defined',
    Argument.toBoundVector_real _ definedInput, Argument.toBoundVector_real _ definedInput', states',
    inputs', bind, Except.bind]
  rfl

/-- The bounds are what each of them was read as, and do not cross. -/
theorem readBounds_eq_ok {α : Type} [Scalar α] {spec : Specification α} {states : Bounds α n}
    {inputs : Bounds α m} (read : readBounds n m spec = .ok (states, inputs)) :
    spec.stateLower.toBoundVector n "x_lower" = .ok states.lower ∧
      spec.stateUpper.toBoundVector n "x_upper" = .ok states.upper ∧
      spec.inputLower.toBoundVector m "u_lower" = .ok inputs.lower ∧
      spec.inputUpper.toBoundVector m "u_upper" = .ok inputs.upper ∧
      states.areCrossed = false ∧ inputs.areCrossed = false := by
  obtain ⟨_, stateLower, read⟩ := bind_eq_ok read
  obtain ⟨_, stateUpper, read⟩ := bind_eq_ok read
  obtain ⟨_, inputLower, read⟩ := bind_eq_ok read
  obtain ⟨_, inputUpper, read⟩ := bind_eq_ok read
  dsimp only at read
  split at read
  · cases read
  · next ordered =>
    cases read
    rw [Bool.or_eq_true, not_or, Bool.not_eq_true, Bool.not_eq_true] at ordered
    exact ⟨stateLower, stateUpper, inputLower, inputUpper, ordered⟩

/-- Bounds that are accepted do not cross. -/
theorem lt_eq_false_of_readBounds {spec : Specification ℝ} {states : Bounds ℝ n}
    {inputs : Bounds ℝ m} (read : readBounds n m spec = .ok (states, inputs)) (i : Fin m) :
    Extended.lt (inputs.upper i) (inputs.lower i) = false :=
  Bounds.areCrossed_eq_false.mp (readBounds_eq_ok read).2.2.2.2.2 i

end Specification

/-! ### A scalar problem -/

namespace ConstrainedLqr

/-- A state that doubles in every stage and to which the input is added. -/
noncomputable def doubling (N : Nat) (positive : 1 ≤ N) (weight gain terminal : ℝ)
    (ends : Extended ℝ × Extended ℝ) : ConstrainedLqr ℝ 1 1 0 where
  system := { dynamics := Mat.ofFn fun _ _ => 2, input := Mat.identity 1, interval := 1 }
  horizon := N
  horizon_pos := positive
  stateWeight := Mat.ofFn fun _ _ => weight
  inputWeight := Mat.identity 1
  crossWeight := Mat.identity 1
  gain := Mat.ofFn fun _ _ => gain
  terminalKind := .explicit
  terminalWeight := Mat.ofFn fun _ _ => terminal
  stage := { states := 0, inputs := 0, bounds := Vec.zeros 0 }
  stateBounds := .uniform (.bottom, .top)
  inputBounds := .uniform ends

/-- The specification that lists the data of the problem. -/
noncomputable def doublingSpecification (N : Nat) (weight gain terminal : ℝ)
    (ends : Extended ℝ × Extended ℝ) : Specification ℝ where
  horizon := .whole N
  stateWeight := .array (.ofMat (Mat.ofFn fun _ _ => weight : Mat ℝ 1 1))
  inputWeight := .array (.ofMat (Mat.identity 1 : Mat ℝ 1 1))
  terminal := .given (.array (.ofMat (Mat.ofFn fun _ _ => terminal : Mat ℝ 1 1)))
  crossWeight := .array (.ofMat (Mat.identity 1 : Mat ℝ 1 1))
  gain := .array (.ofMat (Mat.ofFn fun _ _ => gain : Mat ℝ 1 1))
  inputLower := .real ends.1
  inputUpper := .real ends.2

theorem problem_doublingSpecification (kit : Kernels ℝ) {N : Nat} (positive : 1 ≤ N)
    (weight gain terminal : ℝ) {ends : Extended ℝ × Extended ℝ}
    (ordered : Extended.le ends.1 ends.2 = true) :
    let problem := doubling N positive weight gain terminal ends
    Specification.problem kit problem.system (doublingSpecification N weight gain terminal ends) =
      .ok { problem } := by
  -- A matrix with one entry is symmetric.
  have symmetric (M : Mat ℝ 1 1) (i j : Fin 1) : |M i j - M j i| ≤ symmetryTolerance := by
    rw [Subsingleton.elim i j, sub_self, abs_zero, symmetryTolerance]
    norm_num
  have definite : (Mat.identity 1 : Mat ℝ 1 1).isPositiveDefinite = true := by
    simp [Mat.isPositiveDefinite, Mat.cholesky?, Mat.identity]
  exact Specification.problem_eq_ok_iff.mpr ⟨rfl, {
    horizon := Specification.readHorizon_whole positive
    weights := Specification.readWeights_ofMat (symmetric _) (symmetric _) definite
    cross := Specification.readCross_ofMat _
    gain := Specification.readGain_ofMat _
    stage := rfl
    terminal := Specification.readTerminal_ofMat (symmetric _)
    bounds := Specification.readBounds_real _ _ rfl rfl rfl rfl rfl ordered }⟩

end ConstrainedLqr

end RecedingHorizon
