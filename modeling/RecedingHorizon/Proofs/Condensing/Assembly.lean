import RecedingHorizon.Condensing.Assembly
import RecedingHorizon.Proofs.Blocks.Equal

/-!
# Assembled programs

No step of the assembly of a condensed program fails, and what comes out is the condensed program with
its blocks (`program_eq`). A write that fits changes one block (`writeBlock_square`), and so the writes
of a list of places fill these places and no other (`writeBlocks_square`, by induction on the list); a
column is filled power by power (`foldlM_writePower`, by induction on the number of blocks written).
-/

namespace RecedingHorizon

variable {α : Type} [Scalar α] {N n m p k l : Nat}

namespace Assembly

open Prediction (propagate propagate_mul)

/-! ### Arrays -/

theorem powers_ofMat (A : Mat α n n) (X : Mat α n k) (count : Nat) :
    powers (.ofMat A) (.ofMat X) count =
      .ok ((List.range (count + 1)).map fun i => .ofMat (propagate A X i)) := by
  induction count generalizing X with
  | zero => rfl
  | succ count ih =>
    rw [powers, Tensor.product_ofMat_ofMat]
    simp only [bind, Except.bind, pure, Except.pure, ih, propagate_mul]
    rw [List.range_succ_eq_map (n := count + 1), List.map_cons, List.map_map]
    rfl

theorem nth_powers (A : Mat α n n) (X : Mat α n k) {count i : Nat} (known : i ≤ count) :
    nth ((List.range (count + 1)).map fun i => .ofMat (propagate A X i)) i =
      .ok (.ofMat (propagate A X i)) := by
  have inside : i < count + 1 := by omega
  simp only [nth, List.getElem?_map, List.getElem?_range inside, Option.map_some]

theorem transposed_ofMat (M : Mat α k l) : transposed (.ofMat M) = .ofMat M.transpose :=
  @Tensor.transpose_ofMat α k l ⟨0⟩ M

theorem negated_ofMat (M : Mat α k l) : negated (.ofMat M) = .ofMat (-M) := Tensor.map_ofMat _ M

theorem averaged_ofMat (M : Mat α n n) : averaged (.ofMat M) = .ok (.ofMat M.symmetrize) := by
  rw [averaged, transposed_ofMat, Tensor.add_ofMat]
  exact congrArg Except.ok (Tensor.map_ofMat _ _)

/-! ### Blocks -/

theorem writeBlock_square {value : Nat × Nat → Except Fault (Tensor α)} {i j : Fin N}
    {X : Mat α k l} (known : value (i.val, j.val) = .ok (.ofMat X)) (M : Mat α (N * k) (N * l)) :
    writeBlock value (.square M) (i.val, j.val) =
      .ok (.square (Mat.ofBlocks fun s t => if s = i ∧ t = j then X else M.block s t)) := by
  rw [writeBlock, known]
  exact BlockMatrix.setBlock_square M i j X

/-- Writes that all fit fill their places and no other. -/
theorem writeBlocks_square (value : Nat × Nat → Except Fault (Tensor α))
    (W : Nat → Nat → Mat α k l) (places : List (Nat × Nat))
    (fits : ∀ i j, (i, j) ∈ places → i < N ∧ j < N ∧ value (i, j) = .ok (.ofMat (W i j)))
    (M : Mat α (N * k) (N * l)) :
    writeBlocks value places (.square M) = .ok (.square (Mat.ofBlocks fun s t =>
      if (s.val, t.val) ∈ places then W s.val t.val else M.block s t)) := by
  induction places generalizing M with
  | nil =>
    simp only [List.not_mem_nil, if_false, Mat.ofBlocks_block]
    rfl
  | cons place places ih =>
    obtain ⟨i, j⟩ := place
    obtain ⟨row, column, known⟩ := fits i j List.mem_cons_self
    have step := writeBlock_square (i := ⟨i, row⟩) (j := ⟨j, column⟩) known M
    rw [writeBlocks, List.foldlM_cons, step]
    refine (ih (fun i j later => fits i j (List.mem_cons_of_mem _ later)) _).trans ?_
    -- A place that is written twice holds the same block both times.
    have same (s t : Fin N) :
        (if (s.val, t.val) ∈ places then W s.val t.val
          else if s = ⟨i, row⟩ ∧ t = ⟨j, column⟩ then W i j else M.block s t) =
        if (s.val, t.val) ∈ (i, j) :: places then W s.val t.val else M.block s t := by
      by_cases later : (s.val, t.val) ∈ places
      · rw [if_pos later, if_pos (List.mem_cons_of_mem _ later)]
      · rw [if_neg later]
        by_cases now : s = ⟨i, row⟩ ∧ t = ⟨j, column⟩
        · obtain ⟨rfl, rfl⟩ := now
          rw [if_pos ⟨rfl, rfl⟩, if_pos List.mem_cons_self]
        · have other : (s.val, t.val) ∉ (i, j) :: places := by
            simpa [later, Fin.ext_iff] using now
          rw [if_neg now, if_neg other]
    simp only [Mat.block_ofBlocks, same]

/-- After some writes the column holds what was made from as many powers, and zeros behind it. -/
theorem foldlM_writePower (A : Mat α n n) (X : Mat α n m) {value : Tensor α → Except Fault (Tensor α)}
    {W : Mat α n m → Mat α k l} (fits : ∀ Y, value (.ofMat Y) = .ok (.ofMat (W Y))) {count : Nat}
    (inside : count ≤ N) :
    (List.range count).foldlM (writePower (.ofMat A) value) (.ofMat X, .column (0 : Mat α (N * k) l)) =
      .ok (.ofMat (propagate A X count), .column (Mat.ofBlockColumn fun s : Fin N =>
        if s.val < count then W (propagate A X s.val) else 0)) := by
  -- By induction on the number of writes, each of which fills one more block row with its power.
  induction count with
  | zero =>
    have blank : (0 : Mat α (N * k) l) = Mat.ofBlockColumn fun s : Fin N =>
        if s.val < 0 then W (propagate A X s.val) else 0 := by
      ext a b
      simp [Mat.ofBlockColumn]
    rw [← blank]
    rfl
  | succ count ih =>
    have column := BlockMatrix.setBlock_column (fun s : Fin N =>
      if s.val < count then W (propagate A X s.val) else 0) ⟨count, inside⟩ (W (propagate A X count))
    have blocks (s : Fin N) :
        (if s = ⟨count, inside⟩ then W (propagate A X count)
          else if s.val < count then W (propagate A X s.val) else 0) =
        if s.val < count + 1 then W (propagate A X s.val) else 0 := by
      by_cases last : s = ⟨count, inside⟩
      · subst last
        simp
      · have other : s.val ≠ count := fun same => last (Fin.ext same)
        have step : s.val < count + 1 ↔ s.val < count := by omega
        simp only [if_neg last, step]
    simp only [blocks] at column
    rw [List.range_succ, List.foldlM_append, ih (Nat.le_of_succ_le inside)]
    simp only [bind, Except.bind, List.foldlM_cons, List.foldlM_nil, writePower, fits, column,
      Tensor.product_ofMat_ofMat, pure, Except.pure]
    rfl

theorem writePowers_column (A : Mat α n n) (X : Mat α n m)
    (value : Tensor α → Except Fault (Tensor α)) (W : Mat α n m → Mat α k l)
    (fits : ∀ Y, value (.ofMat Y) = .ok (.ofMat (W Y))) :
    writePowers (.ofMat A) value N (.ofMat X) (.column (0 : Mat α (N * k) l)) =
      .ok (.column (Mat.ofBlockColumn fun s : Fin N => W (propagate A X s.val))) := by
  rw [writePowers, foldlM_writePower A X fits (Nat.le_refl N)]
  simp only [Fin.isLt, if_true]
  rfl

/-! ### Predictions -/

theorem mem_placesToStates {i j : Nat} : (i, j) ∈ placesToStates N ↔ i < N ∧ j ≤ i := by
  simp only [placesToStates, List.mem_flatMap, List.mem_range, List.mem_map, Prod.mk.injEq]
  constructor
  · rintro ⟨row, inside, column, upTo, rfl, rfl⟩
    exact ⟨inside, Nat.le_of_lt_succ upTo⟩
  · rintro ⟨inside, upTo⟩
    exact ⟨i, inside, j, Nat.lt_succ_of_le upTo, rfl, rfl⟩

theorem mem_placesToInputs {i j : Nat} : (i, j) ∈ placesToInputs N ↔ i < N ∧ j ≤ i := by
  simp only [placesToInputs, List.mem_flatMap, List.mem_range, List.mem_cons, List.mem_map,
    Prod.mk.injEq]
  constructor
  · rintro ⟨row, inside, ⟨rfl, rfl⟩ | ⟨column, before, rfl, rfl⟩⟩ <;> omega
  · rintro ⟨inside, upTo⟩
    rcases Nat.eq_or_lt_of_le upTo with diagonal | below
    · exact ⟨i, inside, .inl ⟨rfl, diagonal⟩⟩
    · exact ⟨i, inside, .inr ⟨j, below, rfl, rfl⟩⟩

variable (s : LinearSystem α n m)

theorem block_zero (i j : Fin N) : (0 : Mat α (N * k) (N * l)).block i j = 0 := by
  ext a b
  simp [Mat.block]

/-- The arrays `A ^ i B` for `i ≤ count`. -/
def responses (count : Nat) : List (Tensor α) :=
  (List.range (count + 1)).map fun i => .ofMat (propagate s.dynamics s.input i)

theorem response_fits {i j : Nat} (place : (i, j) ∈ placesToStates N) :
    i < N ∧ j < N ∧ response (responses s (N - 1)) (i, j) =
      .ok (.ofMat (propagate s.dynamics s.input (i - j))) := by
  obtain ⟨row, upTo⟩ := mem_placesToStates.mp place
  exact ⟨row, by omega, nth_powers _ _ (by omega)⟩

theorem inputsToStates_eq (positive : 1 ≤ N) :
    inputsToStates s N = .ok (.square (Prediction.inputsToStates s N)) := by
  have written := writeBlocks_square (response (responses s (N - 1)))
    (fun i j => propagate s.dynamics s.input (i - j)) (placesToStates N)
    (fun _ _ => response_fits s) 0
  have lower (i j : Fin N) : (i.val, j.val) ∈ placesToStates N ↔ j ≤ i :=
    mem_placesToStates.trans (and_iff_right i.isLt)
  simp only [block_zero, lower, ← Prediction.inputsToStates_eq] at written
  simp only [inputsToStates, Prediction.requireHorizon_whole positive, powers_ofMat, inSquares,
    BlockMatrix.ofTensor_square, bind, Except.bind]
  exact written

theorem reaction_fits (K : Mat α m n) {i j : Nat} (place : (i, j) ∈ placesToInputs N) :
    i < N ∧ j < N ∧ reaction K (responses s (N - 2)) (i, j) =
      .ok (.ofMat (if i = j then Mat.identity m
        else -K * propagate s.dynamics s.input (i - 1 - j))) := by
  obtain ⟨row, upTo⟩ := mem_placesToInputs.mp place
  refine ⟨row, by omega, ?_⟩
  by_cases diagonal : i = j
  · rw [reaction, if_pos diagonal, if_pos diagonal]
    rfl
  · -- Below the diagonal there are at least two stages, so the power is among the `N - 1` listed.
    have known : nth (responses s (N - 2)) (i - 1 - j) =
        .ok (.ofMat (propagate s.dynamics s.input (i - 1 - j))) := nth_powers _ _ (by omega)
    simp only [reaction, if_neg diagonal, known, negated_ofMat, bind, Except.bind,
      Tensor.product_ofMat_ofMat]

theorem freeToInputs_eq (K : Mat α m n) (positive : 1 ≤ N) :
    freeToInputs s K N = .ok (.square (Prediction.freeToInputs s K N)) := by
  have written := writeBlocks_square (reaction K (responses s (N - 2)))
    (fun i j => if i = j then Mat.identity m else -K * propagate s.dynamics s.input (i - 1 - j))
    (placesToInputs N) (fun _ _ => reaction_fits s K) 0
  -- The blocks above the diagonal are not written and stay zero.
  have blocks (i j : Fin N) :
      (if (i.val, j.val) ∈ placesToInputs N then
        if i.val = j.val then Mat.identity m
          else -K * propagate s.dynamics s.input (i.val - 1 - j.val)
        else (0 : Mat α (N * m) (N * m)).block i j) =
      if i = j then Mat.identity m
        else if j < i then -K * propagate s.dynamics s.input (i.val - 1 - j.val) else 0 := by
    have lower : (i.val, j.val) ∈ placesToInputs N ↔ j ≤ i :=
      mem_placesToInputs.trans (and_iff_right i.isLt)
    rw [block_zero]
    by_cases diagonal : i = j
    · rw [if_pos (lower.mpr (Fin.le_of_eq diagonal.symm)), if_pos (congrArg Fin.val diagonal), if_pos diagonal]
    · have distinct : i.val ≠ j.val := fun same => diagonal (Fin.ext same)
      have below : (i.val, j.val) ∈ placesToInputs N ↔ j < i := by
        rw [lower]
        omega
      simp only [if_neg diagonal, if_neg distinct, below]
  simp only [blocks, ← Prediction.freeToInputs_eq] at written
  simp only [freeToInputs, Prediction.requireHorizon_whole positive, powers_ofMat, inSquares,
    BlockMatrix.ofTensor_square, bind, Except.bind]
  exact written

theorem initialToStates_eq (positive : 1 ≤ N) (includeInitial : Bool) :
    initialToStates s N includeInitial = .ok (.column
      (if includeInitial then Prediction.initialToPriorStates s N
        else Prediction.initialToStates s N)) := by
  have written (X : Mat α n n) := writePowers_column (N := N) s.dynamics X .ok id fun _ => rfl
  simp only [initialToStates, Prediction.requireHorizon_whole positive, inColumn,
    BlockMatrix.ofTensor_column, bind, Except.bind, written]
  cases includeInitial <;>
    simp [Prediction.initialToPriorStates, Prediction.initialToStates, Prediction.table_get]

theorem initialToInputs_eq (K : Mat α m n) (positive : 1 ≤ N) :
    initialToInputs s K N = .ok (.column (Prediction.initialToInputs s K N)) := by
  have fits (Y : Mat α n n) : Tensor.product (negated (.ofMat K)) (.ofMat Y) =
      .ok (.ofMat (-K * Y)) := by
    rw [negated_ofMat, Tensor.product_ofMat_ofMat]
  have written := writePowers_column (N := N) s.dynamics (Mat.identity n) _ _ fits
  simp only [initialToInputs, Prediction.requireHorizon_whole positive, inColumn,
    BlockMatrix.ofTensor_column, bind, Except.bind, written, Prediction.initialToInputs,
    Prediction.map_table_get]

/-- The place that lies one stage earlier. -/
theorem stage_earlier {a e : Fin (N * k)} (first : k ≤ a.val) (earlier : e.val = a.val - k) :
    (Stacked.stage a).val = (Stacked.stage e).val + 1 ∧
      Stacked.position e = Stacked.position a := by
  have moved : a.val = k + e.val := by omega
  constructor
  · change a.val / k = e.val / k + 1
    rw [moved, Nat.add_div_left _ (Stacked.width_pos a)]
  · apply Fin.ext
    change e.val % k = a.val % k
    rw [moved, Nat.add_mod_left]

/-- Moved down by one block row, the map to the later states is the one to the prior states. -/
theorem shiftRows_inputsToStates (N : Nat) :
    shiftRows n (.ofMat (Prediction.inputsToStates s N)) =
      .ok (.ofMat (Prediction.inputsToPriorStates s N)) := by
  have filled : ¬(n = 0 ∧ N * n ≠ 0) := by
    rintro ⟨rfl, rows⟩
    exact rows (Nat.mul_zero N)
  have cells : (Mat.ofFn fun (a : Fin (N * n)) (b : Fin (N * m)) =>
      if n ≤ a.val then
        Prediction.inputsToStates s N ⟨a.val - n, Nat.lt_of_le_of_lt (Nat.sub_le ..) a.isLt⟩ b
      else 0) = Prediction.inputsToPriorStates s N := by
    ext a b
    rw [Mat.ofFn_entry, Prediction.inputsToPriorStates_eq, Prediction.inputsToStates_eq]
    simp only [Mat.ofBlocks, Mat.ofFn_entry]
    -- A row below the first block row comes from one stage earlier; those of the first one are filled up.
    by_cases first : n ≤ a.val
    · have inside : a.val - n < N * n := by
        have := a.isLt
        omega
      obtain ⟨stage, position⟩ := stage_earlier (e := ⟨a.val - n, inside⟩) first rfl
      have before : Stacked.stage b ≤ Stacked.stage (⟨a.val - n, inside⟩ : Fin (N * n)) ↔
          Stacked.stage b < Stacked.stage a := by
        rw [Fin.le_def, Fin.lt_def, stage, Nat.lt_succ_iff]
      rw [if_pos first, position, stage, Nat.add_sub_cancel]
      simp only [before]
    · have initial : (Stacked.stage a).val = 0 := Nat.div_eq_of_lt (Nat.lt_of_not_le first)
      have none : ¬Stacked.stage b < Stacked.stage a := by
        rw [Fin.lt_def, initial]
        exact Nat.not_lt_zero _
      rw [if_neg first, if_neg none, Mat.zero_entry]
  simp only [shiftRows, Tensor.ofMat, if_neg filled]
  exact congrArg (fun M => Except.ok (Tensor.ofMat M)) cells

theorem priorStates_eq (positive : 1 ≤ N) :
    priorStates s N = .ok (.ofMat (Prediction.inputsToPriorStates s N),
      .ofMat (Prediction.initialToPriorStates s N)) := by
  rw [priorStates, inputsToStates_eq s positive, initialToStates_eq s positive]
  simp only [bind, Except.bind, pure, Except.pure, BlockMatrix.square, BlockMatrix.toTensor,
    shiftRows_inputsToStates, if_true]
  rfl

/-! ### Weights -/

theorem controlledWeight_ofMat (Q : Mat α n n) (R : Mat α m m) (S : Mat α n m) (K : Mat α m n) :
    controlledWeight (.ofMat Q) (.ofMat R) (.ofMat S) (.ofMat K) =
      .ok (.ofMat (RecedingHorizon.controlledWeight Q R S K)) := by
  simp only [controlledWeight, transposed_ofMat, Tensor.product_ofMat_ofMat, Tensor.sub_ofMat,
    Tensor.add_ofMat, averaged_ofMat, bind, Except.bind]
  rfl

theorem controlledCross_ofMat (R : Mat α m m) (S : Mat α n m) (K : Mat α m n) :
    controlledCross (.ofMat R) (.ofMat S) (.ofMat K) =
      .ok (.ofMat (RecedingHorizon.controlledCross R S K)) := by
  simp only [controlledCross, transposed_ofMat, Tensor.product_ofMat_ofMat, Tensor.sub_ofMat,
    bind, Except.bind]
  rfl

theorem repeated_ofMat (N : Nat) (W : Mat α k l) :
    repeated N (.ofMat W) = .ok (.square (ConstrainedLqr.repeated N W)) :=
  BlockMatrix.kronecker_ofMat_ofMat _ W

variable (problem : ConstrainedLqr α n m p)

/-- The terminal weight is written over the last block on the diagonal. -/
theorem stageWeights_eq :
    stageWeights problem = .ok (.square problem.stateWeights,
      .square (ConstrainedLqr.repeated problem.horizon problem.controlledCrossWeight)) := by
  have last : problem.horizon - 1 < problem.horizon :=
    Nat.sub_lt problem.horizon_pos Nat.one_pos
  have written := BlockMatrix.setBlock_square
    (ConstrainedLqr.repeated problem.horizon problem.controlledStateWeight) ⟨_, last⟩ ⟨_, last⟩
    problem.terminalWeight
  have weights : (Mat.ofBlocks fun s t =>
      if s = ⟨_, last⟩ ∧ t = ⟨_, last⟩ then problem.terminalWeight
      else (ConstrainedLqr.repeated problem.horizon problem.controlledStateWeight).block s t) =
      problem.stateWeights := by
    ext a b
    simp only [Mat.ofBlocks, Mat.ofFn_entry, ConstrainedLqr.stateWeights, Fin.ext_iff]
    split
    · rfl
    · simp [Mat.block]
  rw [weights] at written
  simp only [stageWeights, repeated_ofMat, bind, Except.bind, written]
  rfl

/-! ### The program -/

theorem predicted_eq : predicted problem = .ok problem.closedLoop :=
  problem.system.prestabilized_ofMat problem.gain

theorem hessian_eq : hessian problem = .ok (.square problem.hessian) := by
  have positive := problem.horizon_pos
  simp only [hessian, predicted_eq, inputsToStates_eq _ positive, priorStates_eq _ positive,
    stageWeights_eq, repeated_ofMat, BlockMatrix.toTensor_square, transposed_ofMat, Tensor.product_ofMat_ofMat,
    Tensor.add_ofMat, averaged_ofMat, inSquares, BlockMatrix.ofTensor_square, bind, Except.bind]
  rfl

theorem linearCoefficients_eq :
    linearCoefficients problem = .ok (.column problem.linearCoefficients) := by
  have positive := problem.horizon_pos
  simp only [linearCoefficients, predicted_eq, inputsToStates_eq _ positive,
    initialToStates_eq _ positive, priorStates_eq _ positive, stageWeights_eq, BlockMatrix.toTensor_square,
    BlockMatrix.toTensor_column, transposed_ofMat, Tensor.product_ofMat_ofMat, Tensor.add_ofMat, inColumn,
    BlockMatrix.ofTensor_column, bind, Except.bind, Bool.false_eq_true, if_false]
  rfl

theorem inputInequalities_eq :
    inputInequalities problem = .ok (.ofMat problem.inputInequalities.coefficients,
      .ofMat problem.inputInequalities.coupling) := by
  have positive := problem.horizon_pos
  simp only [inputInequalities, inputsToStates_eq _ positive, initialToStates_eq _ positive,
    repeated_ofMat, BlockMatrix.toTensor_square, BlockMatrix.toTensor_column, negated_ofMat, Tensor.product_ofMat_ofMat,
    Tensor.add_ofMat, bind, Except.bind, Bool.false_eq_true, if_false]
  rfl

theorem freeInequalities_eq :
    freeInequalities problem = .ok (.ofMat problem.inequalities.coefficients,
      .ofMat problem.inequalities.coupling) := by
  have positive := problem.horizon_pos
  cases fed : problem.isPrestabilized with
  | true =>
    simp only [freeInequalities, inputInequalities_eq, fed, if_true, predicted_eq,
      freeToInputs_eq _ _ positive, initialToInputs_eq _ _ positive, BlockMatrix.toTensor_square,
      BlockMatrix.toTensor_column, Tensor.product_ofMat_ofMat, Tensor.sub_ofMat, bind, Except.bind,
      ConstrainedLqr.inequalities]
    rfl
  | false =>
    simp only [freeInequalities, inputInequalities_eq, fed, bind, Except.bind,
      ConstrainedLqr.inequalities, Bool.false_eq_true, if_false]
    rfl

omit [Scalar α] in
theorem eq_of_no_rows (M M' : Mat α (N * 0) l) : M = M' := by
  ext a
  exact absurd a.isLt (Nat.not_lt_zero _)

/-- The change to the free variables does not concern the bounds. -/
theorem bounds_inequalities :
    problem.inequalities.bounds =
      Vec.kronecker (Vector.replicate problem.horizon 1) problem.stage.bounds := by
  simp only [ConstrainedLqr.inequalities]
  split <;> rfl

theorem inequalities_eq :
    inequalities problem = .ok (.square problem.inequalities.coefficients,
      .column problem.inequalities.coupling, .stacked problem.inequalities.bounds) := by
  by_cases noRows : p = 0
  · subst noRows
    -- Matrices without rows are equal, so it does not matter how they are made.
    have coefficients : inSquares problem.horizon 0 m (.ofMat (0 : Mat α 0 (problem.horizon * m))) =
        .ok (.square problem.inequalities.coefficients) := by
      rw [eq_of_no_rows problem.inequalities.coefficients 0]
      exact BlockMatrix.ofTensor_square (k := 0) 0
    have coupling : inColumn problem.horizon 0 n (.ofMat (0 : Mat α 0 n)) =
        .ok (.column problem.inequalities.coupling) := by
      rw [eq_of_no_rows problem.inequalities.coupling 0]
      exact BlockMatrix.ofTensor_column (k := 0) 0
    have bounds : BlockMatrix.ofTensor (.ofVec (Vec.zeros 0 : Vec α 0))
        (BlockMatrix.equalSizes problem.horizon 0) none =
        .ok (.stacked problem.inequalities.bounds) := by
      have same : problem.inequalities.bounds = (Vec.zeros 0 : Vec α (problem.horizon * 0)) :=
        Vec.ext fun i => absurd i.isLt (Nat.not_lt_zero _)
      rw [same]
      exact BlockMatrix.ofTensor_stacked (k := 0) _
    simp only [inequalities, if_true, coefficients, coupling, bounds, bind, Except.bind]
    rfl
  · have bounds : BlockMatrix.kronecker (.ofVec (Vector.replicate problem.horizon 1))
        (.ofVec problem.stage.bounds) = .ok (.stacked problem.inequalities.bounds) := by
      rw [BlockMatrix.kronecker_ofVec_ofVec, ← bounds_inequalities]
      rfl
    simp only [inequalities, if_neg noRows, freeInequalities_eq, bounds, inSquares, inColumn,
      BlockMatrix.ofTensor_square, BlockMatrix.ofTensor_column, bind, Except.bind]
    rfl

/-- Every step of the assembly succeeds, and the matrices are those of the condensed program. -/
theorem program_eq : program problem = .ok problem.condense.blocks := by
  simp only [program, inequalities_eq, hessian_eq, linearCoefficients_eq, bind, Except.bind]
  rfl

end Assembly

end RecedingHorizon
