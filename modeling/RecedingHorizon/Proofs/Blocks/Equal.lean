import RecedingHorizon.Condensing.Blocks

/-!
# Blocks of one size

The blocks of a condensed program all belong to a stage. Among blocks of one size the ends of a block
are multiples of the size (`ends_equalSizes`), so that reading a block by its numbers gives the part
of the matrix that belongs to these stages (`block_square`), and writing one changes this part only
(`setBlock_square`).
-/

namespace RecedingHorizon

variable {N : Nat}

namespace Partition

theorem offsetsFrom_equalSizes (start : Int) (N k : Nat) :
    offsetsFrom start (BlockMatrix.equalSizes N k) =
      (List.range (N + 1)).map fun t => start + (t * k : Nat) := by
  induction N generalizing start with
  | zero => simp [BlockMatrix.equalSizes, offsetsFrom]
  | succ N ih =>
    have tail : offsetsFrom start (BlockMatrix.equalSizes (N + 1) k) =
        start :: offsetsFrom (start + k) (BlockMatrix.equalSizes N k) := rfl
    rw [tail, ih, List.range_succ_eq_map (n := N + 1), List.map_cons, List.map_map]
    simp only [Nat.zero_mul, Int.ofNat_zero, Int.add_zero, List.cons.injEq, true_and]
    refine List.map_congr_left fun t _ => ?_
    simp only [Function.comp_apply, Nat.succ_eq_add_one, Nat.add_mul, Nat.one_mul]
    rw [Int.natCast_add, Int.add_assoc, Int.add_comm (k : Int)]

/-- Among blocks of one size, the ends of a block are multiples of the size. -/
theorem ends_equalSizes (i : Fin N) (k : Nat) :
    ends (BlockMatrix.equalSizes N k) i.val =
      .ok ((i.val * k : Nat), ((i.val + 1) * k : Nat)) := by
  have inside : i.val < N := i.isLt
  have early : i.val < N + 1 := by omega
  have late : i.val + 1 < N + 1 := by omega
  have first : (0 : Int) ≤ i.val := by omega
  have second : (0 : Int) ≤ i.val + 1 := by omega
  have next : ((i.val : Int) + 1).toNat = i.val + 1 := by omega
  rw [ends, offsets, offsetsFrom_equalSizes, entry?, entry?, if_pos first, if_pos second, next,
    Int.toNat_natCast, List.getElem?_map, List.getElem?_map, List.getElem?_range early,
    List.getElem?_range late]
  simp

theorem total_equalSizes (N k : Nat) : total (BlockMatrix.equalSizes N k) = (N * k : Nat) := by
  have sum (start : Int) :
      (BlockMatrix.equalSizes N k).foldl (· + ·) start = start + (N * k : Nat) := by
    induction N generalizing start with
    | zero => simp [BlockMatrix.equalSizes]
    | succ N ih =>
      have tail : BlockMatrix.equalSizes (N + 1) k = (k : Int) :: BlockMatrix.equalSizes N k := rfl
      rw [tail, List.foldl_cons, ih, Nat.add_mul, Nat.one_mul, Int.natCast_add]
      omega
  rw [total, sum, Int.zero_add]

end Partition

namespace Span

/-- The places of a stage. -/
abbrev ofStage (i : Fin N) (k : Nat) : Span (N * k) where
  start := i.val * k
  length := k
  start_add_length_le := by
    have stages : (i.val + 1) * k ≤ N * k := Nat.mul_le_mul_right k i.isLt
    rwa [Nat.add_mul, Nat.one_mul] at stages

theorem clip_stage (i : Fin N) (k : Nat) :
    clip (N * k) (i.val * k : Nat) ((i.val + 1) * k : Nat) = ofStage i k := by
  have inside := (ofStage i k).start_add_length_le
  dsimp only at inside
  have first : bound (N * k) (i.val * k : Nat) = i.val * k := by
    rw [bound, if_neg (by omega), Int.toNat_natCast, Nat.min_eq_left (by omega)]
  have last : bound (N * k) ((i.val + 1) * k : Nat) = i.val * k + k := by
    rw [bound, if_neg (by omega), Int.toNat_natCast, Nat.add_mul, Nat.one_mul,
      Nat.min_eq_left inside]
  simp only [clip, ofStage, first, last, Nat.min_eq_left (Nat.le_add_right _ _),
    Nat.add_sub_cancel_left]

/-- A place of the axis lies in the range of its own stage only. -/
theorem position?_ofStage (i : Fin N) (k : Nat) (a : Fin (N * k)) :
    (ofStage i k).position? a = if Stacked.stage a = i then some (Stacked.position a) else none := by
  have width : 0 < k := Stacked.width_pos a
  have split : a.val / k * k + a.val % k = a.val := Nat.div_add_mod' a.val k
  -- The places of the range are those whose quotient by the width is the stage.
  by_cases own : Stacked.stage a = i
  · have quotient : a.val / k = i.val := congrArg Fin.val own
    have inside : i.val * k ≤ a.val ∧ a.val < i.val * k + k := by
      have := Nat.mod_lt a.val width
      rw [← quotient]
      omega
    have place : a.val - i.val * k = a.val % k := by
      rw [← quotient]
      omega
    rw [if_pos own]
    exact (dif_pos inside).trans (congrArg some (Fin.ext place))
  · have outside : ¬(i.val * k ≤ a.val ∧ a.val < i.val * k + k) := by
      rintro ⟨first, last⟩
      apply own
      apply Fin.ext
      change a.val / k = i.val
      rw [← Nat.succ_mul] at last
      exact Nat.div_eq_of_lt_le first last
    rw [if_neg own]
    exact dif_neg outside

/-- All places of an axis. -/
abbrev whole (n : Nat) : Span n := ⟨0, n, Nat.le_of_eq (Nat.zero_add n)⟩

theorem position?_whole (n : Nat) (b : Fin n) : (whole n).position? b = some b := by
  have inside : 0 ≤ b.val ∧ b.val < 0 + n := by
    have := b.isLt
    omega
  exact (dif_pos inside).trans (congrArg some (Fin.ext (Nat.sub_zero _)))

end Span

namespace BlockMatrix

variable {α : Type} {k l : Nat}

theorem spanOf_whole (i : Fin N) (k : Nat) :
    spanOf (N * k) (equalSizes N k) (.whole i.val : Argument α) = .ok (Span.ofStage i k) := by
  simp only [spanOf, Argument.toIndex, Partition.ends_equalSizes, Span.clip_stage, bind, Except.bind,
    pure, Except.pure]

theorem ofTensor_square (M : Mat α (N * k) (N * l)) :
    ofTensor (.ofMat M) (equalSizes N k) (some (equalSizes N l)) = .ok (square M) := by
  simp [ofTensor, Tensor.ofMat, Partition.total_equalSizes, square]

theorem ofTensor_column (M : Mat α (N * k) l) :
    ofTensor (.ofMat M) (equalSizes N k) (some [(l : Int)]) = .ok (column M) := by
  have single : Partition.total [(l : Int)] = l := by simp [Partition.total]
  simp [ofTensor, Tensor.ofMat, Partition.total_equalSizes, single, column]

theorem ofTensor_stacked (v : Vec α (N * k)) :
    ofTensor (.ofVec v) (equalSizes N k) none = .ok (stacked v) := by
  simp [ofTensor, Tensor.ofVec, Partition.total_equalSizes, stacked]

/-- A single block takes its whole axis. -/
theorem spanOf_single (n : Nat) :
    spanOf n [(n : Int)] (.whole 0 : Argument α) = .ok (Span.whole n) := by
  have ends : Partition.ends [(n : Int)] 0 = .ok (0, (n : Int)) := by
    simp [Partition.ends, Partition.offsets, Partition.offsetsFrom, Partition.entry?]
  have clipped : Span.clip n 0 n = Span.whole n := by
    have first : Span.bound n 0 = 0 := by simp [Span.bound]
    have last : Span.bound n n = n := by
      rw [Span.bound, if_neg (by omega), Int.toNat_natCast, Nat.min_self]
    simp only [Span.clip, Span.whole, first, last, Nat.zero_min, Nat.sub_zero]
  simp only [spanOf, Argument.toIndex, ends, clipped, bind, Except.bind, pure, Except.pure]

/-- The blocks of a matrix that is cut into blocks of one size. -/
theorem block_equalSizes [Scalar α] {p q : Nat} (M : Mat α (p * k) (q * l)) (i : Fin p) (j : Fin q) :
    (matrix M (equalSizes p k) (equalSizes q l)).block (.whole i.val) (.whole j.val) =
      .ok (.ofMat (M.block i j)) := by
  simp only [block, matrixSpans, spanOf_whole, bind, Except.bind, pure, Except.pure,
    Argument.isGiven]
  rfl

theorem block_square [Scalar α] (M : Mat α (N * k) (N * l)) (i j : Fin N) :
    (square M).block (.whole i.val) (.whole j.val) = .ok (.ofMat (M.block i j)) :=
  block_equalSizes M i j

/-- The blocks of a matrix of which only the rows are cut into stages. -/
theorem block_column [Scalar α] (M : Mat α (N * k) l) (i : Fin N) :
    (column M).block (.whole i.val) (.whole 0) =
      .ok (.ofMat (Mat.ofFn fun a b => M (Stacked.index i a) b)) := by
  have same (b : Fin l) : (Span.whole l).place b = b := Fin.ext (Nat.zero_add _)
  have cells : (Mat.ofFn fun a b => M ((Span.ofStage i k).place a) ((Span.whole l).place b) :
      Mat α k l) = Mat.ofFn fun a b => M (Stacked.index i a) b := by
    ext a b
    rw [Mat.ofFn_entry, Mat.ofFn_entry, same]
    rfl
  simp only [column, block, matrixSpans, spanOf_whole, spanOf_single, bind, Except.bind, pure,
    Except.pure, Argument.isGiven]
  exact congrArg (fun M : Mat α k l => Except.ok (Tensor.ofMat M)) cells

/-- The parts of a vector that is cut into stages. -/
theorem block_stacked_of_first [Scalar α] (v : Vec α (N * k)) (i : Fin N) {j : Argument α}
    (first : isFirstColumn j = true) : (stacked v).block (.whole i.val) j = .ok (.ofVec (v.part i)) := by
  simp only [stacked, block, vectorSpan, spanOf_whole, first, bind, Except.bind, pure, Except.pure,
    if_true]
  rfl

theorem block_stacked [Scalar α] (v : Vec α (N * k)) (i : Fin N) :
    (stacked v).block (.whole i.val) .nothing = .ok (.ofVec (v.part i)) :=
  block_stacked_of_first v i rfl

/-- The matrix is cut into `rows` by `columns` blocks, each of them `k` by `l`. -/
structure HasBlocks [Scalar α] (M : BlockMatrix α) (rows columns k l : Nat) : Prop where
  shape : M.shape = [rows * k, columns * l]
  blockShape : M.blockShape = [rows, columns]
  block (i j : Nat) : i < rows → j < columns →
    ∃ X : Mat α k l, M.block (.whole i) (.whole j) = .ok (.ofMat X)

/-- The vector is cut into `count` parts of length `k`. -/
structure HasParts [Scalar α] (v : BlockMatrix α) (count k : Nat) : Prop where
  shape : v.shape = [count * k]
  blockShape : v.blockShape = [count]
  part (i : Nat) : i < count → ∃ x : Vec α k, v.block (.whole i) .nothing = .ok (.ofVec x)

theorem hasBlocks_square [Scalar α] (M : Mat α (N * k) (N * l)) : (square M).HasBlocks N N k l where
  shape := rfl
  blockShape := by simp [square, BlockMatrix.blockShape, equalSizes]
  block i j row column := ⟨_, block_square M ⟨i, row⟩ ⟨j, column⟩⟩

theorem hasBlocks_column [Scalar α] (M : Mat α (N * k) l) : (column M).HasBlocks N 1 k l where
  shape := by rw [Nat.one_mul]; rfl
  blockShape := by simp [column, BlockMatrix.blockShape, equalSizes]
  block i j row single := by
    obtain rfl : j = 0 := by omega
    exact ⟨_, block_column M ⟨i, row⟩⟩

theorem hasParts_stacked [Scalar α] (v : Vec α (N * k)) : (stacked v).HasParts N k where
  shape := rfl
  blockShape := by simp [stacked, BlockMatrix.blockShape, equalSizes]
  part i inside := ⟨_, block_stacked v ⟨i, inside⟩⟩

/-! ### Writing -/

/-- The matrix with the entries in a range of rows and columns replaced. -/
def replaced {m n : Nat} (M : Mat α m n) (down : Span m) (across : Span n)
    (X : Mat α down.length across.length) : Mat α m n :=
  Mat.ofFn fun a b =>
    match down.position? a, across.position? b with
    | some p, some q => X p q
    | _, _ => M a b

theorem replaced_entry {m n : Nat} (M : Mat α m n) (down : Span m) (across : Span n)
    (X : Mat α down.length across.length) (a : Fin m) (b : Fin n) :
    replaced M down across X a b =
      match down.position? a, across.position? b with
      | some p, some q => X p q
      | _, _ => M a b :=
  Mat.ofFn_entry _ a b

theorem setBlock_matrix [Scalar α] {m n : Nat} (M : Mat α m n) {rows columns : List Int}
    {i j : Argument α} {down : Span m} {across : Span n}
    (spans : matrixSpans m n rows columns i j = .ok (down, across))
    (X : Mat α down.length across.length) :
    (matrix M rows columns).setBlock i j (.ofMat X) =
      .ok (matrix (replaced M down across X) rows columns) := by
  have fitted : (Tensor.ofMat X).fitTo [down.length, across.length] = .ok (.ofMat X) :=
    Tensor.fitTo_shape _
  simp only [setBlock, spans, fitted, Tensor.toMat?_ofMat, bind, Except.bind, pure, Except.pure]
  rfl

/-- A block that is overwritten is the only one that changes. -/
theorem setBlock_square [Scalar α] (M : Mat α (N * k) (N * l)) (i j : Fin N) (X : Mat α k l) :
    (square M).setBlock (.whole i.val) (.whole j.val) (.ofMat X) =
      .ok (square (Mat.ofBlocks fun s t => if s = i ∧ t = j then X else M.block s t)) := by
  have spans : matrixSpans (N * k) (N * l) (equalSizes N k) (equalSizes N l)
      (.whole i.val : Argument α) (.whole j.val) = .ok (Span.ofStage i k, Span.ofStage j l) := by
    simp only [matrixSpans, spanOf_whole, bind, Except.bind, pure, Except.pure, Argument.isGiven,
      Bool.not_true, Bool.false_eq_true, if_false]
  have cells : replaced M (Span.ofStage i k) (Span.ofStage j l) X =
      Mat.ofBlocks fun s t => if s = i ∧ t = j then X else M.block s t := by
    ext a b
    have entry : M a b = M.block (Stacked.stage a) (Stacked.stage b) (Stacked.position a)
        (Stacked.position b) := by simp [Mat.block]
    rw [replaced_entry, Mat.ofBlocks, Mat.ofFn_entry, Span.position?_ofStage,
      Span.position?_ofStage]
    by_cases row : Stacked.stage a = i <;> by_cases column : Stacked.stage b = j <;>
      simp [row, column, entry]
  exact (setBlock_matrix M spans X).trans (congrArg (fun M => Except.ok (square M)) cells)

theorem setBlock_column [Scalar α] (blocks : Fin N → Mat α k l) (i : Fin N) (X : Mat α k l) :
    (column (Mat.ofBlockColumn blocks)).setBlock (.whole i.val) (.whole 0) (.ofMat X) =
      .ok (column (Mat.ofBlockColumn fun s => if s = i then X else blocks s)) := by
  have spans : matrixSpans (N * k) l (equalSizes N k) [(l : Int)] (.whole i.val : Argument α)
      (.whole 0) = .ok (Span.ofStage i k, Span.whole l) := by
    simp only [matrixSpans, spanOf_whole, spanOf_single, bind, Except.bind, pure, Except.pure,
      Argument.isGiven, Bool.not_true, Bool.false_eq_true, if_false]
  have cells : replaced (Mat.ofBlockColumn blocks) (Span.ofStage i k) (Span.whole l) X =
      Mat.ofBlockColumn fun s => if s = i then X else blocks s := by
    ext a b
    rw [replaced_entry, Mat.ofBlockColumn, Mat.ofBlockColumn, Mat.ofFn_entry, Mat.ofFn_entry,
      Span.position?_ofStage, Span.position?_whole]
    by_cases row : Stacked.stage a = i <;> simp [row]
  exact (setBlock_matrix _ spans X).trans (congrArg (fun M => Except.ok (column M)) cells)

end BlockMatrix

end RecedingHorizon
