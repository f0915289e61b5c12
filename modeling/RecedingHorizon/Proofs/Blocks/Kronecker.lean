import RecedingHorizon.Blocks.Kronecker
import RecedingHorizon.Proofs.Blocks.Equal
import RecedingHorizon.Proofs.Exact.Stacked
import RecedingHorizon.Tensor.Product

/-!
# Blocks of a Kronecker product

The blocks that are read from a Kronecker product are the multiples of the second array by the entries of the
first one, whether the arrays are vectors or matrices. The Kronecker product of an identity with a matrix
repeats the matrix along the diagonal (`Mat.identity_kronecker`) and so acts on every part of a stack alone.
`BlockMatrix.kronecker_blocks_and_action` says both.
-/

namespace RecedingHorizon

variable {N k l m n : Nat}

/-! ### Blocks and parts -/

theorem Mat.block_kronecker {α : Type} [Mul α] (A : Mat α k l) (B : Mat α m n) (i : Fin k)
    (j : Fin l) : (A.kronecker B).block i j = Mat.scale (A i j) B :=
  Mat.block_ofBlocks _ i j

theorem Vec.part_kronecker {α : Type} [Mul α] (a : Vec α k) (b : Vec α m) (i : Fin k) :
    (a.kronecker b).part i = b.map (a i * ·) :=
  Vec.part_stack _ i

/-! ### A matrix for every stage -/

namespace Mat

theorem identity_kronecker (W : Mat ℝ m n) :
    (Mat.identity N).kronecker W = Mat.repeatDiagonal N W := by
  ext i j
  by_cases same : Stacked.stage i = Stacked.stage j <;>
    simp [Mat.kronecker, Mat.repeatDiagonal, Mat.ofBlocks, Mat.identity, Mat.scale, same]

/-- A matrix that is repeated along the diagonal acts on every part of a stack. -/
theorem part_mulVec_repeatDiagonal (W : Mat ℝ m n) (y : Vec ℝ (N * n)) (i : Fin N) :
    ((Mat.repeatDiagonal N W).mulVec y).part i = W.mulVec (y.part i) := by
  rw [Mat.repeatDiagonal, Mat.part_mulVec_ofBlocks_diagonal]
  · rw [if_pos rfl]
  · intro s t other
    exact if_neg other

theorem identity_kronecker_mulVec_stack (W : Mat ℝ m n) (x : Fin N → Vec ℝ n) :
    ((Mat.identity N).kronecker W).mulVec (Vec.stack x) = Vec.stack fun s => W.mulVec (x s) := by
  refine Vec.ext_part fun s => ?_
  rw [identity_kronecker, part_mulVec_repeatDiagonal, Vec.part_stack, Vec.part_stack]

end Mat

namespace BlockMatrix

/-! ### Kronecker products of arrays -/

section

variable {α : Type} [Scalar α]

/-- There is a block for every entry of the first matrix, and it is this multiple of the second one. -/
structure HasMultiples (P : BlockMatrix α) (A : Mat α k l) (B : Mat α m n) : Prop where
  shape : P.shape = [k * m, l * n]
  blockShape : P.blockShape = [k, l]
  block (i : Fin k) (j : Fin l) :
    P.block (.whole i.val) (.whole j.val) = .ok (.ofMat (Mat.scale (A i j) B))

/-- There is a part for every entry of the first vector, and it is this multiple of the second one. A number
for the column is not needed, and zero is the only one. -/
structure HasMultipleParts (P : BlockMatrix α) (a : Vec α k) (b : Vec α m) : Prop where
  shape : P.shape = [k * m]
  blockShape : P.blockShape = [k]
  part (i : Fin k) : P.block (.whole i.val) .nothing = .ok (.ofVec (b.map (a i * ·)))
  firstColumn (i : Fin k) : P.block (.whole i.val) (.whole 0) = .ok (.ofVec (b.map (a i * ·)))

theorem hasMultiples_kronecker (A : Mat α k l) (B : Mat α m n) :
    (matrix (A.kronecker B) (equalSizes k m) (equalSizes l n)).HasMultiples A B where
  shape := rfl
  blockShape := by simp [BlockMatrix.blockShape, equalSizes]
  block i j := by rw [block_equalSizes, Mat.block_kronecker]

theorem hasMultipleParts_kronecker (a : Vec α k) (b : Vec α m) :
    (vector (a.kronecker b) (equalSizes k m)).HasMultipleParts a b where
  shape := rfl
  blockShape := by simp [BlockMatrix.blockShape, equalSizes]
  part i := by
    rw [← Vec.part_kronecker]
    exact block_stacked (a.kronecker b) i
  firstColumn i := by
    rw [← Vec.part_kronecker]
    exact block_stacked_of_first (a.kronecker b) i rfl

end

/-- The Kronecker product of two vectors is a vector of multiples of the second one, and otherwise vectors
count as columns. The product of an identity with a matrix or a column takes a stack to the stack of what the
matrix makes of its parts. -/
theorem kronecker_blocks_and_action {α : Type} [Scalar α] :
    (∀ (a : Vec α k) (b : Vec α m), ∃ P,
      kronecker (.ofVec a) (.ofVec b) = .ok P ∧ P.HasMultipleParts a b) ∧
    (∀ (a : Vec α k) (B : Mat α m n), ∃ P,
      kronecker (.ofVec a) (.ofMat B) = .ok P ∧ P.HasMultiples (Mat.ofColumn a) B) ∧
    (∀ (A : Mat α k l) (b : Vec α m), ∃ P,
      kronecker (.ofMat A) (.ofVec b) = .ok P ∧ P.HasMultiples A (Mat.ofColumn b)) ∧
    (∀ (A : Mat α k l) (B : Mat α m n), ∃ P,
      kronecker (.ofMat A) (.ofMat B) = .ok P ∧ P.HasMultiples A B) ∧
    (∀ M : Mat ℝ m n, ∃ P, kronecker (.ofMat (.identity N)) (.ofMat M) = .ok P ∧
      ∀ x : Fin N → Vec ℝ n, P.toTensor.product (.ofVec (.stack x)) =
        .ok (.ofVec (.stack fun s => M.mulVec (x s)))) ∧
    ∀ b : Vec ℝ m, ∃ P, kronecker (.ofMat (.identity N)) (.ofVec b) = .ok P ∧
      ∀ x : Fin N → Vec ℝ 1, P.toTensor.product (.ofVec (.stack x)) =
        .ok (.ofVec (.stack fun s => (Mat.ofColumn b).mulVec (x s))) := by
  have acts {n : Nat} (M : Mat ℝ m n) (x : Fin N → Vec ℝ n) :
      Tensor.product (.ofMat ((Mat.identity N).kronecker M)) (.ofVec (.stack x)) =
        .ok (.ofVec (.stack fun s => M.mulVec (x s))) := by
    rw [Tensor.product_ofMat_ofVec, Mat.identity_kronecker_mulVec_stack]
  exact ⟨fun a b => ⟨_, rfl, hasMultipleParts_kronecker a b⟩,
    fun a B => ⟨_, rfl, hasMultiples_kronecker (Mat.ofColumn a) B⟩,
    fun A b => ⟨_, rfl, hasMultiples_kronecker A (Mat.ofColumn b)⟩,
    fun A B => ⟨_, rfl, hasMultiples_kronecker A B⟩,
    fun M => ⟨_, rfl, acts M⟩, fun b => ⟨_, rfl, acts (Mat.ofColumn b)⟩⟩

end BlockMatrix

end RecedingHorizon
