import RecedingHorizon.Blocks.Matrix
import RecedingHorizon.Linear.Stacked

/-!
# Kronecker products

The Kronecker product of two matrices has a block for every entry of the first one, which is that
multiple of the second one. Vectors count as columns, and two vectors give a block vector.
-/

namespace RecedingHorizon

variable {α : Type} [Mul α] {k l m n : Nat}

/-- The blocks `A i j * B`. -/
def Mat.kronecker (A : Mat α k l) (B : Mat α m n) : Mat α (k * m) (l * n) :=
  Mat.ofBlocks fun i j => Mat.scale (A i j) B

/-- The blocks `a i * b`. -/
def Vec.kronecker (a : Vec α k) (b : Vec α m) : Vec α (k * m) :=
  Vec.stack fun i => b.map (a i * ·)

namespace BlockMatrix

def equalSizes (count size : Nat) : List Int := List.replicate count (size : Int)

/-- The Kronecker product of two vectors or matrices, with a block for every entry of the first. -/
def kronecker (A B : Tensor α) : Except Fault (BlockMatrix α) :=
  let product {k l m n : Nat} (A : Mat α k l) (B : Mat α m n) : BlockMatrix α :=
    matrix (A.kronecker B) (equalSizes k m) (equalSizes l n)
  match A, B with
  | ⟨[k], a⟩, ⟨[m], b⟩ =>
    let a : Vec α k := a
    let b : Vec α m := b
    .ok (vector (a.kronecker b) (equalSizes k m))
  -- Beside a matrix, a vector is a single column.
  | ⟨[k], a⟩, ⟨[m, n], b⟩ =>
    let a : Vec α k := a
    let B : Mat α m n := ⟨b⟩
    .ok (product (Mat.ofColumn a) B)
  | ⟨[k, l], a⟩, ⟨[m], b⟩ =>
    let A : Mat α k l := ⟨a⟩
    let b : Vec α m := b
    .ok (product A (Mat.ofColumn b))
  | ⟨[k, l], a⟩, ⟨[m, n], b⟩ =>
    let A : Mat α k l := ⟨a⟩
    let B : Mat α m n := ⟨b⟩
    .ok (product A B)
  | _, _ => .error .incompatibleShapes

theorem kronecker_ofMat_ofMat (A : Mat α k l) (B : Mat α m n) :
    kronecker (.ofMat A) (.ofMat B) =
      .ok (matrix (A.kronecker B) (equalSizes k m) (equalSizes l n)) :=
  rfl

theorem kronecker_ofVec_ofVec (a : Vec α k) (b : Vec α m) :
    kronecker (.ofVec a) (.ofVec b) = .ok (vector (a.kronecker b) (equalSizes k m)) :=
  rfl

end BlockMatrix

end RecedingHorizon
