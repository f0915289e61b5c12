import Mathlib.LinearAlgebra.Matrix.BilinearForm
import Mathlib.LinearAlgebra.Matrix.DotProduct
import Mathlib.LinearAlgebra.Matrix.Symmetric
import RecedingHorizon.Linear.Matrix
import RecedingHorizon.Proofs.Exact.Scalar

/-!
# Vectors and matrices in exact arithmetic

A real matrix of the library is read as a matrix of linear algebra by `Mat.toMatrix`, and a vector
as the function `Vector.get` from its indices. Under this reading every operation of the library is
the algebraic one; these equations are simp lemmas, so that a statement about the library turns into
one about matrices and back by `Mat.toMatrix_inj` and `Vec.get_inj`.
-/

namespace RecedingHorizon

open Matrix

variable {k m n : Nat}

namespace Vec

theorem sumOver_eq_sum (f : Fin n → ℝ) : sumOver n f = ∑ i, f i := by
  induction n with
  | zero => simp [sumOver]
  | succ n ih =>
    rw [Fin.sum_univ_castSucc, ← ih, sumOver, Fin.foldl_succ_last]
    rfl

theorem get_inj {x y : Vec ℝ n} : x.get = y.get ↔ x = y :=
  ⟨fun same => Vec.ext (congrFun same), congrArg _⟩

@[simp] theorem get_ofFn (f : Fin n → ℝ) : (ofFn f).get = f := funext (ofFn_get f)

@[simp] theorem get_add (x y : Vec ℝ n) : (x + y).get = x.get + y.get := by
  funext i
  exact Vector.getElem_add ..

@[simp] theorem get_sub (x y : Vec ℝ n) : (x - y).get = x.get - y.get := by
  funext i
  exact Vector.getElem_sub ..

@[simp] theorem get_neg (x : Vec ℝ n) : (-x).get = -x.get := by
  funext i
  exact Vector.getElem_neg ..

@[simp] theorem get_zeros : (zeros n : Vec ℝ n).get = 0 := by
  funext i
  simp [zeros, Vector.get]

theorem dot_eq (x y : Vec ℝ n) : dot x y = x.get ⬝ᵥ y.get := sumOver_eq_sum _

end Vec

namespace Mat

/-- The matrix of linear algebra with the same entries. -/
def toMatrix (M : Mat ℝ m n) : Matrix (Fin m) (Fin n) ℝ := Matrix.of M.entry

theorem toMatrix_apply (M : Mat ℝ m n) (i : Fin m) (j : Fin n) : M.toMatrix i j = M i j := rfl

theorem toMatrix_inj {M N : Mat ℝ m n} : M.toMatrix = N.toMatrix ↔ M = N :=
  ⟨fun same => Mat.ext fun i j => congrFun (congrFun same i) j, congrArg _⟩

@[simp] theorem toMatrix_ofFn (f : Fin m → Fin n → ℝ) : (ofFn f).toMatrix = Matrix.of f := by
  ext i j
  exact ofFn_entry f i j

@[simp] theorem toMatrix_zero : (0 : Mat ℝ m n).toMatrix = 0 := by
  ext i j
  exact zero_entry i j

@[simp] theorem toMatrix_identity : (identity n : Mat ℝ n n).toMatrix = 1 := by
  ext i j
  simp [identity, Matrix.one_apply]

@[simp] theorem toMatrix_add (M N : Mat ℝ m n) : (M + N).toMatrix = M.toMatrix + N.toMatrix := by
  ext i j
  exact add_entry M N i j

@[simp] theorem toMatrix_sub (M N : Mat ℝ m n) : (M - N).toMatrix = M.toMatrix - N.toMatrix := by
  ext i j
  exact sub_entry M N i j

@[simp] theorem toMatrix_neg (M : Mat ℝ m n) : (-M).toMatrix = -M.toMatrix := by
  ext i j
  exact neg_entry M i j

@[simp] theorem toMatrix_transpose (M : Mat ℝ m n) : M.transpose.toMatrix = M.toMatrixᵀ := by
  ext i j
  exact transpose_entry M i j

theorem isSymm_of_transpose_eq {M : Mat ℝ n n} (same : M.transpose = M) : M.toMatrix.IsSymm := by
  rw [Matrix.IsSymm, ← toMatrix_transpose, same]

theorem transpose_identity : (identity n : Mat ℝ n n).transpose = identity n := by
  apply toMatrix_inj.mp
  rw [toMatrix_transpose, toMatrix_identity, Matrix.transpose_one]

@[simp] theorem toMatrix_scale (c : ℝ) (M : Mat ℝ m n) : (scale c M).toMatrix = c • M.toMatrix := by
  ext i j
  exact map_entry (c * ·) M i j

@[simp] theorem toMatrix_mul (M : Mat ℝ m k) (N : Mat ℝ k n) :
    (M * N).toMatrix = M.toMatrix * N.toMatrix := by
  ext i j
  rw [toMatrix_apply, mul_entry, Vec.sumOver_eq_sum, Matrix.mul_apply]
  rfl

@[simp] theorem get_mulVec (M : Mat ℝ m n) (x : Vec ℝ n) :
    (M.mulVec x).get = M.toMatrix *ᵥ x.get := by
  funext i
  rw [mulVec, Vec.get_ofFn, Vec.dot_eq]
  rfl

theorem identity_mulVec (x : Vec ℝ n) : (identity n).mulVec x = x := by
  apply Vec.get_inj.mp
  rw [get_mulVec, toMatrix_identity, Matrix.one_mulVec]

theorem toMatrix_symmetrize (M : Mat ℝ n n) :
    M.symmetrize.toMatrix = (1 / 2 : ℝ) • (M.toMatrix + M.toMatrixᵀ) := by
  rw [symmetrize, toMatrix_scale, toMatrix_add, toMatrix_transpose, Scalar.half_eq]

theorem symmetrize_eq_self {M : Mat ℝ n n} (symmetric : M.toMatrix.IsSymm) : M.symmetrize = M := by
  apply toMatrix_inj.mp
  rw [toMatrix_symmetrize, symmetric.eq]
  module

theorem isSymm_symmetrize (M : Mat ℝ n n) : M.symmetrize.toMatrix.IsSymm := by
  rw [toMatrix_symmetrize]
  exact (Matrix.isSymm_add_transpose_self M.toMatrix).smul _

/-- Only the symmetric part of a matrix counts in its quadratic form. -/
theorem dotProduct_symmetrize_mulVec (M : Mat ℝ n n) (x : Fin n → ℝ) :
    x ⬝ᵥ M.symmetrize.toMatrix *ᵥ x = x ⬝ᵥ M.toMatrix *ᵥ x := by
  have flipped : x ⬝ᵥ M.toMatrixᵀ *ᵥ x = x ⬝ᵥ M.toMatrix *ᵥ x := by
    rw [mulVec_transpose, dotProduct_comm, ← dotProduct_mulVec]
  rw [toMatrix_symmetrize, smul_mulVec, dotProduct_smul, add_mulVec, dotProduct_add, flipped,
    smul_eq_mul]
  ring

/-- A symmetric matrix is determined by its quadratic form. -/
theorem eq_of_quadraticForm_eq {M N : Matrix (Fin n) (Fin n) ℝ} (symmetric : M.IsSymm)
    (symmetric' : N.IsSymm) (same : ∀ x, x ⬝ᵥ M *ᵥ x = x ⬝ᵥ N *ᵥ x) : M = N := by
  apply Matrix.toBilin'.injective
  apply LinearMap.BilinForm.ext_of_isSymm
  · exact Matrix.isSymm_toBilin'_iff_isSymm.mpr symmetric
  · exact Matrix.isSymm_toBilin'_iff_isSymm.mpr symmetric'
  · intro x
    rw [Matrix.toBilin'_apply', Matrix.toBilin'_apply', same]

end Mat

end RecedingHorizon
