import Mathlib.Analysis.CStarAlgebra.Classes
import Mathlib.Analysis.SpecialFunctions.Trigonometric.Basic
import Mathlib.LinearAlgebra.Matrix.Hermitian
import RecedingHorizon.Condensing.Conditioning
import RecedingHorizon.Proofs.Exact.Matrix

/-!
# Complex numbers in exact arithmetic

A pair of reals is read as a complex number by `Complex.value`, and a matrix of such pairs as one of
linear algebra by `Mat.toComplexMatrix`. A real matrix may be read as a complex one as well
(`Mat.overComplex`). Under these readings the operations of the library are the algebraic ones.
-/

namespace RecedingHorizon

open Matrix

variable {k l m n : Nat}

namespace Complex

/-- The complex number with these parts. -/
def value (z : Complex ℝ) : ℂ := ⟨z.re, z.im⟩

theorem value_inj {z w : Complex ℝ} : z.value = w.value ↔ z = w := by
  constructor
  · intro same
    obtain ⟨a, b⟩ := z
    obtain ⟨c, d⟩ := w
    cases same
    rfl
  · exact congrArg value

@[simp] theorem value_zero : (0 : Complex ℝ).value = 0 := rfl
@[simp] theorem value_one : (1 : Complex ℝ).value = 1 := rfl
@[simp] theorem value_ofReal (x : ℝ) : (ofReal x).value = x := rfl
@[simp] theorem value_add (z w : Complex ℝ) : (z + w).value = z.value + w.value := rfl
@[simp] theorem value_sub (z w : Complex ℝ) : (z - w).value = z.value - w.value := rfl
@[simp] theorem value_mul (z w : Complex ℝ) : (z * w).value = z.value * w.value := rfl
@[simp] theorem value_conjugate (z : Complex ℝ) : z.conjugate.value = star z.value := rfl

theorem value_onCircle (angle : ℝ) : (onCircle angle).value = Complex.exp (angle * Complex.I) := by
  apply Complex.ext
  · exact (Complex.exp_ofReal_mul_I_re angle).symm
  · exact (Complex.exp_ofReal_mul_I_im angle).symm

theorem value_sumOver (f : Fin n → Complex ℝ) :
    (Vec.sumOver n f).value = ∑ i, (f i).value := by
  induction n with
  | zero => simp [Vec.sumOver]
  | succ n ih =>
    rw [Fin.sum_univ_castSucc, ← ih, Vec.sumOver, Fin.foldl_succ_last]
    rfl

end Complex

namespace Mat

/-- The complex matrix with the same entries. -/
def toComplexMatrix (M : Mat (Complex ℝ) m n) : Matrix (Fin m) (Fin n) ℂ :=
  Matrix.of fun i j => (M i j).value

/-- A real matrix of the library as a complex one. -/
def overComplex (M : Mat ℝ m n) : Matrix (Fin m) (Fin n) ℂ := M.toMatrix.map Complex.ofRealHom

theorem toComplexMatrix_apply (M : Mat (Complex ℝ) m n) (i : Fin m) (j : Fin n) :
    M.toComplexMatrix i j = (M i j).value := rfl

theorem toComplexMatrix_inj {M N : Mat (Complex ℝ) m n} :
    M.toComplexMatrix = N.toComplexMatrix ↔ M = N :=
  ⟨fun same => Mat.ext fun i j => Complex.value_inj.mp (congrFun (congrFun same i) j), congrArg _⟩

/-- The matrix of the library with the same entries. -/
noncomputable def ofComplexMatrix (M : Matrix (Fin m) (Fin n) ℂ) : Mat (Complex ℝ) m n :=
  ofFn fun i j => ⟨(M i j).re, (M i j).im⟩

@[simp] theorem toComplexMatrix_ofComplexMatrix (M : Matrix (Fin m) (Fin n) ℂ) :
    (ofComplexMatrix M).toComplexMatrix = M := by
  ext i j
  rw [toComplexMatrix_apply, ofComplexMatrix, ofFn_entry]
  rfl

@[simp] theorem toComplexMatrix_add (M N : Mat (Complex ℝ) m n) :
    (M + N).toComplexMatrix = M.toComplexMatrix + N.toComplexMatrix := by
  ext i j
  exact congrArg Complex.value (add_entry M N i j)

@[simp] theorem toComplexMatrix_sub (M N : Mat (Complex ℝ) m n) :
    (M - N).toComplexMatrix = M.toComplexMatrix - N.toComplexMatrix := by
  ext i j
  exact congrArg Complex.value (sub_entry M N i j)

@[simp] theorem toComplexMatrix_mul (M : Mat (Complex ℝ) m k) (N : Mat (Complex ℝ) k n) :
    (M * N).toComplexMatrix = M.toComplexMatrix * N.toComplexMatrix := by
  ext i j
  rw [toComplexMatrix_apply, mul_entry, Complex.value_sumOver, Matrix.mul_apply]
  rfl

@[simp] theorem toComplexMatrix_scale (z : Complex ℝ) (M : Mat (Complex ℝ) m n) :
    (scale z M).toComplexMatrix = z.value • M.toComplexMatrix := by
  ext i j
  exact congrArg Complex.value (map_entry (z * ·) M i j)

@[simp] theorem toComplexMatrix_identity :
    (identity n : Mat (Complex ℝ) n n).toComplexMatrix = 1 := by
  ext i j
  rw [toComplexMatrix_apply, identity, ofFn_entry, Matrix.one_apply]
  split <;> rfl

@[simp] theorem toComplexMatrix_toComplex (M : Mat ℝ m n) :
    (ConstrainedLqr.toComplex M).toComplexMatrix = M.overComplex := by
  ext i j
  exact congrArg Complex.value (map_entry Complex.ofReal M i j)

@[simp] theorem toComplexMatrix_adjoint (M : Mat (Complex ℝ) m n) :
    (ConstrainedLqr.adjoint M).toComplexMatrix = M.toComplexMatrixᴴ := by
  ext i j
  rw [toComplexMatrix_apply, ConstrainedLqr.adjoint, map_entry, transpose_entry]
  rfl

/-! ### Real matrices -/

@[simp] theorem overComplex_add (M N : Mat ℝ m n) :
    (M + N).overComplex = M.overComplex + N.overComplex := by
  rw [overComplex, toMatrix_add, Matrix.map_add _ (map_add _)]
  rfl

@[simp] theorem overComplex_sub (M N : Mat ℝ m n) :
    (M - N).overComplex = M.overComplex - N.overComplex := by
  rw [overComplex, toMatrix_sub, Matrix.map_sub _ (map_sub _)]
  rfl

@[simp] theorem overComplex_neg (M : Mat ℝ m n) : (-M).overComplex = -M.overComplex := by
  rw [overComplex, toMatrix_neg, Matrix.map_neg _ (map_neg _)]
  rfl

@[simp] theorem overComplex_mul (M : Mat ℝ m k) (N : Mat ℝ k n) :
    (M * N).overComplex = M.overComplex * N.overComplex := by
  rw [overComplex, toMatrix_mul, Matrix.map_mul]
  rfl

@[simp] theorem overComplex_zero : (0 : Mat ℝ m n).overComplex = 0 := by
  rw [overComplex, toMatrix_zero, Matrix.map_zero _ (map_zero _)]

@[simp] theorem overComplex_identity : (identity n : Mat ℝ n n).overComplex = 1 := by
  rw [overComplex, toMatrix_identity, Matrix.map_one _ (map_zero _) (map_one _)]

/-- The adjoint of a real matrix is its transpose. -/
theorem overComplex_transpose (M : Mat ℝ m n) : M.transpose.overComplex = M.overComplexᴴ := by
  ext i j
  rw [overComplex, toMatrix_transpose, Matrix.conjTranspose_apply]
  exact (Complex.conj_ofReal (M j i)).symm

theorem isHermitian_overComplex {M : Mat ℝ n n} (symmetric : M.transpose = M) :
    M.overComplex.IsHermitian := by
  rw [Matrix.IsHermitian, ← overComplex_transpose, symmetric]

end Mat

end RecedingHorizon
