import Mathlib.Algebra.Order.Star.Real
import Mathlib.LinearAlgebra.Matrix.PosDef
import RecedingHorizon.Numeric.Cholesky
import RecedingHorizon.Proofs.Exact.Matrix

/-!
# Triangular square roots in exact arithmetic

A symmetric matrix that has a triangular square root is positive definite
(`posDef_of_isPositiveDefinite`). The proof follows the factorization: its step removes the first row
and column of the matrix and leaves the Schur complement of the corner, and the quadratic form of the
matrix is a positive multiple of a square and the form of that complement.
-/

namespace RecedingHorizon

open Matrix

namespace Mat

variable {n : Nat} {M : Mat ℝ (n + 1) (n + 1)}

/-- The first column below the corner. -/
def below (M : Mat ℝ (n + 1) (n + 1)) : Fin n → ℝ := fun i => M i.succ 0

/-- What is left of a matrix once its first column is explained. -/
noncomputable def schurComplement (M : Mat ℝ (n + 1) (n + 1)) : Mat ℝ n n :=
  ofFn fun i j => M i.succ j.succ - M.below i * M.below j / M 0 0

/-- A matrix has a triangular square root if its corner is positive and what remains has one. -/
theorem isPositiveDefinite_succ :
    M.isPositiveDefinite = true ↔ 0 < M 0 0 ∧ M.schurComplement.isPositiveDefinite = true := by
  have corner : firstIndex = (0 : Fin (n + 1)) := rfl
  rw [isPositiveDefinite, cholesky?, corner]
  split
  · next positive =>
    have root : Real.sqrt (M 0 0) * Real.sqrt (M 0 0) = M 0 0 := Real.mul_self_sqrt positive.le
    have scaled (a b : ℝ) :
        a * (1 / Real.sqrt (M 0 0)) * (b * (1 / Real.sqrt (M 0 0))) = a * b / M 0 0 := by
      rw [mul_one_div, mul_one_div, div_mul_div_comm, root]
    -- What is left to factor after the first column is the Schur complement.
    have rest : (ofFn fun i j => M i.succ j.succ -
        (Vec.ofFn fun i => M i.succ 0 * (1 / Scalar.sqrt (M 0 0)) : Vec ℝ n) i *
          (Vec.ofFn fun i => M i.succ 0 * (1 / Scalar.sqrt (M 0 0)) : Vec ℝ n) j) =
        M.schurComplement := by
      ext i j
      simp only [schurComplement, below, ofFn_entry, Vec.ofFn_get]
      exact congrArg (M i.succ j.succ - ·) (scaled _ _)
    simp only [rest, Option.isSome_map, positive, true_and]
    rfl
  · next other => simp [other]

theorem isSymm_schurComplement (symmetric : M.toMatrix.IsSymm) :
    M.schurComplement.toMatrix.IsSymm := by
  apply Matrix.IsSymm.ext
  intro i j
  have mirrored : M i.succ j.succ = M j.succ i.succ := symmetric.apply j.succ i.succ
  simp only [toMatrix_apply, schurComplement, ofFn_entry, mirrored]
  ring

/-- A quadratic form, with the first entry of the vector apart. -/
theorem dotProduct_mulVec_succ (symmetric : M.toMatrix.IsSymm) (x : Fin (n + 1) → ℝ) :
    x ⬝ᵥ M.toMatrix *ᵥ x =
      M 0 0 * x 0 ^ 2 + 2 * x 0 * (M.below ⬝ᵥ Fin.tail x) +
        Fin.tail x ⬝ᵥ M.minor.toMatrix *ᵥ Fin.tail x := by
  -- The first row and the first column are taken out of the product.
  have first : (M.toMatrix *ᵥ x) 0 = M 0 0 * x 0 + M.below ⬝ᵥ Fin.tail x := by
    have mirrored (j : Fin n) : M.toMatrix 0 j.succ = M j.succ 0 := symmetric.apply j.succ 0
    simp only [Matrix.mulVec, dotProduct, Fin.sum_univ_succ, mirrored]
    rfl
  have later (i : Fin n) : (M.toMatrix *ᵥ x) i.succ =
      M.below i * x 0 + (M.minor.toMatrix *ᵥ Fin.tail x) i := by
    simp only [Matrix.mulVec, dotProduct, Fin.sum_univ_succ, minor, toMatrix_ofFn]
    rfl
  have apart : x ⬝ᵥ M.toMatrix *ᵥ x =
      x 0 * (M.toMatrix *ᵥ x) 0 + ∑ i, Fin.tail x i * (M.toMatrix *ᵥ x) i.succ :=
    Fin.sum_univ_succ _
  have column : ∑ i, Fin.tail x i * (M.below i * x 0) = x 0 * (M.below ⬝ᵥ Fin.tail x) := by
    rw [dotProduct, Finset.mul_sum]
    exact Finset.sum_congr rfl fun i _ => by ring
  rw [apart, first]
  simp only [later, mul_add, Finset.sum_add_distrib, column]
  rw [← dotProduct]
  ring

theorem dotProduct_schurComplement (y : Fin n → ℝ) :
    y ⬝ᵥ M.schurComplement.toMatrix *ᵥ y =
      y ⬝ᵥ M.minor.toMatrix *ᵥ y - (M.below ⬝ᵥ y) ^ 2 / M 0 0 := by
  have split : M.schurComplement.toMatrix =
      M.minor.toMatrix - (M 0 0)⁻¹ • vecMulVec M.below M.below := by
    ext i j
    simp only [schurComplement, minor, toMatrix_ofFn, Matrix.sub_apply, Matrix.smul_apply,
      vecMulVec_apply, Matrix.of_apply, smul_eq_mul]
    ring
  rw [split, sub_mulVec, dotProduct_sub, smul_mulVec, dotProduct_smul, vecMulVec_mulVec,
    dotProduct_comm M.below y]
  simp only [dotProduct_smul, op_smul_eq_smul, smul_eq_mul]
  ring

/-- A symmetric matrix that has a triangular square root is positive definite. -/
theorem posDef_of_isPositiveDefinite {M : Mat ℝ n n} (symmetric : M.toMatrix.IsSymm)
    (factored : M.isPositiveDefinite = true) : M.toMatrix.PosDef := by
  apply posDef_iff_dotProduct_mulVec.mpr
  refine ⟨symmetric, fun x nonzero => ?_⟩
  rw [star_trivial]
  induction n with
  | zero => exact absurd (Subsingleton.elim x 0) nonzero
  | succ n ih =>
    obtain ⟨pivot, rest⟩ := isPositiveDefinite_succ.mp factored
    have remainder := ih (isSymm_schurComplement symmetric) rest (Fin.tail x)
    -- The square is completed in the first entry; what remains is the form of the complement.
    have square : x ⬝ᵥ M.toMatrix *ᵥ x =
        M 0 0 * (x 0 + (M.below ⬝ᵥ Fin.tail x) / M 0 0) ^ 2 +
          Fin.tail x ⬝ᵥ M.schurComplement.toMatrix *ᵥ Fin.tail x := by
      rw [dotProduct_mulVec_succ symmetric, dotProduct_schurComplement]
      field_simp
      ring
    rw [square]
    by_cases vanishing : Fin.tail x = 0
    · have first : x 0 ≠ 0 := fun zero => nonzero <| funext <| Fin.cases zero (congrFun vanishing)
      simp only [vanishing, dotProduct_zero, zero_div, add_zero, zero_dotProduct]
      positivity
    · have := remainder vanishing
      positivity

end Mat

end RecedingHorizon
