import Mathlib.Analysis.Matrix.PosDef
import Mathlib.LinearAlgebra.Matrix.Charpoly.Eigs
import RecedingHorizon.Proofs.Gradient.Objective

/-!
# Extreme eigenvalues

A method for eigenvalues promises the roots of the characteristic polynomial in increasing order
(`IsSpectrum`). The first and the last of them bound the quadratic form of a symmetric matrix, so
that the bounds that a run computes for its Hessian are bounds on the curvature of its objective
(`hasCurvature_eigenvalueBounds`).
-/

namespace RecedingHorizon

open Matrix Polynomial ComplexOrder

variable {n : Nat}

theorem Mat.isHermitian_of_transpose_eq {M : Mat ℝ n n} (same : M.transpose = M) :
    M.toMatrix.IsHermitian :=
  (conjTranspose_eq_transpose_of_trivial _).trans (isSymm_of_transpose_eq same)

/-! ### Quadratic forms between roots -/

/-- The eigenvalues of a matrix with their multiplicities, in increasing order. -/
structure IsSpectrum (M : Mat ℝ n n) (values : Vec ℝ n) : Prop where
  monotone : Monotone values.get
  charpoly : M.toMatrix.charpoly = ∏ i, (X - C (values i))

/-- The eigenvalues of a Hermitian matrix, in increasing order. -/
noncomputable def sortedEigenvalues {𝕜 : Type} [RCLike 𝕜] {M : Matrix (Fin n) (Fin n) 𝕜}
    (hermitian : M.IsHermitian) : Vec ℝ n :=
  Vec.ofFn (hermitian.eigenvalues ∘ Tuple.sort hermitian.eigenvalues)

theorem monotone_sortedEigenvalues {𝕜 : Type} [RCLike 𝕜] {M : Matrix (Fin n) (Fin n) 𝕜}
    (hermitian : M.IsHermitian) : Monotone (sortedEigenvalues hermitian).get := by
  rw [sortedEigenvalues, Vec.get_ofFn]
  exact Tuple.monotone_sort _

theorem charpoly_eq_sortedEigenvalues {𝕜 : Type} [RCLike 𝕜] {M : Matrix (Fin n) (Fin n) 𝕜}
    (hermitian : M.IsHermitian) :
    M.charpoly = ∏ i, (X - C (sortedEigenvalues hermitian i : 𝕜)) := by
  simp only [sortedEigenvalues, Vec.ofFn_get, Function.comp_apply]
  rw [hermitian.charpoly_eq]
  exact (Equiv.prod_comp (Tuple.sort hermitian.eigenvalues) fun i =>
    X - C (hermitian.eigenvalues i : 𝕜)).symm

/-- Every symmetric matrix has all its eigenvalues. -/
theorem exists_isSpectrum {M : Mat ℝ n n} (symmetric : M.transpose = M) :
    ∃ values, IsSpectrum M values :=
  let hermitian := Mat.isHermitian_of_transpose_eq symmetric
  ⟨_, monotone_sortedEigenvalues hermitian, charpoly_eq_sortedEigenvalues hermitian⟩

theorem isSpectrum_identity {M : Mat ℝ n n} (identity : M.toMatrix = 1) :
    IsSpectrum M (Vec.ofFn fun _ => 1) := by
  refine ⟨fun i j _ => by simp, ?_⟩
  rw [identity, ← diagonal_one, charpoly_diagonal]
  simp

/-- The eigenvalues of a matrix with two rows, by their sum and product. -/
theorem isSpectrum_of_trace_det {M : Mat ℝ 2 2} {values : Vec ℝ 2} (ordered : values 0 ≤ values 1)
    (trace : M.toMatrix.trace = values 0 + values 1)
    (det : M.toMatrix.det = values 0 * values 1) : IsSpectrum M values := by
  constructor
  · intro i j before
    fin_cases i <;> fin_cases j
    · exact le_rfl
    · exact ordered
    · exact absurd before (by decide)
    · exact le_rfl
  · rw [Matrix.charpoly_fin_two, Fin.prod_univ_two, trace, det, map_add, map_mul]
    ring

section Shifted

variable {𝕜 : Type} [RCLike 𝕜] {M : Matrix (Fin n) (Fin n) 𝕜} (hermitian : M.IsHermitian) {μ : ℝ}

include hermitian

theorem isHermitian_sub_algebraMap (μ : ℝ) : (M - algebraMap ℝ _ μ).IsHermitian :=
  hermitian.sub (IsSelfAdjoint.algebraMap _ (.all μ))

/-- The eigenvalues of the difference are those of the matrix, less `μ`. -/
theorem exists_mem_spectrum_sub (μ : ℝ) (i : Fin n) :
    ∃ r ∈ spectrum ℝ M, (isHermitian_sub_algebraMap hermitian μ).eigenvalues i = r - μ := by
  have member := (isHermitian_sub_algebraMap hermitian μ).eigenvalues_mem_spectrum_real i
  rw [← spectrum.sub_singleton_eq] at member
  obtain ⟨r, root, _, rfl, same⟩ := member
  exact ⟨r, root, same.symm⟩

/-- A Hermitian matrix whose spectrum starts at a number is at least that multiple of the identity. -/
theorem posSemidef_sub_of_forall_le (bounded : ∀ r ∈ spectrum ℝ M, μ ≤ r) :
    (M - algebraMap ℝ _ μ).PosSemidef := by
  rw [(isHermitian_sub_algebraMap hermitian μ).posSemidef_iff_eigenvalues_nonneg]
  intro i
  obtain ⟨r, root, same⟩ := exists_mem_spectrum_sub hermitian μ i
  rw [Pi.zero_apply, same]
  exact sub_nonneg.mpr (bounded r root)

/-- A Hermitian matrix whose spectrum is above a number exceeds that multiple of the identity. -/
theorem posDef_sub_of_forall_lt (bounded : ∀ r ∈ spectrum ℝ M, μ < r) :
    (M - algebraMap ℝ _ μ).PosDef := by
  rw [(isHermitian_sub_algebraMap hermitian μ).posDef_iff_eigenvalues_pos]
  intro i
  obtain ⟨r, root, same⟩ := exists_mem_spectrum_sub hermitian μ i
  rw [same]
  exact sub_pos.mpr (bounded r root)

end Shifted

theorem mul_dotProduct_le {M : Matrix (Fin n) (Fin n) ℝ} (hermitian : M.IsHermitian) {μ : ℝ}
    (bounded : ∀ r ∈ spectrum ℝ M, μ ≤ r) (x : Fin n → ℝ) : μ * (x ⬝ᵥ x) ≤ x ⬝ᵥ M *ᵥ x := by
  have nonneg := (posSemidef_sub_of_forall_le hermitian bounded).dotProduct_mulVec_nonneg x
  rw [star_trivial, sub_mulVec, dotProduct_sub, Algebra.algebraMap_eq_smul_one, smul_mulVec,
    one_mulVec, dotProduct_smul, smul_eq_mul] at nonneg
  exact sub_nonneg.mp nonneg

namespace IsSpectrum

variable {M : Mat ℝ n n} {values : Vec ℝ n}

theorem mem_spectrum_iff (exact : IsSpectrum M values) {r : ℝ} :
    r ∈ spectrum ℝ M.toMatrix ↔ ∃ i, values i = r := by
  rw [Matrix.mem_spectrum_iff_isRoot_charpoly, exact.charpoly, isRoot_prod]
  simp only [Finset.mem_univ, true_and, root_X_sub_C]

theorem mul_dot_le (exact : IsSpectrum M values) (symmetric : M.transpose = M) {μ : ℝ}
    (bounded : ∀ i, μ ≤ values i) (x : Vec ℝ n) : μ * Vec.dot x x ≤ Vec.dot x (M.mulVec x) := by
  rw [Vec.dot_eq, Vec.dot_eq, Mat.get_mulVec]
  refine mul_dotProduct_le (Mat.isHermitian_of_transpose_eq symmetric) (fun r root => ?_) _
  obtain ⟨i, rfl⟩ := exact.mem_spectrum_iff.mp root
  exact bounded i

theorem dot_le_mul (exact : IsSpectrum M values) (symmetric : M.transpose = M) {L : ℝ}
    (bounded : ∀ i, values i ≤ L) (x : Vec ℝ n) : Vec.dot x (M.mulVec x) ≤ L * Vec.dot x x := by
  -- A bound from above is a bound from below for the opposite matrix.
  have opposite := mul_dotProduct_le (μ := -L) (Mat.isHermitian_of_transpose_eq symmetric).neg
    (fun r root => by
      rw [← spectrum.neg_eq] at root
      obtain ⟨i, same⟩ := exact.mem_spectrum_iff.mp root
      linarith [bounded i])
    x.get
  rw [neg_mulVec, dotProduct_neg] at opposite
  rw [Vec.dot_eq, Vec.dot_eq, Mat.get_mulVec]
  linarith

theorem hasCurvature (exact : IsSpectrum M values) (symmetric : M.transpose = M) {μ L : ℝ}
    (lower : ∀ i, μ ≤ values i) (upper : ∀ i, values i ≤ L) : Gradient.HasCurvature M μ L :=
  ⟨symmetric, exact.mul_dot_le symmetric lower, exact.dot_le_mul symmetric upper⟩

/-- The eigenvalues of a definite matrix are positive. -/
theorem pos (exact : IsSpectrum M values) (definite : M.toMatrix.PosDef) (i : Fin n) :
    0 < values i := by
  have root := exact.mem_spectrum_iff.mpr ⟨i, rfl⟩
  rw [definite.isHermitian.spectrum_real_eq_range_eigenvalues] at root
  obtain ⟨j, same⟩ := root
  rw [← same]
  exact definite.eigenvalues_pos j

end IsSpectrum

/-! ### The bounds of a run -/

namespace Gradient

variable {H : Mat ℝ n n} {values : Vec ℝ n} {kit : Kernels ℝ} {largest smallest : ℝ}

/-- The last of some eigenvalues. -/
theorem getLast?_toList (values : Vec ℝ n) (rows : 0 < n) :
    values.toList.getLast? = some (values ⟨n - 1, Nat.sub_one_lt_of_lt rows⟩) := by
  rw [List.getLast?_eq_getElem?, Vector.length_toList, List.getElem?_eq_getElem (by simp; omega),
    Vector.getElem_toList]
  rfl

theorem head?_toList (values : Vec ℝ n) (rows : 0 < n) :
    values.toList.head? = some (values ⟨0, rows⟩) := by
  rw [List.head?_eq_getElem?, List.getElem?_eq_getElem (by simpa using rows),
    Vector.getElem_toList]
  rfl

/-- The bounds that are computed for a definite Hessian are its last and its first eigenvalue. -/
theorem eigenvalueBounds_eq (exact : IsSpectrum H values) (definite : H.toMatrix.PosDef)
    (computed : kit.eigenvalues H = .ok values) (rows : 0 < n) :
    eigenvalueBounds kit H =
      .ok (values ⟨n - 1, Nat.sub_one_lt_of_lt rows⟩, values ⟨0, rows⟩) := by
  have positive := exact.pos definite ⟨0, rows⟩
  simp only [eigenvalueBounds, computed, bind, Except.bind, getLast?_toList values rows,
    head?_toList values rows, pure, Except.pure, Scalar.orLarger, not_lt.mpr positive.le, if_false]

/-- A matrix without rows has no extreme eigenvalues. -/
theorem pos_of_eigenvalueBounds (computed : eigenvalueBounds kit H = .ok (largest, smallest)) :
    0 < n := by
  by_contra none
  obtain rfl : n = 0 := Nat.eq_zero_of_not_pos none
  obtain ⟨values, -, read⟩ := bind_eq_ok computed
  -- Without rows there is no last value to read.
  have empty : values.toList = [] := List.eq_nil_of_length_eq_zero Vector.length_toList
  rw [empty] at read
  cases read

/-- The bounds that are computed for a definite Hessian bound the curvature of the objective. -/
theorem hasCurvature_eigenvalueBounds (exact : IsSpectrum H values)
    (definite : H.toMatrix.PosDef) (evaluated : kit.eigenvalues H = .ok values)
    (symmetric : H.transpose = H)
    (computed : eigenvalueBounds kit H = .ok (largest, smallest)) :
    0 < smallest ∧ smallest ≤ largest ∧ HasCurvature H smallest largest := by
  have rows := pos_of_eigenvalueBounds computed
  rw [eigenvalueBounds_eq exact definite evaluated rows] at computed
  cases computed
  refine ⟨exact.pos definite _, exact.monotone (Fin.mk_le_mk.mpr (Nat.zero_le _)), ?_⟩
  refine exact.hasCurvature symmetric (fun i => ?_) (fun i => ?_)
  · exact exact.monotone (Fin.mk_le_mk.mpr (Nat.zero_le _))
  · exact exact.monotone (Fin.mk_le_mk.mpr (Nat.le_sub_one_of_lt i.isLt))

end Gradient

end RecedingHorizon
