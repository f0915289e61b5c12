import RecedingHorizon.Proofs.Gradient.Eigenvalues

/-!
# Condition numbers

The extreme singular values of a square matrix are the largest and the smallest factor by which it
stretches a vector. A definite symmetric matrix stretches an eigenvector by its eigenvalue and no
vector by more than the largest or less than the smallest one, so that its condition number is the
ratio of these two (`IsSpectrum.isConditionNumber`).
-/

namespace RecedingHorizon

open Matrix

variable {n : Nat}

/-- The factors by which a matrix stretches vectors. -/
def Mat.stretches (M : Mat ℝ n n) : Set ℝ :=
  {r | ∃ x, x ≠ Vec.zeros n ∧ r = Vec.norm (M.mulVec x) / Vec.norm x}

/-- The ratio of the largest to the smallest singular value. -/
def IsConditionNumber (M : Mat ℝ n n) (κ : ℝ) : Prop :=
  ∃ largest smallest, IsGreatest M.stretches largest ∧ IsLeast M.stretches smallest ∧
    κ = largest / smallest

namespace Gradient.HasCurvature

variable {H : Mat ℝ n n} {μ L : ℝ} (curvature : HasCurvature H μ L)

include curvature

/-- A semidefinite matrix stretches no vector further than its quadratic form allows. -/
theorem dot_mulVec_self_le (positive : 0 < L) (nonneg : 0 ≤ μ) (x : Vec ℝ n) :
    Vec.dot (H.mulVec x) (H.mulVec x) ≤ L * Vec.dot x (H.mulVec x) := by
  -- The form is not negative at `L x - H x`, and its last term there is at most `L` times the square.
  have swapped := dot_mulVec_comm curvature.symmetric x (H.mulVec x)
  have above := curvature.upper (H.mulVec x)
  have below := (mul_nonneg nonneg (Vec.dot_self_nonneg _)).trans
    (curvature.lower (x.map (L * ·) - H.mulVec x))
  simp only [mulVec_sub, Mat.mulVec_scale, Vec.dot_sub_left, Vec.dot_sub_right, Vec.dot_scale_left,
    Vec.dot_scale_right, swapped] at below
  have scaled : L * Vec.dot (H.mulVec x) (H.mulVec x) ≤ L * (L * Vec.dot x (H.mulVec x)) := by
    linarith
  exact le_of_mul_le_mul_left scaled positive

theorem norm_mulVec_le (positive : 0 < L) (nonneg : 0 ≤ μ) (x : Vec ℝ n) :
    Vec.norm (H.mulVec x) ≤ L * Vec.norm x := by
  rw [mul_self_le_mul_self_iff (Vec.norm_nonneg _) (mul_nonneg positive.le (Vec.norm_nonneg x)),
    mul_mul_mul_comm, Vec.norm_mul_self, Vec.norm_mul_self, mul_assoc]
  calc Vec.dot (H.mulVec x) (H.mulVec x)
      ≤ L * Vec.dot x (H.mulVec x) := curvature.dot_mulVec_self_le positive nonneg x
    _ ≤ L * (L * Vec.dot x x) := mul_le_mul_of_nonneg_left (curvature.upper x) positive.le

theorem le_norm_mulVec (nonneg : 0 ≤ μ) (x : Vec ℝ n) :
    μ * Vec.norm x ≤ Vec.norm (H.mulVec x) := by
  rw [mul_self_le_mul_self_iff (mul_nonneg nonneg (Vec.norm_nonneg x)) (Vec.norm_nonneg _),
    mul_mul_mul_comm, Vec.norm_mul_self, Vec.norm_mul_self, mul_assoc]
  -- The square of `H x - μ x` bounds that of `H x` from below.
  have apart := Vec.dot_self_nonneg (H.mulVec x - x.map (μ * ·))
  have below := mul_le_mul_of_nonneg_left (curvature.lower x) nonneg
  simp only [Vec.dot_sub_left, Vec.dot_sub_right, Vec.dot_scale_left, Vec.dot_scale_right,
    Vec.dot_comm (H.mulVec x) x] at apart
  linarith

end Gradient.HasCurvature

namespace IsSpectrum

variable {M : Mat ℝ n n} {values : Vec ℝ n}

theorem exists_eigenvector (exact : IsSpectrum M values) (i : Fin n) :
    ∃ x, x ≠ Vec.zeros n ∧ M.mulVec x = x.map (values i * ·) := by
  have root := exact.mem_spectrum_iff.mpr ⟨i, rfl⟩
  rw [← Matrix.spectrum_toLin', ← Module.End.hasEigenvalue_iff_mem_spectrum] at root
  -- An eigenvector of the linear map is one of the library when it is read as a vector.
  obtain ⟨v, eigenvector⟩ := root.exists_hasEigenvector
  refine ⟨Vec.ofFn v, fun zero => ?_, ?_⟩
  · have entries := congrArg Vector.get zero
    rw [Vec.get_ofFn, Vec.get_zeros] at entries
    exact eigenvector.2 entries
  · apply Vec.get_inj.mp
    rw [Mat.get_mulVec, Vec.get_scale, Vec.get_ofFn]
    exact eigenvector.apply_eq_smul

/-- An eigenvector is stretched by its eigenvalue. -/
theorem mem_stretches (exact : IsSpectrum M values) {i : Fin n} (nonneg : 0 ≤ values i) :
    values i ∈ M.stretches := by
  obtain ⟨x, nonzero, stretched⟩ := exact.exists_eigenvector i
  refine ⟨x, nonzero, ?_⟩
  rw [stretched, Vec.norm_scale nonneg, mul_div_cancel_right₀ _ (Vec.norm_pos nonzero).ne']

/-- The condition number of a definite matrix is the ratio of its extreme eigenvalues. -/
theorem isConditionNumber (exact : IsSpectrum M values) (definite : M.toMatrix.PosDef)
    (symmetric : M.transpose = M) (rows : 0 < n) :
    IsConditionNumber M (values ⟨n - 1, Nat.sub_one_lt_of_lt rows⟩ / values ⟨0, rows⟩) := by
  have positive := exact.pos definite
  have curvature := exact.hasCurvature symmetric
    (fun i => exact.monotone (Fin.mk_le_mk.mpr (Nat.zero_le i.val) : ⟨0, rows⟩ ≤ i))
    (fun i => exact.monotone (Fin.mk_le_mk.mpr (Nat.le_sub_one_of_lt i.isLt) :
      i ≤ ⟨n - 1, Nat.sub_one_lt_of_lt rows⟩))
  refine ⟨_, _, ⟨exact.mem_stretches (positive _).le, ?_⟩,
    ⟨exact.mem_stretches (positive _).le, ?_⟩, rfl⟩
  · rintro _ ⟨x, nonzero, rfl⟩
    exact (div_le_iff₀ (Vec.norm_pos nonzero)).mpr
      (curvature.norm_mulVec_le (positive _) (positive _).le x)
  · rintro _ ⟨x, nonzero, rfl⟩
    exact (le_div_iff₀ (Vec.norm_pos nonzero)).mpr (curvature.le_norm_mulVec (positive _).le x)

end IsSpectrum

theorem IsConditionNumber.unique {M : Mat ℝ n n} {κ κ' : ℝ} (condition : IsConditionNumber M κ)
    (condition' : IsConditionNumber M κ') : κ = κ' := by
  obtain ⟨largest, smallest, greatest, least, rfl⟩ := condition
  obtain ⟨largest', smallest', greatest', least', rfl⟩ := condition'
  rw [greatest.unique greatest', least.unique least']

end RecedingHorizon
