import RecedingHorizon.Proofs.Condensing.Symbol
import RecedingHorizon.Proofs.Gradient.Eigenvalues

/-!
# Samples of the symbol

The bound on the condition number looks at the eigenvalues of the symbol at finitely many points of the
circle, and what it returns is the ratio of the largest to the smallest of their magnitudes
(`sampledRatio_eq_ok`). Every arc of the circle has a sample, once there are enough of them
(`eventually_exists_samplePoint`).
-/

namespace RecedingHorizon

open Matrix Metric Polynomial Real Topology ComplexOrder

variable {n m p : Nat}

/-! ### Eigenvalues of Hermitian matrices -/

/-- The eigenvalues of a complex matrix with their multiplicities, all of them real, in increasing
order. -/
structure IsHermitianSpectrum (M : Matrix (Fin n) (Fin n) ℂ) (values : Vec ℝ n) : Prop where
  monotone : Monotone values.get
  charpoly : M.charpoly = ∏ i, (X - C ((values i : ℝ) : ℂ))

/-- The eigenvalues of Hermitian matrices are found exactly. -/
def Kernels.EvaluatesHermitian (kit : Kernels ℝ) : Prop :=
  ∀ {n : Nat} (M : Mat (Complex ℝ) n n), M.toComplexMatrix.IsHermitian →
    ∃ values, kit.hermitianEigenvalues M = .ok values ∧ IsHermitianSpectrum M.toComplexMatrix values

theorem IsHermitianSpectrum.mem_spectrum_iff {M : Matrix (Fin n) (Fin n) ℂ} {values : Vec ℝ n}
    (exact : IsHermitianSpectrum M values) {r : ℝ} : r ∈ spectrum ℝ M ↔ ∃ i, values i = r := by
  rw [← spectrum.algebraMap_mem_iff ℂ, Matrix.mem_spectrum_iff_isRoot_charpoly, exact.charpoly,
    isRoot_prod]
  simp only [Finset.mem_univ, true_and, root_X_sub_C]
  exact exists_congr fun i => Complex.ofReal_inj

section Forms

variable {M : Matrix (Fin n) (Fin n) ℂ} (hermitian : M.IsHermitian)

include hermitian

theorem lt_form_of_spectrum {r : ℝ} (above : ∀ s ∈ spectrum ℝ M, r < s) {v : Fin n → ℂ}
    (nonzero : v ≠ 0) : r * (star v ⬝ᵥ v).re < (star v ⬝ᵥ M *ᵥ v).re := by
  have definite := posDef_sub_of_forall_lt hermitian above
  have positive := (Complex.lt_def.mp (definite.dotProduct_mulVec_pos nonzero)).1
  rw [sub_mulVec, dotProduct_sub, Algebra.algebraMap_eq_smul_one, smul_mulVec, one_mulVec,
    dotProduct_smul, Complex.sub_re, Complex.smul_re, smul_eq_mul] at positive
  exact sub_pos.mp positive

/-- Where the form is at most a multiple of the square of the length, so is some eigenvalue. -/
theorem exists_mem_spectrum_le {r : ℝ} {v : Fin n → ℂ} (nonzero : v ≠ 0)
    (below : (star v ⬝ᵥ M *ᵥ v).re ≤ r * (star v ⬝ᵥ v).re) : ∃ s ∈ spectrum ℝ M, s ≤ r := by
  by_contra none
  push Not at none
  exact (lt_form_of_spectrum hermitian none nonzero).not_ge below

/-- Where the form is at least a multiple of the square of the length, so is some eigenvalue. -/
theorem exists_le_mem_spectrum {r : ℝ} {v : Fin n → ℂ} (nonzero : v ≠ 0)
    (above : r * (star v ⬝ᵥ v).re ≤ (star v ⬝ᵥ M *ᵥ v).re) : ∃ s ∈ spectrum ℝ M, r ≤ s := by
  -- A bound from below is a bound from above for the opposite matrix.
  have below : (star v ⬝ᵥ (-M) *ᵥ v).re ≤ -r * (star v ⬝ᵥ v).re := by
    rw [neg_mulVec, dotProduct_neg, Complex.neg_re]
    linarith
  obtain ⟨s, root, small⟩ := exists_mem_spectrum_le hermitian.neg nonzero below
  rw [← spectrum.neg_eq] at root
  exact ⟨-s, root, by linarith⟩

theorem nonneg_of_mem_spectrum (semidefinite : M.PosSemidef) {s : ℝ} (root : s ∈ spectrum ℝ M) :
    0 ≤ s := by
  rw [hermitian.spectrum_real_eq_range_eigenvalues] at root
  obtain ⟨i, rfl⟩ := root
  exact semidefinite.eigenvalues_nonneg i

end Forms

namespace ConstrainedLqr

/-! ### Points on the circle -/

/-- The angle between a sample and the next one. -/
noncomputable def sampleStep (samples : Nat) : ℝ := 2 * π / samples

theorem value_samplePoint (samples k : Nat) :
    (samplePoint samples k : Complex ℝ).value = circleMap 0 1 (-π / 2 + k * sampleStep samples) := by
  have angle : (-Scalar.pi / 2.0 + 2.0 * Scalar.pi * Scalar.ofNat k / Scalar.ofNat samples : ℝ) =
      -π / 2 + k * sampleStep samples := by
    change -π / 2.0 + 2.0 * π * ((k : ℤ) : ℝ) / ((samples : ℤ) : ℝ) = _
    rw [Scalar.two_eq, Int.cast_natCast, Int.cast_natCast, sampleStep]
    ring
  rw [samplePoint, Complex.value_onCircle, angle, circleMap_zero, Complex.ofReal_one, one_mul]

theorem samplePoint_mem_sphere (samples k : Nat) :
    (samplePoint samples k : Complex ℝ).value ∈ sphere (0 : ℂ) 1 := by
  rw [value_samplePoint]
  exact circleMap_mem_sphere 0 zero_le_one _

/-- Within one turn after the start of the samples, the next sample is less than a step away. -/
theorem exists_sample_near {samples : Nat} (some : 0 < samples) {angle : ℝ}
    (after : -π / 2 < angle) (before : angle ≤ -π / 2 + 2 * π) :
    ∃ k < samples, |-π / 2 + (k + 1 : Nat) * sampleStep samples - angle| < sampleStep samples := by
  have count : (0 : ℝ) < samples := Nat.cast_pos.mpr some
  have step : 0 < sampleStep samples := div_pos two_pi_pos count
  have turn : samples * sampleStep samples = 2 * π := mul_div_cancel₀ _ count.ne'
  -- The sample is the first one that does not lie before the angle.
  let k := ⌈(angle + π / 2) / sampleStep samples⌉₊
  have positive : 0 < k := Nat.ceil_pos.mpr (div_pos (by linarith) step)
  have last : k ≤ samples := Nat.ceil_le.mpr <| by
    rw [div_le_iff₀ step, turn]
    linarith
  have reached := (div_le_iff₀ step).mp (Nat.le_ceil ((angle + π / 2) / sampleStep samples))
  have first : (k : ℝ) < (angle + π / 2) / sampleStep samples + 1 :=
    Nat.ceil_lt_add_one (div_pos (by linarith) step).le
  have passed : k * sampleStep samples < angle + π / 2 + sampleStep samples := by
    have scaled := mul_lt_mul_of_pos_right first step
    rwa [add_mul, one_mul, div_mul_cancel₀ _ step.ne'] at scaled
  refine ⟨k - 1, by omega, ?_⟩
  rw [Nat.sub_add_cancel positive, abs_lt]
  constructor <;> linarith

/-- Every arc of the circle has a sample, once there are enough of them. -/
theorem eventually_exists_samplePoint {z₀ : ℂ} (onCircle : z₀ ∈ sphere (0 : ℂ) 1) {P : ℂ → Prop}
    (near : ∀ᶠ z in 𝓝[sphere 0 1] z₀, P z) :
    ∀ᶠ samples in Filter.atTop, ∃ k < samples, P (samplePoint samples (k + 1) : Complex ℝ).value := by
  obtain ⟨angle, ⟨after, before⟩, rfl⟩ : z₀ ∈ circleMap 0 1 '' Set.Ioc (-π / 2) (-π / 2 + 2 * π) := by
    rw [(periodic_circleMap 0 1).image_Ioc two_pi_pos, range_circleMap, abs_one]
    exact onCircle
  -- A condition on the points of an arc is one on the angles of an interval.
  have angles : ∀ᶠ θ in 𝓝 angle, P (circleMap 0 1 θ) := by
    refine Filter.Tendsto.eventually ?_ near
    exact tendsto_nhdsWithin_of_tendsto_nhds_of_eventually_within _
      (continuous_circleMap 0 1).continuousAt
      (.of_forall fun θ => circleMap_mem_sphere 0 zero_le_one θ)
  obtain ⟨width, positive, inside⟩ := Metric.eventually_nhds_iff.mp angles
  have fine : ∀ᶠ samples : Nat in Filter.atTop, sampleStep samples < width :=
    (tendsto_const_div_atTop_nhds_zero_nat (2 * π)).eventually_lt_const positive
  filter_upwards [fine, Filter.eventually_gt_atTop 0] with samples narrow some
  obtain ⟨k, listed, close⟩ := exists_sample_near some after before
  refine ⟨k, listed, ?_⟩
  rw [value_samplePoint]
  exact inside (close.trans narrow)

/-! ### Extreme magnitudes -/

theorem extremeRatio_eq_ok {sizes : List ℝ} (some : sizes ≠ []) :
    ∃ largest smallest, extremeRatio sizes = .ok (largest / smallest) ∧
      IsGreatest {s | s ∈ sizes} largest ∧ IsLeast {s | s ∈ sizes} smallest := by
  obtain ⟨s, rest, rfl⟩ := List.exists_cons_of_ne_nil some
  have larger : (Scalar.maximum : ℝ → ℝ → ℝ) = max := by
    funext x y
    simp [Scalar.maximum, max_def_lt]
  have smaller : (Scalar.minimum : ℝ → ℝ → ℝ) = min := by
    funext x y
    simp [Scalar.minimum, min_comm x y, min_def_lt]
  refine ⟨rest.foldl max s, rest.foldl min s, ?_, ?_, ?_⟩
  · rw [extremeRatio, larger, smaller]
  · exact List.max?_eq_some_iff.mp List.max?_cons'
  · exact List.min?_eq_some_iff.mp List.min?_cons'

variable (problem : ConstrainedLqr ℝ n m p) in
/-- The eigenvalues of the symbol at the samples. -/
def sampledValues (samples : Nat) : Set ℝ :=
  {s | ∃ k < samples, s ∈ spectrum ℝ (problem.symbolAt (samplePoint samples (k + 1)).value)}

variable {problem : ConstrainedLqr ℝ n m p} {kit : Kernels ℝ}

theorem sampleSizes_eq_ok (solves : kit.SolvesComplex) (evaluates : kit.EvaluatesHermitian)
    (stable : problem.IsStable) {z : Complex ℝ} (onCircle : z.value ∈ sphere (0 : ℂ) 1)
    (hermitian : (problem.symbolAt z.value).IsHermitian) :
    ∃ values : Vec ℝ m, problem.sampleSizes kit (Mat.identity m) z =
        .ok (values.toList.map (|·|)) ∧ IsHermitianSpectrum (problem.symbolAt z.value) values := by
  obtain ⟨M, computed, same⟩ := symbol_eq_ok solves stable onCircle
  -- The preconditioner leaves the symbol as it is.
  have plain : Mat.toComplexMatrix (toComplex (Mat.identity m : Mat ℝ m m) * M *
      toComplex (Mat.identity m : Mat ℝ m m).transpose) = problem.symbolAt z.value := by
    simp [same, Mat.transpose_identity]
  obtain ⟨values, evaluated, exact⟩ := evaluates _ (plain ▸ hermitian)
  rw [plain] at exact
  refine ⟨values, ?_, exact⟩
  simp only [sampleSizes, computed, bind, Except.bind, evaluated]
  rfl

/-- The ratio over the samples is that of the largest to the smallest magnitude of an eigenvalue. -/
theorem sampledRatio_eq_ok (solves : kit.SolvesComplex) (evaluates : kit.EvaluatesHermitian)
    (stable : problem.IsStable)
    (hermitian : ∀ z ∈ sphere (0 : ℂ) 1, (problem.symbolAt z).IsHermitian) {samples : Nat}
    (some : 0 < samples) (width : 0 < m) :
    ∃ largest smallest,
      problem.sampledRatio kit (Mat.identity m) samples = .ok (largest / smallest) ∧
      IsGreatest ((|·|) '' problem.sampledValues samples) largest ∧
      IsLeast ((|·|) '' problem.sampledValues samples) smallest := by
  have each (k : Nat) := sampleSizes_eq_ok solves evaluates stable
    (samplePoint_mem_sphere samples (k + 1)) (hermitian _ (samplePoint_mem_sphere samples (k + 1)))
  choose values computed exact using each
  -- The magnitudes at all samples in one list, as they are computed.
  let sizes := ((List.range samples).map fun k => (values k).toList.map (|·|)).flatten
  have members : {s | s ∈ sizes} = (|·|) '' problem.sampledValues samples := by
    ext s
    simp only [sizes, Set.mem_ofPred_eq, List.mem_flatten, List.mem_map, List.mem_range, Set.mem_image,
      sampledValues, (exact _).mem_spectrum_iff]
    constructor
    · rintro ⟨_, ⟨k, listed, rfl⟩, member⟩
      obtain ⟨_, value, rfl⟩ := List.mem_map.mp member
      obtain ⟨i, bound, rfl⟩ := List.mem_iff_getElem.mp value
      exact ⟨_, ⟨k, listed, ⟨i, by simpa using bound⟩, rfl⟩, rfl⟩
    · rintro ⟨_, ⟨k, listed, i, rfl⟩, rfl⟩
      exact ⟨_, ⟨k, listed, rfl⟩, List.mem_map_of_mem (List.mem_iff_getElem.mpr ⟨i, by simp, rfl⟩)⟩
  have nonempty : sizes ≠ [] := by
    have first : |values 0 ⟨0, width⟩| ∈ {s | s ∈ sizes} := by
      rw [members]
      exact ⟨_, ⟨0, some, (exact 0).mem_spectrum_iff.mpr ⟨_, rfl⟩⟩, rfl⟩
    exact List.ne_nil_of_mem first
  obtain ⟨largest, smallest, ratio, greatest, least⟩ := extremeRatio_eq_ok nonempty
  rw [members] at greatest least
  refine ⟨largest, smallest, ?_, greatest, least⟩
  have listed : ((List.range samples).mapM fun k =>
      problem.sampleSizes kit (Mat.identity m) (samplePoint samples (k + 1))) =
        .ok ((List.range samples).map fun k => (values k).toList.map (|·|)) := by
    simp only [computed]
    exact List.mapM_pure
  rw [sampledRatio, listed]
  exact ratio

end ConstrainedLqr

end RecedingHorizon
