import Mathlib.Algebra.Order.Chebyshev
import RecedingHorizon.Proofs.Gradient.Stationary
import RecedingHorizon.Proofs.Program.Emptiness

/-!
# Multiples of the identity, up to rounding

A quadratic term passes for a multiple of the identity if each of its entries is within `10⁻⁸`, and on
the diagonal within `10⁻⁵` of the factor besides. Its quadratic form is then near to that multiple of
the squared length (`hasCurvature_of_isScaledIdentity`), so that the shortest point of a polytope, which
is what such a program answers, is a minimizer up to a factor. The factor is near to one when the
entries are of ordinary size and says nothing when they are small: the answer is a minimizer for all
polytopes only if the term is a multiple of the identity (`recognised_program_nearly_minimized`).
-/

namespace RecedingHorizon

open Matrix RecedingHorizon.Gradient

variable {m n : Nat}

/-! ### Matrices entry by entry -/

theorem Vec.toList_eq_map {α : Type} (v : Vec α n) : v.toList = (List.finRange n).map v.get := by
  apply List.ext_getElem
  · simp
  · intro i first second
    simp [Vector.get]

theorem Mat.toList_eq_flatMap {α : Type} (M : Mat α m n) :
    M.toList = (List.finRange m).flatMap fun i => (List.finRange n).map (M i) := by
  have rows (i : Fin m) : (M.rows i).toList = (List.finRange n).map (M i) := Vec.toList_eq_map _
  rw [toList, Vec.toList_eq_map M.rows, List.flatMap_map]
  exact List.flatMap_congr fun i _ => rows i

theorem zipWith_flatMap {ι α β γ : Type} (f : α → β → γ) {a : ι → List α} {b : ι → List β}
    (paired : ∀ i, (a i).length = (b i).length) (l : List ι) :
    List.zipWith f (l.flatMap a) (l.flatMap b) = l.flatMap fun i => List.zipWith f (a i) (b i) := by
  induction l with
  | nil => rfl
  | cons i l ih =>
    rw [List.flatMap_cons, List.flatMap_cons, List.flatMap_cons, List.zipWith_append (paired i), ih]

/-- Two matrices are compared entry by entry. -/
theorem Mat.all_zipWith_toList {α β : Type} (test : α → β → Bool) (M : Mat α m n) (N : Mat β m n) :
    (List.zipWith test M.toList N.toList).all id = true ↔ ∀ i j, test (M i j) (N i j) = true := by
  rw [M.toList_eq_flatMap, N.toList_eq_flatMap, zipWith_flatMap test fun i => by simp]
  simp [List.all_flatMap, List.zipWith_map, List.zipWith_self]

namespace InequalityProgram

open LeastDistance

variable {P : Mat ℝ n n}

theorem agrees_iff (x y : ℝ) : agrees x y = true ↔ |x - y| ≤ 1e-8 + 1e-5 * |y| := by
  have distance : Scalar.abs (x - y) = |x - y| := rfl
  have size : Scalar.abs y = |y| := rfl
  simp only [agrees, Scalar.isFinite_real, Bool.true_and, Bool.or_eq_true, decide_eq_true_eq,
    Scalar.beq_real, distance, size]
  constructor
  · rintro (near | rfl)
    · exact near
    · rw [sub_self, abs_zero]
      positivity
  · exact .inl

/-- The factor that a quadratic term is compared with. -/
noncomputable def corner (P : Mat ℝ n n) (columns : 0 < n) : ℝ := P ⟨0, columns⟩ ⟨0, columns⟩

theorem isScaledIdentity_iff (columns : 0 < n) :
    isScaledIdentity P = .ok true ↔ 0 < corner P columns ∧
      ∀ i j, |P i j - corner P columns * (if i = j then 1 else 0)| ≤
        1e-8 + 1e-5 * |corner P columns * (if i = j then 1 else 0)| := by
  have entry (i j : Fin n) : Mat.scale (corner P columns) (Mat.identity n) i j =
      corner P columns * (if i = j then 1 else 0) := by
    rw [Mat.scale, Mat.map_entry, Mat.identity, Mat.ofFn_entry]
  simp only [← entry, ← agrees_iff, ← Mat.all_zipWith_toList]
  rw [isScaledIdentity, dif_pos columns]
  simp [corner]

/-! ### The quadratic form -/

/-- How far the form may be from the multiple of the squared length, relative to that length. -/
noncomputable def slack (factor : ℝ) (n : Nat) : ℝ := n / 10 ^ 8 + factor / 10 ^ 5

/-- Small entries make a small quadratic form. -/
theorem abs_form_le {D : Matrix (Fin n) (Fin n) ℝ} {a d : ℝ} (nonneg : 0 ≤ a)
    (small : ∀ i j, |D i j| ≤ a + if i = j then d else 0) (x : Fin n → ℝ) :
    |x ⬝ᵥ D *ᵥ x| ≤ (n * a + d) * (x ⬝ᵥ x) := by
  have square (i : Fin n) : |x i| * |x i| = x i * x i := abs_mul_abs_self (x i)
  have form : x ⬝ᵥ D *ᵥ x = ∑ i, ∑ j, x i * (D i j * x j) := by
    simp only [dotProduct, mulVec, Finset.mul_sum]
  have row (i : Fin n) : |∑ j, x i * (D i j * x j)| ≤
      a * (|x i| * ∑ j, |x j|) + d * (x i * x i) := by
    calc |∑ j, x i * (D i j * x j)|
        ≤ ∑ j, |x i * (D i j * x j)| := Finset.abs_sum_le_sum_abs _ _
      _ ≤ ∑ j, (a * (|x i| * |x j|) + if i = j then d * (|x i| * |x j|) else 0) := by
          refine Finset.sum_le_sum fun j _ => ?_
          have bound := mul_le_mul_of_nonneg_right (small i j)
            (mul_nonneg (abs_nonneg (x i)) (abs_nonneg (x j)))
          rw [add_mul, ite_mul, zero_mul] at bound
          rw [abs_mul, abs_mul, mul_left_comm]
          exact bound
      _ = a * (|x i| * ∑ j, |x j|) + d * (x i * x i) := by
          rw [Finset.sum_add_distrib, Finset.sum_ite_eq, if_pos (Finset.mem_univ i), square,
            ← Finset.mul_sum, ← Finset.mul_sum]
  -- The sum of the magnitudes is at most `√n` times the length.
  have spread : (∑ i, |x i|) * (∑ i, |x i|) ≤ n * (x ⬝ᵥ x) := by
    have mean := sq_sum_le_card_mul_sum_sq (s := Finset.univ) (f := fun i => |x i|)
    simpa only [sq, square, Finset.card_univ, Fintype.card_fin, dotProduct] using mean
  calc |x ⬝ᵥ D *ᵥ x|
      ≤ ∑ i, |∑ j, x i * (D i j * x j)| := by
        rw [form]
        exact Finset.abs_sum_le_sum_abs _ _
    _ ≤ ∑ i, (a * (|x i| * ∑ j, |x j|) + d * (x i * x i)) := Finset.sum_le_sum fun i _ => row i
    _ = a * ((∑ i, |x i|) * ∑ i, |x i|) + d * (x ⬝ᵥ x) := by
        rw [Finset.sum_add_distrib, ← Finset.mul_sum, ← Finset.mul_sum, ← Finset.sum_mul, dotProduct]
    _ ≤ (n * a + d) * (x ⬝ᵥ x) := by
        linarith [mul_le_mul_of_nonneg_left spread nonneg]

/-- What passes for a multiple of the identity has nearly the curvature of one. -/
theorem hasCurvature_of_isScaledIdentity (columns : 0 < n) (symmetric : P.transpose = P)
    (recognised : isScaledIdentity P = .ok true) :
    HasCurvature P (corner P columns - slack (corner P columns) n)
      (corner P columns + slack (corner P columns) n) := by
  obtain ⟨positive, near⟩ := (isScaledIdentity_iff columns).mp recognised
  -- The entries of the difference are small, and therefore its quadratic form is.
  have small (i j : Fin n) : |(P.toMatrix - corner P columns • (1 : Matrix (Fin n) (Fin n) ℝ)) i j| ≤
      1 / 10 ^ 8 + if i = j then corner P columns / 10 ^ 5 else 0 := by
    have bound := near i j
    rw [Matrix.sub_apply, Matrix.smul_apply, smul_eq_mul, Matrix.one_apply, Mat.toMatrix_apply]
    refine bound.trans ?_
    split
    · rw [mul_one, abs_of_pos positive]
      norm_num
      linarith
    · norm_num
  have form (x : Vec ℝ n) : |Vec.dot x (P.mulVec x) - corner P columns * Vec.dot x x| ≤
      slack (corner P columns) n * Vec.dot x x := by
    have bound := abs_form_le (by positivity) small x.get
    rw [sub_mulVec, smul_mulVec, one_mulVec, dotProduct_sub, dotProduct_smul, smul_eq_mul] at bound
    rw [Vec.dot_eq, Vec.dot_eq, Mat.get_mulVec, slack]
    rwa [mul_one_div] at bound
  refine ⟨symmetric, fun x => ?_, fun x => ?_⟩
  · linarith [(abs_le.mp (form x)).1]
  · linarith [(abs_le.mp (form x)).2]

theorem hasCurvature_scale_identity (c : ℝ) :
    HasCurvature (Mat.scale c (Mat.identity n)) c c := by
  have form (x : Vec ℝ n) :
      Vec.dot x ((Mat.scale c (Mat.identity n)).mulVec x) = c * Vec.dot x x := by
    rw [Vec.dot_eq, Vec.dot_eq, Mat.get_mulVec, Mat.toMatrix_scale, Mat.toMatrix_identity,
      smul_mulVec, one_mulVec, dotProduct_smul, smul_eq_mul]
  refine ⟨?_, fun x => (form x).ge, fun x => (form x).le⟩
  apply Mat.toMatrix_inj.mp
  rw [Mat.toMatrix_transpose, Mat.toMatrix_scale, Mat.toMatrix_identity, transpose_smul,
    transpose_one]

/-- No point of a set has a much smaller form than the shortest one. -/
theorem mul_objective_le (semidefinite : P.toMatrix.PosSemidef) {μ L : ℝ}
    (curvature : HasCurvature P μ L) (nonneg : 0 ≤ L) {X : Set (Vec ℝ n)} {x z : Vec ℝ n}
    (shortest : IsShortest X x) (inside : z ∈ X) :
    μ * objective P (Vec.zeros n) x ≤ L * objective P (Vec.zeros n) z := by
  have plain (y : Vec ℝ n) : objective P (Vec.zeros n) y = Vec.dot y (P.mulVec y) / 2 := by
    rw [objective, Vec.dot_eq (Vec.zeros n), Vec.get_zeros, zero_dotProduct, add_zero]
  have first := dot_mulVec_nonneg semidefinite x
  have second := dot_mulVec_nonneg semidefinite z
  have scaled : μ * Vec.dot x (P.mulVec x) ≤ L * Vec.dot z (P.mulVec z) := by
    rcases le_total μ 0 with low | high
    · -- Without a lower bound there is nothing to show.
      exact (mul_nonpos_of_nonpos_of_nonneg low first).trans (mul_nonneg nonneg second)
    · calc μ * Vec.dot x (P.mulVec x)
          ≤ μ * (L * Vec.dot x x) := mul_le_mul_of_nonneg_left (curvature.upper x) high
        _ ≤ μ * (L * Vec.dot z z) := by
            gcongr
            exact shortest.dot_self_le inside
        _ = L * (μ * Vec.dot z z) := mul_left_comm _ _ _
        _ ≤ L * Vec.dot z (P.mulVec z) := mul_le_mul_of_nonneg_left (curvature.lower z) nonneg
  rw [plain, plain]
  linarith

/-! ### Programs that show the difference -/

/-- The point `x` is what exact methods answer for the quadratic term `P` without a linear term. -/
structure IsAnswer (kit : Kernels ℝ) (P : Mat ℝ n n) (G : Mat ℝ m n) (g : Vec ℝ m) (x : Vec ℝ n) :
    Prop where
  rows : 0 < m
  exact : FindsDual kit.nonnegativeLeastSquares G g
  returned : solve kit ⟨.ofMat P, .ofVec (Vec.zeros n), .ofMat G, .ofVec g⟩ = .ok (.ofVec x)

theorem IsAnswer.isShortest {kit : Kernels ℝ} {G : Mat ℝ m n} {g : Vec ℝ m} {x : Vec ℝ n}
    (recognised : isScaledIdentity P = .ok true) (answer : IsAnswer kit P G g x) :
    IsShortest (Polytope.region ⟨G, g⟩) x := by
  have returned := answer.returned
  rw [solve_of_isScaledIdentity kit G g answer.rows recognised] at returned
  cases found : leastDistance kit.nonnegativeLeastSquares G g with
  | error fault =>
    rw [found] at returned
    cases returned
  | ok y =>
    rw [found] at returned
    cases returned
    exact isShortest_of_leastDistance answer.exact found

theorem isAnswer_halfSpace (recognised : isScaledIdentity P = .ok true) {a : Vec ℝ n}
    (near : 1 + Vec.dot a a < 10 ^ 12) :
    IsAnswer (Kernels.weighing (1 + Vec.dot a a)⁻¹) P (halfSpaceRow a) (halfSpaceBound a a) a := by
  have multipliers := hasMultipliers_halfSpace_self a
  have exact := findsDual_halfSpace_self a
  refine ⟨one_pos, exact, ?_⟩
  rw [solve_of_isScaledIdentity _ _ _ one_pos recognised,
    leastDistance_of_isShortest exact multipliers.isShortest, if_pos near]
  rfl

/-- If the shortest point of a half-space is a minimizer, the gradient there is normal to the plane. -/
theorem dot_mulVec_eq_zero (semidefinite : P.toMatrix.PosSemidef) {a w : Vec ℝ n}
    (minimal : IsMinimizer P (Vec.zeros n)
      (Polytope.region ⟨halfSpaceRow a, halfSpaceBound a a⟩) a)
    (along : Vec.dot a w = 0) : Vec.dot (P.mulVec a) w = 0 := by
  have convex := Polytope.isConvex_region ⟨halfSpaceRow a, halfSpaceBound a a⟩
  -- The plane can be followed in both directions.
  have forth := minimal.slope_nonneg semidefinite convex (z := a + w) <| mem_halfSpace.mpr <| by
    rw [Vec.dot_add_right, along, add_zero]
  have back := minimal.slope_nonneg semidefinite convex (z := a - w) <| mem_halfSpace.mpr <| by
    rw [Vec.dot_sub_right, along, sub_zero]
  have plain (y : Vec ℝ n) : Vec.dot (P.mulVec a + Vec.zeros n) y = Vec.dot (P.mulVec a) y := by
    rw [Vec.dot_add_left, Vec.dot_eq (Vec.zeros n), Vec.get_zeros, zero_dotProduct, add_zero]
  rw [plain, Vec.dot_sub_right, Vec.dot_add_right] at forth
  rw [plain, Vec.dot_sub_right, Vec.dot_sub_right] at back
  linarith

/-- Only for a multiple of the identity is every gradient along its point. -/
theorem eq_scale_identity_of_forall (columns : 0 < n)
    (normal : ∀ a w : Vec ℝ n, Vec.dot a a ≤ 2 → Vec.dot a w = 0 → Vec.dot (P.mulVec a) w = 0) :
    P = Mat.scale (corner P columns) (Mat.identity n) := by
  -- Two unit vectors give the entries off the diagonal.
  have apart (i j : Fin n) (different : i ≠ j) : P.toMatrix j i = 0 := by
    have product := normal (Vec.ofFn (Pi.single i 1)) (Vec.ofFn (Pi.single j 1))
      (by simp [Vec.dot_eq]) (by simp [Vec.dot_eq, different])
    simpa [Vec.dot_eq] using product
  -- Their sum and their difference give two entries on the diagonal.
  have level (i j : Fin n) : P.toMatrix i i = P.toMatrix j j := by
    by_cases same : i = j
    · rw [same]
    · have product := normal (Vec.ofFn (Pi.single i 1 + Pi.single j 1))
        (Vec.ofFn (Pi.single i 1 - Pi.single j 1))
        (by simp [Vec.dot_eq, same, Ne.symm same]; norm_num)
        (by simp [Vec.dot_eq, same, Ne.symm same])
      have difference : P.toMatrix i i - P.toMatrix j j = 0 := by
        simpa [Vec.dot_eq, mulVec_add, apart i j same, apart j i (Ne.symm same)] using product
      exact sub_eq_zero.mp difference
  apply Mat.toMatrix_inj.mp
  ext i j
  rw [Mat.toMatrix_scale, Mat.toMatrix_identity, Matrix.smul_apply, Matrix.one_apply, smul_eq_mul]
  by_cases same : i = j
  · rw [if_pos same, mul_one, same, level j ⟨0, columns⟩]
    rfl
  · rw [if_neg same, mul_zero, apart j i (Ne.symm same)]

/-- What is answered for a quadratic term that passes for a multiple of the identity: the shortest point,
whose objective is the smallest one up to the ratio of the two bounds on the curvature. It is a minimizer
for every polytope exactly if the term is a multiple of the identity. -/
theorem recognised_program_nearly_minimized (columns : 0 < n) (definite : P.toMatrix.PosDef)
    (recognised : isScaledIdentity P = .ok true) :
    (∀ kit m (G : Mat ℝ m n) g x, IsAnswer kit P G g x →
      IsShortest (Polytope.region ⟨G, g⟩) x ∧
      ∀ z ∈ Polytope.region ⟨G, g⟩,
        (corner P columns - slack (corner P columns) n) * objective P (Vec.zeros n) x ≤
          (corner P columns + slack (corner P columns) n) * objective P (Vec.zeros n) z) ∧
    ((∀ kit m (G : Mat ℝ m n) g x, IsAnswer kit P G g x →
        IsMinimizer P (Vec.zeros n) (Polytope.region ⟨G, g⟩) x) ↔
      P = Mat.scale (corner P columns) (Mat.identity n)) := by
  have semidefinite := definite.posSemidef
  have positive := ((isScaledIdentity_iff columns).mp recognised).1
  have curvature := hasCurvature_of_isScaledIdentity columns
    (transpose_eq_of_posSemidef semidefinite) recognised
  have above : 0 ≤ corner P columns + slack (corner P columns) n := by
    rw [slack]
    positivity
  refine ⟨fun kit m G g x answer => ?_, ?_⟩
  · have shortest := answer.isShortest recognised
    exact ⟨shortest, fun z inside => mul_objective_le semidefinite curvature above shortest inside⟩
  constructor
  · intro minimal
    -- A short vector is the answer for the half-space beyond it.
    refine eq_scale_identity_of_forall columns fun a w short along => ?_
    have near : 1 + Vec.dot a a < 10 ^ 12 := by linarith
    exact dot_mulVec_eq_zero semidefinite (minimal _ 1 _ _ _ (isAnswer_halfSpace recognised near)) along
  · intro multiple kit m G g x answer
    have shortest := answer.isShortest recognised
    -- Both bounds on the curvature are the factor itself.
    have even := hasCurvature_scale_identity (n := n) (corner P columns)
    rw [← multiple] at even
    refine ⟨shortest.mem, fun z inside => ?_⟩
    exact le_of_mul_le_mul_left (mul_objective_le semidefinite even positive.le shortest inside) positive

/-! ### Small entries -/

/-- A quadratic term with entries so small that it passes for a multiple of the identity. -/
noncomputable def tinyWeight : Mat ℝ 2 2 :=
  Mat.ofFn fun i j => if i = j then if i.val = 0 then 1 / 10 ^ 9 else 9 / 10 ^ 9 else 0

theorem toMatrix_tinyWeight : tinyWeight.toMatrix = diagonal ![1 / 10 ^ 9, 9 / 10 ^ 9] := by
  rw [tinyWeight, Mat.toMatrix_ofFn]
  ext i j
  fin_cases i <;> fin_cases j <;> rfl

theorem posDef_tinyWeight : tinyWeight.toMatrix.PosDef := by
  rw [toMatrix_tinyWeight, posDef_diagonal_iff]
  intro i
  fin_cases i <;> norm_num

theorem isScaledIdentity_tinyWeight : isScaledIdentity tinyWeight = .ok true := by
  rw [isScaledIdentity_iff two_pos]
  have first : corner tinyWeight two_pos = 1 / 10 ^ 9 :=
    congrFun (congrFun toMatrix_tinyWeight 0) 0
  refine ⟨by rw [first]; positivity, fun i j => ?_⟩
  rw [first, ← Mat.toMatrix_apply, toMatrix_tinyWeight]
  fin_cases i <;> fin_cases j <;> norm_num [abs_le]

theorem objective_tinyWeight (a b : ℝ) :
    objective tinyWeight (Vec.zeros 2) #v[a, b] = (a * a + 9 * (b * b)) / (2 * 10 ^ 9) := by
  rw [objective, Vec.dot_eq, Vec.dot_eq, Vec.get_zeros, zero_dotProduct, Mat.get_mulVec,
    toMatrix_tinyWeight, get_pair, dotProduct, Fin.sum_univ_two, mulVec_diagonal, mulVec_diagonal]
  norm_num
  ring

/-- The point `(1, 1)` is answered for `2 ≤ x₀ + x₁`, but `(9/5, 1/5)` has a smaller objective. -/
theorem recognised_program_nearly_minimized_tinyWeight :
    IsAnswer (Kernels.weighing (1 / 3)) tinyWeight (halfSpaceRow #v[1, 1])
        (halfSpaceBound #v[1, 1] #v[1, 1]) #v[1, 1] ∧
      IsShortest (Polytope.region ⟨halfSpaceRow #v[1, 1], halfSpaceBound #v[1, 1] #v[1, 1]⟩)
        (#v[1, 1] : Vec ℝ 2) ∧
      #v[9 / 5, 1 / 5] ∈
        Polytope.region ⟨halfSpaceRow (#v[1, 1] : Vec ℝ 2), halfSpaceBound #v[1, 1] #v[1, 1]⟩ ∧
      objective tinyWeight (Vec.zeros 2) #v[9 / 5, 1 / 5] <
        objective tinyWeight (Vec.zeros 2) #v[1, 1] := by
  have answer : IsAnswer (Kernels.weighing (1 / 3)) tinyWeight (halfSpaceRow #v[1, 1])
      (halfSpaceBound #v[1, 1] #v[1, 1]) #v[1, 1] := by
    have computed := isAnswer_halfSpace isScaledIdentity_tinyWeight (a := #v[1, 1]) <| by
      rw [dot_ones]
      norm_num
    have third : (1 + 2 : ℝ)⁻¹ = 1 / 3 := by norm_num
    rwa [dot_ones, third] at computed
  refine ⟨answer, ?_, ?_, ?_⟩
  · exact ((recognised_program_nearly_minimized two_pos posDef_tinyWeight
      isScaledIdentity_tinyWeight).1 _ _ _ _ _ answer).1
  · rw [mem_halfSpace, dot_ones, Vec.dot_eq, get_pair, get_pair]
    norm_num [dotProduct, Fin.sum_univ_two]
  · rw [objective_tinyWeight, objective_tinyWeight]
    norm_num

end InequalityProgram

end RecedingHorizon
