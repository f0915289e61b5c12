import Mathlib.Algebra.Order.Star.Real
import RecedingHorizon.Proofs.Gradient.ColdStart
import RecedingHorizon.Proofs.Gradient.IterationCount
import RecedingHorizon.Proofs.Gradient.SingularValues
import RecedingHorizon.Proofs.Program.Emptiness

/-!
# What the bound on the iterations certifies

The bound depends on the Hessian and on the shortest vector of the set, but not on the linear term of
the objective. What a cold start really begins with is another gap, the product of `L` with an inner
product of two points of the set, the first iterate and the minimizer, or twice the gap that the bound
is computed from if there is no linear term. Once the shrinking by `1 - 1/√κ` has taken that gap to the
accuracy, every further iteration is accurate, the first one at the earliest
(`upperIterationBound_and_gap`). With a linear term the bound itself promises nothing: it is zero for a
set around the origin, wherever the minimum is (`upperIterationBound_eq_zero_interval`).
-/

namespace RecedingHorizon

open Matrix

variable {m n : Nat}

namespace Gradient

variable {kit : Kernels ℝ} {H : Mat ℝ n n} {G : Mat ℝ m n} {g : Vec ℝ m} {values : Vec ℝ n}
variable {μ L κ eps : ℝ}

theorem largestEigenvalue_ofMat (evaluated : kit.eigenvalues H = .ok values) (rows : 0 < n) :
    largestEigenvalue kit (some (.ofMat H)) .nothing =
      .ok (values ⟨n - 1, Nat.sub_one_lt_of_lt rows⟩) := by
  have square : squareOf (.ofMat H) = .ok ⟨n, H⟩ := by
    simp [squareOf, Tensor.ofMat]
  simp only [largestEigenvalue, Argument.isGiven, Bool.false_eq_true, if_false, square, bind,
    Except.bind, evaluated, getLast?_toList values rows]
  rfl

theorem initialGap_eq (solver : ProgramSolver ℝ) (L : ℝ) {answer : Except Fault (Vec ℝ n)}
    (solved : (InequalityProgram.nearestToOrigin (.ofMat G) (.ofVec g) >>= solver) =
      answer.map .ofVec) :
    initialGap solver (.ofMat G) (.ofVec g) L = answer.map fun x => L / 2 * Vec.dot x x := by
  have gathered : initialGap solver (.ofMat G) (.ofVec g) L =
      (InequalityProgram.nearestToOrigin (.ofMat G) (.ofVec g) >>= solver) >>= fun x => do
        return L / 2.0 * (← x.inner x) := by
    rw [bind_assoc]
    rfl
  rw [gathered, solved, Scalar.two_eq]
  -- A fault of the program is the fault of the gap.
  cases answer with
  | error fault => rfl
  | ok x =>
    simp only [Except.map, bind, Except.bind, Tensor.inner_ofVec]
    rfl

section Exact

variable (symmetric : H.transpose = H) (definite : H.toMatrix.PosDef)
variable (evaluated : kit.eigenvalues H = .ok values) (exact : IsSpectrum H values)
variable (computed : eigenvalueBounds kit H = .ok (L, μ))
variable (conditioned : kit.conditionNumber H = .ok κ) (ratio : IsConditionNumber H κ)

include symmetric definite evaluated exact computed ratio

theorem condition_eq : κ = L / μ := by
  have rows := pos_of_eigenvalueBounds computed
  rw [eigenvalueBounds_eq exact definite evaluated rows] at computed
  cases computed
  -- A condition number is determined by the matrix.
  exact ratio.unique (exact.isConditionNumber definite symmetric rows)

variable (accuracy : 0 < eps)
variable (fitted : ∃ w, kit.leastSquares (Mat.identity n) (Vec.zeros n) = .ok w ∧
  IsLeastSquares (Mat.identity n) (Vec.zeros n) w)
variable (dual : ∃ u,
  kit.nonnegativeLeastSquares (LeastDistance.dual G g) (LeastDistance.direction n) = .ok u ∧
  IsNonnegativeLeastSquares (LeastDistance.dual G g) (LeastDistance.direction n) u)
variable (nonempty : (Polytope.region ⟨G, g⟩).Nonempty)

include conditioned accuracy fitted dual nonempty

/-- The bound, for a polytope whose shortest vector is not too long: the count for the gap that this
vector gives. -/
theorem upperIterationBound_eq {x : Vec ℝ n}
    (shortest : IsNearest (Polytope.region ⟨G, g⟩) (Vec.zeros n) x)
    (near : 1 + Vec.dot x x < 10 ^ 12) :
    upperIterationBound kit (InequalityProgram.solve kit) (.real eps) (.ofMat G) (.ofVec g)
      (some (.ofMat H)) .nothing .nothing = .ok (iterationCount eps 1 κ (L / 2 * Vec.dot x x)) := by
  have rows := pos_of_eigenvalueBounds computed
  obtain ⟨positive, ordered, -⟩ :=
    hasCurvature_eigenvalueBounds exact definite evaluated symmetric computed
  have condition := condition_eq symmetric definite evaluated exact computed ratio
  have largest : largestEigenvalue kit (some ⟨[n, n], H.rows⟩) .nothing =
      .ok (values ⟨n - 1, Nat.sub_one_lt_of_lt rows⟩) := largestEigenvalue_ofMat evaluated rows
  have bounds := computed
  rw [eigenvalueBounds_eq exact definite evaluated rows, Except.ok.injEq, Prod.mk.injEq] at bounds
  -- The largest eigenvalue of the gap is the upper bound on all of them, so that both are `L`.
  rw [bounds.1] at largest
  obtain ⟨y, nearest, solved⟩ :=
    InequalityProgram.solve_nearestToOrigin rows fitted dual nonempty
  obtain rfl := nearest.eq_of_isConvex (Polytope.isConvex_region ⟨G, g⟩) shortest
  -- What is left of the bound once the bounds on the eigenvalues are known.
  have reduced : upperIterationBound kit (InequalityProgram.solve kit) (.real eps) (.ofMat G)
      (.ofVec g) (some (.ofMat H)) .nothing .nothing =
        initialGap (InequalityProgram.solve kit) (.ofMat G) (.ofVec g) L >>= iterationBound eps κ := by
    simp only [upperIterationBound, Argument.isGiven, Bool.false_eq_true, if_false, coldStartGap,
      largest, Tensor.ofMat, conditioned, bind, Except.bind, Argument.toNumber]
    rfl
  rw [if_pos near] at solved
  have gap : 0 ≤ L / 2 * Vec.dot x x :=
    mul_nonneg (half_pos (positive.trans_le ordered)).le (Vec.dot_self_nonneg x)
  have least : 1 ≤ κ := condition ▸ (one_le_div positive).mpr ordered
  have bound := iterationBound_eq one_pos least accuracy gap
  rw [div_one] at bound
  rw [reduced, initialGap_eq _ L (show _ = (Except.ok x).map Tensor.ofVec from solved)]
  exact bound

/-- The bound, and what a cold start is worth. The bound is the least count for the gap that the shortest
vector of the set gives, whatever the linear term is, and it is zero as soon as the origin belongs to the
set. For every linear term, iteration `k` from the origin is in the set, and its objective is within
`(1 - 1/√κ)ᵏ` times `L ⟨first, z⟩` of the one at a point `z` of the set, where `first` is the first iterate;
without a linear term it is within `(1 - 1/√κ)ᵏ` times twice the gap of the bound. -/
theorem upperIterationBound_and_gap {project : Tensor ℝ → Except Fault (Tensor ℝ)}
    (projects : Projects (forVectors project) (Polytope.region ⟨G, g⟩)) :
    ∃ x, IsNearest (Polytope.region ⟨G, g⟩) (Vec.zeros n) x ∧
      (1 + Vec.dot x x < 10 ^ 12 →
        ∃ N, upperIterationBound kit (InequalityProgram.solve kit) (.real eps) (.ofMat G) (.ofVec g)
            (some (.ofMat H)) .nothing .nothing = .ok N ∧
          (Vec.zeros n ∈ Polytope.region ⟨G, g⟩ → N = 0) ∧
          (1 < κ ∨ L / 2 * Vec.dot x x ≤ eps →
            IsLeast (sufficientCounts eps κ (L / 2 * Vec.dot x x)) N)) ∧
      ∃ momentum,
        (StepRule.defaultConstant.strategy kit).forBounds (.real L) (.real μ) = .ok momentum ∧
        ∀ b : Vec ℝ n, ∃ first,
          IsNearest (Polytope.region ⟨G, g⟩) (trialPoint H b L (Vec.zeros n)) first ∧
          ∀ k, 1 ≤ k → ∃ t y,
            (Method.onArrays H b project momentum L).nth (.ofVec (Vec.zeros n)) (k - 1) = .ok t ∧
            t.count = k ∧ t.xNext = .ofVec y ∧ y ∈ Polytope.region ⟨G, g⟩ ∧
            ∀ z ∈ Polytope.region ⟨G, g⟩, ∀ gap,
              gap = L * Vec.dot first z ∨ b = Vec.zeros n ∧ gap = 2 * (L / 2 * Vec.dot x x) →
              objective H b y - objective H b z ≤ gap * (1 - 1 / √κ) ^ k ∧
              ∀ N ≤ k, gap * (1 - 1 / √κ) ^ N ≤ eps → objective H b y - objective H b z ≤ eps := by
  obtain ⟨positive, ordered, curvature⟩ :=
    hasCurvature_eigenvalueBounds exact definite evaluated symmetric computed
  have above := positive.trans_le ordered
  have condition := condition_eq symmetric definite evaluated exact computed ratio
  have least : 1 ≤ κ := condition ▸ (one_le_div positive).mpr ordered
  have convex := Polytope.isConvex_region ⟨G, g⟩
  obtain ⟨x, shortest, -⟩ := InequalityProgram.solve_nearestToOrigin
    (pos_of_eigenvalueBounds computed) fitted dual nonempty
  refine ⟨x, shortest, fun near => ?_, _, forBounds_defaultConstant kit L μ, fun b => ?_⟩
  · have nonneg : 0 ≤ L / 2 * Vec.dot x x := mul_nonneg (half_pos above).le (Vec.dot_self_nonneg x)
    refine ⟨_, upperIterationBound_eq symmetric definite evaluated exact computed conditioned ratio
      accuracy fitted dual nonempty shortest near, fun inside => ?_,
      isLeast_iterationCount_of_suited least accuracy nonneg⟩
    -- The origin is its own nearest point, and leaves no gap.
    rw [(isNearest_self inside).eq_of_isConvex convex shortest, Vec.dot_eq, Vec.get_zeros,
      dotProduct_zero, mul_zero]
    exact if_pos rfl
  · -- The first iterate is the projection of a gradient step from the origin.
    obtain ⟨first, -, nearest⟩ := projects (trialPoint H b L (Vec.zeros n))
    refine ⟨first, nearest, fun k counted => ?_⟩
    obtain ⟨t, reached, count, member, bounded⟩ := exists_nth_of_cold_start (b := b) curvature
      positive ordered convex projects shortest nearest kit (k - 1)
    have shrinking : 1 - √(μ / L) = 1 - 1 / √κ := by
      rw [condition, one_div, ← Real.sqrt_inv, inv_div]
    have factor : 0 ≤ 1 - 1 / √κ := shrinking ▸ sub_nonneg.mpr (sqrt_ratio_le_one above ordered)
    have atMost : 1 - 1 / √κ ≤ 1 := sub_le_self 1 (by positivity)
    rw [Nat.sub_add_cancel counted, shrinking] at bounded
    rw [Nat.sub_add_cancel counted] at count
    refine ⟨t.toArrays, t.xNext, Method.nth_onArrays reached, count, rfl, member,
      fun z inside gap gapped => ⟨bounded z inside gap gapped, fun N later enough => ?_⟩⟩
    exact (bounded z inside gap gapped).trans
      (mul_pow_le_of_le factor atMost accuracy.le later enough)

end Exact

/-! ### A half-plane away from the origin -/

/-- Methods that read eigenvalues off the diagonal and give fixed answers otherwise: a condition number,
and a weight for every column of a least-squares problem without signs. -/
noncomputable def diagonalKernels (condition weight : ℝ) : Kernels ℝ :=
  { Kernels.weighing weight with
    eigenvalues := fun M => .ok (Vec.ofFn fun i => M i i)
    conditionNumber := fun _ => .ok condition
    leastSquares := fun _ _ => .ok (Vec.zeros _) }

/-- A Hessian with the eigenvalues one and four. -/
noncomputable def stretchedHessian : Mat ℝ 2 2 :=
  Mat.ofFn fun i j => if i = j then (if i.val = 0 then 1 else 4) else 0

theorem toMatrix_stretchedHessian :
    stretchedHessian.toMatrix = diagonal fun i => if i = 0 then 1 else 4 := by
  ext i j
  simp [stretchedHessian, diagonal_apply]

theorem transpose_stretchedHessian : stretchedHessian.transpose = stretchedHessian := by
  apply Mat.toMatrix_inj.mp
  rw [Mat.toMatrix_transpose, toMatrix_stretchedHessian, diagonal_transpose]

theorem isSpectrum_stretchedHessian :
    IsSpectrum stretchedHessian (Vec.ofFn fun i => stretchedHessian i i) := by
  constructor
  · intro i j ordered
    fin_cases i <;> fin_cases j <;> simp [stretchedHessian] at ordered ⊢
  · rw [toMatrix_stretchedHessian, charpoly_diagonal]
    simp [stretchedHessian]

theorem posDef_stretchedHessian : stretchedHessian.toMatrix.PosDef := by
  rw [toMatrix_stretchedHessian, posDef_diagonal_iff]
  intro i
  split <;> norm_num

theorem stretchedHessian_first : stretchedHessian ⟨0, Nat.two_pos⟩ ⟨0, Nat.two_pos⟩ = 1 := by
  simp [stretchedHessian]

theorem stretchedHessian_last : stretchedHessian ⟨2 - 1, Nat.sub_one_lt_of_lt Nat.two_pos⟩
    ⟨2 - 1, Nat.sub_one_lt_of_lt Nat.two_pos⟩ = 4 := by
  simp [stretchedHessian]

theorem eigenvalueBounds_stretchedHessian :
    eigenvalueBounds (diagonalKernels 4 (1 / 2)) stretchedHessian = .ok (4, 1) := by
  have computed : (diagonalKernels 4 (1 / 2)).eigenvalues stretchedHessian =
      .ok (Vec.ofFn fun i => stretchedHessian i i) := rfl
  have bounds := eigenvalueBounds_eq isSpectrum_stretchedHessian posDef_stretchedHessian computed
    Nat.two_pos
  rwa [Vec.ofFn_get, Vec.ofFn_get, stretchedHessian_first, stretchedHessian_last] at bounds

theorem isConditionNumber_stretchedHessian : IsConditionNumber stretchedHessian 4 := by
  have ratio := isSpectrum_stretchedHessian.isConditionNumber posDef_stretchedHessian
    transpose_stretchedHessian Nat.two_pos
  rwa [Vec.ofFn_get, Vec.ofFn_get, stretchedHessian_first, stretchedHessian_last, div_one] at ratio

/-- The half-space that a vector supports, and of which it is the shortest vector. -/
noncomputable abbrev halfSpaceBeyond (x : Vec ℝ n) : Polytope ℝ 1 n :=
  ⟨halfSpaceRow x, halfSpaceBound x x⟩

theorem dot_two (x y : Vec ℝ 2) : Vec.dot x y = x 0 * y 0 + x 1 * y 1 := by
  rw [Vec.dot_eq, dotProduct, Fin.sum_univ_two]

theorem mem_halfPlane {x : Vec ℝ 2} : x ∈ (halfSpaceBeyond #v[1, 0]).region ↔ 1 ≤ x 0 := by
  rw [mem_halfSpace, dot_two, dot_two]
  change (1 : ℝ) * 1 + 0 * 0 ≤ 1 * x 0 + 0 * x 1 ↔ _
  rw [one_mul, one_mul, zero_mul, zero_mul, add_zero, add_zero]

theorem region_halfPlane :
    (halfSpaceBeyond #v[1, 0]).region = Box.region #v[.finite 1, .bottom] #v[.top, .top] := by
  ext x
  rw [mem_halfPlane]
  constructor
  · rintro above ⟨_ | _ | i, bound⟩
    · exact ⟨decide_eq_true above, rfl⟩
    · exact ⟨rfl, rfl⟩
    · omega
  · intro inside
    exact of_decide_eq_true (inside 0).1

theorem projects_halfPlane : Projects (forVectors
    (Box.project ⟨.ofVec #v[.finite 1, .bottom], .ofVec #v[.top, .top], 2⟩))
    (halfSpaceBeyond #v[1, 0]).region := by
  have corner : #v[1, 0] ∈ (halfSpaceBeyond #v[1, 0]).region := mem_halfPlane.mpr le_rfl
  rw [region_halfPlane] at corner ⊢
  exact Box.projects_region ⟨_, corner⟩

theorem isNearest_halfPlane {t p : Vec ℝ 2} (first : p 0 = 1) (second : p 1 = t 1)
    (outside : t 0 ≤ 1) : IsNearest (halfSpaceBeyond #v[1, 0]).region t p := by
  refine ⟨mem_halfPlane.mpr first.ge, fun z inside => ?_⟩
  rw [mem_halfPlane] at inside
  rw [Vec.norm_le_norm_iff, dot_two, dot_two, Vec.get_sub, Vec.get_sub]
  simp only [Pi.sub_apply, first, second, sub_self, mul_zero, add_zero]
  nlinarith [mul_self_nonneg (t 1 - z 1)]

theorem sqrt_four : √(4 : ℝ) = 2 := by
  rw [Real.sqrt_eq_iff_mul_self_eq (by norm_num) (by norm_num)]
  norm_num

theorem isLeast_sufficientCounts_two : IsLeast (sufficientCounts 1 4 2) 1 := by
  constructor
  · left
    rw [sqrt_four]
    norm_num
  · intro k member
    by_contra below
    obtain rfl : k = 0 := by omega
    exact absurd (zero_mem_sufficientCounts.mp member) (by norm_num)

/-- One iteration is the bound, and three are enough for a minimizer away from the shortest point. -/
theorem upperIterationBound_and_gap_halfPlane :
    let kit := diagonalKernels 4 (1 / 2)
    let set := halfSpaceBeyond #v[1, 0]
    upperIterationBound kit (InequalityProgram.solve kit) (.real 1) (.ofMat set.coefficients)
        (.ofVec set.bounds) (some (.ofMat stretchedHessian)) .nothing .nothing = .ok 1 ∧
      ∃ momentum t x,
        (StepRule.defaultConstant.strategy kit).forBounds (.real (4 : ℝ)) (.real 1) = .ok momentum ∧
        (Method.onArrays stretchedHessian #v[0, -4]
          (Box.project ⟨.ofVec #v[.finite 1, .bottom], .ofVec #v[.top, .top], 2⟩) momentum 4).nth
            (.ofVec (Vec.zeros 2)) 2 = .ok t ∧
        t.count = 3 ∧ t.xNext = .ofVec x ∧ x ∈ set.region ∧
        objective stretchedHessian #v[0, -4] x - objective stretchedHessian #v[0, -4] #v[1, 1] ≤
          1 := by
  intro kit set
  have corner : #v[1, 0] ∈ set.region := mem_halfPlane.mpr le_rfl
  have target : #v[1, 1] ∈ set.region := mem_halfPlane.mpr le_rfl
  have convex := Polytope.isConvex_region set
  have length : Vec.dot (#v[1, 0] : Vec ℝ 2) #v[1, 0] = 1 := by
    rw [dot_two]
    change (1 : ℝ) * 1 + 0 * 0 = 1
    norm_num
  have dual := LeastDistance.findsDual_halfSpace_self #v[1, 0]
  have weight : (1 + 1 : ℝ)⁻¹ = 1 / 2 := by norm_num
  rw [length, weight] at dual
  obtain ⟨x, shortest, bound, momentum, made, runs⟩ :=
    upperIterationBound_and_gap transpose_stretchedHessian posDef_stretchedHessian
      (show kit.eigenvalues stretchedHessian = .ok _ from rfl) isSpectrum_stretchedHessian
      eigenvalueBounds_stretchedHessian rfl isConditionNumber_stretchedHessian one_pos
      ⟨_, rfl, isLeastSquares_zeros _⟩ dual ⟨_, corner⟩ projects_halfPlane
  constructor
  · -- The shortest point of the half-plane has length one, so the gap is two.
    obtain rfl : x = #v[1, 0] := by
      refine IsNearest.eq_of_isConvex convex (isNearest_halfPlane rfl ?_ ?_) shortest
      · rw [Vec.get_zeros]
        rfl
      · rw [Vec.get_zeros]
        exact zero_le_one
    have gap : (4 : ℝ) / 2 * 1 = 2 := by norm_num
    rw [length, gap] at bound
    obtain ⟨N, answered, -, least⟩ := bound (by norm_num)
    exact answered.trans (congrArg Except.ok
      ((least (.inl (by norm_num))).unique isLeast_sufficientCounts_two))
  · -- The first iterate is the point compared with, so the gap is four times its squared length.
    obtain ⟨first, projected, iterations⟩ := runs #v[0, -4]
    obtain rfl : first = #v[1, 1] := by
      refine IsNearest.eq_of_isConvex convex (isNearest_halfPlane rfl ?_ ?_) projected
      · rw [trialPoint_origin]
        exact show (1 : ℝ) = -(-4) / 4 by norm_num
      · rw [trialPoint_origin]
        exact show -(0 : ℝ) / 4 ≤ 1 by norm_num
    have gap : (4 : ℝ) * Vec.dot (#v[1, 1] : Vec ℝ 2) #v[1, 1] = 8 := by
      rw [dot_two]
      change (4 : ℝ) * (1 * 1 + 1 * 1) = 8
      norm_num
    obtain ⟨t, x, reached, counted, same, member, certified⟩ := iterations 3 (by norm_num)
    refine ⟨momentum, t, x, made, reached, counted, same, member, ?_⟩
    refine (certified _ target 8 (.inl gap.symm)).2 3 le_rfl ?_
    rw [sqrt_four]
    norm_num

/-! ### An interval around the origin -/

/-- The numbers between minus ten and ten. -/
noncomputable abbrev interval : Polytope ℝ 2 1 :=
  ⟨Mat.ofFn fun i _ => if i.val = 0 then 1 else -1, #v[10, 10]⟩

theorem mem_interval {x : Vec ℝ 1} : x ∈ interval.region ↔ -10 ≤ x 0 ∧ x 0 ≤ 10 := by
  have row (i : Fin 2) : interval.coefficients.mulVec x i = (if i.val = 0 then 1 else -1) * x 0 := by
    rw [Mat.get_mulVec, mulVec, dotProduct, Fin.sum_univ_one, Mat.toMatrix_ofFn]
    rfl
  constructor
  · intro inside
    have upper := inside 0
    have lower := inside 1
    rw [row] at upper lower
    change 1 * x 0 ≤ 10 at upper
    change -1 * x 0 ≤ 10 at lower
    constructor <;> linarith
  · rintro ⟨lower, upper⟩ i
    rw [row]
    fin_cases i
    · change 1 * x 0 ≤ 10
      linarith
    · change -1 * x 0 ≤ 10
      linarith

/-- For the objective `½ x² + x` between minus ten and ten and the accuracy one tenth, exact methods give
the bound zero, although the start is one half above the minimum. -/
theorem upperIterationBound_eq_zero_interval :
    let kit := diagonalKernels 1 0
    let H : Mat ℝ 1 1 := Mat.identity 1
    (H.transpose = H ∧ H.toMatrix.PosDef ∧ eigenvalueBounds kit H = .ok (1, 1) ∧
      IsConditionNumber H 1 ∧ kit.conditionNumber H = .ok 1 ∧
      LeastDistance.FindsDual kit.nonnegativeLeastSquares interval.coefficients interval.bounds) ∧
    upperIterationBound kit (InequalityProgram.solve kit) (.real 0.1) (.ofMat interval.coefficients)
        (.ofVec interval.bounds) (some (.ofMat H)) .nothing .nothing = .ok 0 ∧
      Vec.zeros 1 ∈ interval.region ∧ #v[-1] ∈ interval.region ∧
      0.1 < objective H #v[1] (Vec.zeros 1) - objective H #v[1] #v[-1] := by
  intro kit H
  have identity : H.toMatrix = 1 := Mat.toMatrix_identity
  have definite : H.toMatrix.PosDef := identity ▸ PosDef.one
  have symmetric : H.transpose = H := Mat.transpose_identity
  have exact := isSpectrum_identity identity
  have evaluated : kit.eigenvalues H = .ok (Vec.ofFn fun _ => 1) := by
    have diagonal (i : Fin 1) : H i i = 1 := by
      rw [← Mat.toMatrix_apply, identity, one_apply_eq]
    simp only [kit, diagonalKernels, diagonal]
  have computed := eigenvalueBounds_eq exact definite evaluated one_pos
  rw [Vec.ofFn_get] at computed
  have ratio := exact.isConditionNumber definite symmetric one_pos
  rw [Vec.ofFn_get, div_one] at ratio
  have origin : Vec.zeros 1 ∈ interval.region := mem_interval.mpr (by simp)
  have dual := LeastDistance.findsDual_of_mem origin
  refine ⟨⟨symmetric, definite, computed, ratio, rfl, dual⟩, ?_, origin, ?_, ?_⟩
  · -- The origin is the shortest vector, and leaves no gap.
    have square : Vec.dot (Vec.zeros 1) (Vec.zeros 1) = (0 : ℝ) := by
      rw [Vec.dot_eq, Vec.get_zeros, dotProduct_zero]
    rw [upperIterationBound_eq symmetric definite evaluated exact computed rfl ratio (by norm_num)
      ⟨_, rfl, isLeastSquares_zeros _⟩ dual ⟨_, origin⟩ (isNearest_self origin)
      (by rw [square]; norm_num), square, mul_zero, iterationCount, if_pos rfl]
  · refine mem_interval.mpr ?_
    change (-10 : ℝ) ≤ -1 ∧ (-1 : ℝ) ≤ 10
    norm_num
  · have value (x : Vec ℝ 1) : objective H #v[1] x = x 0 * x 0 / 2 + x 0 := by
      rw [objective, Mat.identity_mulVec, Vec.dot_eq, Vec.dot_eq, dotProduct, dotProduct,
        Fin.sum_univ_one, Fin.sum_univ_one]
      change x 0 * x 0 / 2 + 1 * x 0 = _
      rw [one_mul]
    rw [value, value, Vec.get_zeros]
    change (0.1 : ℝ) < 0 * 0 / 2 + 0 - (-1 * -1 / 2 + -1)
    norm_num

end Gradient

end RecedingHorizon
