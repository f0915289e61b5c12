import Mathlib.Algebra.Order.Star.Real
import Mathlib.Data.Sign.Basic
import Mathlib.LinearAlgebra.Matrix.PosDef
import RecedingHorizon.Proofs.Constraint.Box
import RecedingHorizon.Proofs.Gradient.Condition

/-!
# Tests on arrays

Each of the two tests certifies a point by itself, however it was found, with any tolerance and whether or
not that is shared among the variables. The gradient test needs a projected gradient step, over any convex
set, and certifies its end among all points of the set (`objective_sub_le_of_gradient_test`); for an
objective that may not be strictly convex it only holds if the step does not move. The conjugate test
needs the gradient alone. Its estimate is the largest decrease of the tangent over the vectors with entries
between minus one and one, so that it certifies a point of this box among all points of the box
(`conjugate_test_certifies_unit_box`).
-/

namespace RecedingHorizon

open Matrix

variable {n : Nat}

theorem Tensor.norm_ofVec (x : Vec ℝ n) : (Tensor.ofVec x).norm = Vec.norm x := by
  have squares : x.toList.foldl (fun total t => total + t * t) 0 = Vec.dot x x := by
    calc x.toList.foldl (fun total t => total + t * t) 0
        = (x.toList.map fun t => t * t).sum := by rw [List.sum_eq_foldl, List.foldl_map]
      _ = ∑ i, x.get i * x.get i := by
        rw [x.toList_eq_ofFn, List.map_ofFn, List.sum_ofFn]
        rfl
      _ = Vec.dot x x := (Vec.dot_eq x x).symm
  rw [norm, toList_ofVec, squares]
  rfl

namespace Gradient

variable {σ : Type} {H : Mat ℝ n n} {b : Vec ℝ n} {μ L : ℝ} {X : Set (Vec ℝ n)}

/-! ### Tolerances -/

/-- What a tolerance allows: all of it, or the share of one variable. -/
theorem Tolerance.eq_of_threshold {t : Tolerance ℝ} {bound : ℝ} (shared : t.threshold = .ok bound) :
    bound = if t.isScaled then t.eps / t.size else t.eps := by
  obtain ⟨eps, isScaled, size⟩ := t
  cases isScaled with
  | false => exact (Except.ok.inj shared).symm
  | true =>
    change Scalar.quotient eps (size : ℝ) = .ok bound at shared
    unfold Scalar.quotient at shared
    split at shared
    · cases shared
    · exact (Except.ok.inj shared).symm

/-! ### The gradient test -/

theorem norm_scale_sub_self (c : ℝ) (x : Vec ℝ n) : Vec.norm ((x - x).map (c * ·)) = 0 := by
  have zero : Vec.dot ((x - x).map (c * ·)) ((x - x).map (c * ·)) = 0 := by
    rw [Vec.dot_scale_left, Vec.dot_eq, Vec.get_sub, sub_self, zero_dotProduct, mul_zero]
  exact (congrArg Real.sqrt zero).trans Real.sqrt_zero

/-- The estimate for a step that does not move. No bound on the eigenvalues matters. -/
theorem GradientTest.value_of_still {V : Type} [Space ℝ V] {test : GradientTest ℝ}
    {s : Iteration V σ} {change : V} (moved : Space.sub s.y s.xNext = .ok change)
    (still : Space.norm (Space.scale test.largest change) = 0) : test.value s = .ok (.finite 0) := by
  simp only [value, moved, still, bind, Except.bind]
  rw [if_pos ((Scalar.beq_real _ _).mpr (mul_zero 0))]
  rfl

section

variable {s : Iteration (Tensor ℝ) σ} {y p : Vec ℝ n} {test : GradientTest ℝ}

/-- The estimate of the gradient test on arrays. -/
theorem GradientTest.value_arrays (above : 0 < test.largest) (source : s.y = .ofVec y)
    (target : s.xNext = .ofVec p) :
    test.value s =
      if y = p then .ok (.finite 0)
      else test.coefficient.map fun factor =>
        magnitude factor (test.largest * test.largest * Vec.dot (y - p) (y - p)) := by
  have change : Space.sub s.y s.xNext = .ok (.ofVec (y - p)) := by
    rw [source, target]
    exact Tensor.sub_ofVec y p
  have length : Space.norm (Space.scale test.largest (Tensor.ofVec (y - p))) =
      Vec.norm ((y - p).map (test.largest * ·)) := Tensor.norm_ofVec _
  by_cases still : y = p
  · subst still
    rw [if_pos rfl]
    exact value_of_still change (length.trans (norm_scale_sub_self _ y))
  · have square : Space.norm (Space.scale test.largest (Tensor.ofVec (y - p))) *
        Space.norm (Space.scale test.largest (Tensor.ofVec (y - p))) =
          test.largest * test.largest * Vec.dot (y - p) (y - p) := by
      rw [length, Vec.norm_mul_self, Vec.dot_scale_left, Vec.dot_scale_right, mul_assoc]
    have moved : test.largest * test.largest * Vec.dot (y - p) (y - p) ≠ 0 := by
      refine mul_ne_zero (mul_ne_zero above.ne' above.ne') fun zero => still ?_
      have same := congrArg Vector.get (Vec.dot_self_eq_zero.mp zero)
      rw [Vec.get_sub, Vec.get_zeros, sub_eq_zero] at same
      exact Vec.get_inj.mp same
    simp only [value, change, bind, Except.bind, square]
    rw [if_neg still, if_neg fun zero => moved ((Scalar.beq_real _ _).mp zero)]
    rfl

/-- The gradient test has no estimate without a positive lower bound on the eigenvalues. -/
theorem GradientTest.coefficient_of_nonpos (flat : test.smallest ≤ 0) : test.coefficient = .ok .top := by
  rw [coefficient, if_pos flat]
  rfl

/-- The gradient test compares its estimate with what the tolerance allows. -/
theorem GradientTest.holds_eq_true_iff : test.holds s = .ok true ↔
    ∃ bound, test.tolerance.threshold = .ok bound ∧
      ∃ estimate, test.value s = .ok estimate ∧ Extended.lt estimate (.finite bound) = true := by
  constructor
  · intro held
    obtain ⟨estimate, found, held⟩ := bind_eq_ok held
    obtain ⟨bound, shared, same⟩ := bind_eq_ok held
    exact ⟨bound, shared, estimate, found, Except.ok.inj same⟩
  · rintro ⟨bound, shared, estimate, found, below⟩
    simp only [holds, found, shared, bind, Except.bind]
    exact congrArg Except.ok below

/-- The estimate of the gradient test is below a bound for a step that does not move, if the bound is
positive, and for a step that is short in relation to a positive bound on the eigenvalues. -/
theorem GradientTest.value_lt_iff (above : 0 < test.largest) (source : s.y = .ofVec y)
    (target : s.xNext = .ofVec p) (bound : ℝ) :
    (∃ estimate, test.value s = .ok estimate ∧ Extended.lt estimate (.finite bound) = true) ↔
      y = p ∧ 0 < bound ∨ 0 < test.smallest ∧
        |1 / 2 * (1 / test.smallest - 1 / test.largest) *
          (test.largest * test.largest * Vec.dot (y - p) (y - p))| < bound := by
  rw [value_arrays above source target]
  by_cases still : y = p
  · rw [if_pos still]
    constructor
    · rintro ⟨estimate, found, below⟩
      cases found
      exact .inl ⟨still, of_decide_eq_true below⟩
    · intro small
      have positive : 0 < bound := by
        rcases small with ⟨-, positive⟩ | ⟨-, small⟩
        · exact positive
        · exact (abs_nonneg _).trans_lt small
      exact ⟨_, rfl, decide_eq_true positive⟩
  · rw [if_neg still]
    by_cases positive : 0 < test.smallest
    · rw [coefficient_eq test.tolerance positive above]
      constructor
      · rintro ⟨estimate, found, below⟩
        cases found
        exact .inr ⟨positive, of_decide_eq_true below⟩
      · intro small
        obtain ⟨-, small⟩ := small.resolve_left fun stays => still stays.1
        exact ⟨_, rfl, decide_eq_true small⟩
    · -- The estimate is infinite, which is below no bound.
      rw [coefficient_of_nonpos (not_lt.mp positive)]
      constructor
      · rintro ⟨estimate, found, below⟩
        cases found
        cases below
      · rintro (⟨same, -⟩ | ⟨strict, -⟩)
        · exact absurd same still
        · exact absurd strict positive

/-- The gradient test holds for a step that does not move, if the tolerance is positive, and for a step
with a small estimate. -/
theorem GradientTest.holds_iff (above : 0 < test.largest) (source : s.y = .ofVec y)
    (target : s.xNext = .ofVec p) :
    test.holds s = .ok true ↔ ∃ bound, test.tolerance.threshold = .ok bound ∧
      (y = p ∧ 0 < bound ∨ 0 < test.smallest ∧
        |1 / 2 * (1 / test.smallest - 1 / test.largest) *
          (test.largest * test.largest * Vec.dot (y - p) (y - p))| < bound) := by
  simp only [holds_eq_true_iff, value_lt_iff above source target]

/-- The gradient test certifies the end of a projected gradient step from any point, over any convex set:
when it holds, no point of the set has an objective that is lower by more than the tolerance, or by more
than its share of it. The objective need not be strictly convex. -/
theorem objective_sub_le_of_gradient_test (curvature : HasCurvature H μ L) (nonneg : 0 ≤ μ)
    (ordered : μ ≤ L) (above : 0 < L) (convex : IsConvex X)
    {project : Tensor ℝ → Except Fault (Tensor ℝ)}
    (projects : Projects (forVectors project : Vec ℝ n → Except Fault (Vec ℝ n)) X)
    (source : s.y = .ofVec y) (projected : project (.ofVec (trialPoint H b L y)) = .ok s.xNext)
    (eps : ℝ) (isScaled : Bool) (size : Int)
    (held : ((Condition.gradient (.ofTolerance { eps, isScaled })).forProgram size L μ).holds s =
      .ok true) :
    ∃ p : Vec ℝ n, s.xNext = .ofVec p ∧ ∀ z ∈ X,
      objective H b p - objective H b z ≤ if isScaled then eps / size else eps := by
  obtain ⟨p, answered, nearest⟩ := projects (trialPoint H b L y)
  have target : s.xNext = .ofVec p :=
    Except.ok.inj (projected.symm.trans (forVectors_eq_ok.mp answered))
  refine ⟨p, target, fun z inside => ?_⟩
  obtain ⟨bound, shared, small⟩ := (GradientTest.holds_iff above source target).mp held
  refine le_of_le_of_eq ?_ (Tolerance.eq_of_threshold shared)
  rcases small with ⟨rfl, positive⟩ | ⟨strict, small⟩
  · -- The step does not move, so that the objective at its end is the smallest one of all.
    have step := curvature.objective_step_le above convex nearest inside
    have still : (y - y).get = 0 := by rw [Vec.get_sub, sub_self]
    have square := mul_nonneg nonneg (Vec.dot_self_nonneg (z - y))
    simp only [Vec.dot_eq, still, zero_dotProduct, mul_zero, add_zero] at step square
    linarith
  · have certified := objective_sub_le_estimate curvature strict ordered convex nearest inside
    exact certified.trans ((le_abs_self _).trans small.le)

/-- A step towards the minimum of `½ x₀² + ½ x₁²` from a point outside the set, a box at whose edge it
ends. -/
theorem objective_sub_le_of_gradient_test_outsideBox :
    let lower : Vec (Extended ℝ) 2 := #v[.finite (-1), .finite (-1)]
    let upper : Vec (Extended ℝ) 2 := #v[.finite 1, .finite 1]
    let s : Iteration (Tensor ℝ) Unit :=
      { count := 1, x := .ofVec #v[4, 1], xNext := .ofVec #v[1, 1 / 2], y := .ofVec #v[4, 1]
        yNext := .ofVec #v[1, 1 / 2], gradientAtY := .ofVec #v[4, 1]
        gradientAtXNext := .ofVec #v[1, 1 / 2], trial := .ofVec #v[2, 1 / 2], stepState := () }
    #v[4, 1] ∉ Box.region lower upper ∧
      Box.project ⟨.ofVec lower, .ofVec upper, 2⟩
        (.ofVec (trialPoint (Mat.identity 2) (Vec.zeros 2) 2 #v[4, 1])) = .ok s.xNext ∧
      ((Condition.gradient (.ofTolerance { eps := (20 : ℝ) })).forProgram 2 2 1).holds s = .ok true ∧
      ∃ p : Vec ℝ 2, s.xNext = .ofVec p ∧ ∀ z ∈ Box.region lower upper,
        objective (Mat.identity 2) (Vec.zeros 2) p - objective (Mat.identity 2) (Vec.zeros 2) z ≤
          (if true then 20 / (2 : Int) else 20 : ℝ) := by
  intro lower upper s
  have outside : #v[4, 1] ∉ Box.region lower upper := by
    intro inside
    have below : (4 : ℝ) ≤ 1 := of_decide_eq_true (inside 0).2
    norm_num at below
  have inner : Vec.zeros 2 ∈ Box.region lower upper := by
    intro i
    fin_cases i <;>
      exact ⟨decide_eq_true (show (-1 : ℝ) ≤ 0 by norm_num), decide_eq_true zero_le_one⟩
  have trial : trialPoint (Mat.identity 2) (Vec.zeros 2) 2 #v[4, 1] = #v[2, 1 / 2] := by
    refine Vec.ext fun i => (trialPoint_identity 2 _ i).trans ?_
    fin_cases i
    · exact show (4 : ℝ) - 4 / 2 = 2 by norm_num
    · exact show (1 : ℝ) - 1 / 2 = 1 / 2 by norm_num
  -- The first entry of the trial point is cut off, the second one is within its bounds.
  have projected : Box.project ⟨.ofVec lower, .ofVec upper, 2⟩
      (.ofVec (trialPoint (Mat.identity 2) (Vec.zeros 2) 2 #v[4, 1])) = .ok s.xNext := by
    rw [trial, Box.project_ofVec]
    refine congrArg (fun x => Except.ok (Tensor.ofVec x)) (Vec.ext fun i => ?_)
    rw [Vec.ofFn_get]
    fin_cases i
    · exact (congrArg Extended.toScalar (Extended.clamp_finite (-1) 1 2)).trans
        (show min (max (2 : ℝ) (-1)) 1 = 1 by norm_num)
    · exact (congrArg Extended.toScalar (Extended.clamp_finite (-1) 1 (1 / 2))).trans
        (show min (max (1 / 2 : ℝ) (-1)) 1 = 1 / 2 by norm_num)
  have held : ((Condition.gradient (.ofTolerance { eps := (20 : ℝ) })).forProgram 2 2 1).holds s =
      .ok true := by
    refine (GradientTest.holds_iff two_pos rfl rfl).mpr
      ⟨20 / (2 : Int), threshold_eq two_pos, .inr ⟨one_pos, ?_⟩⟩
    have length : Vec.dot (#v[4, 1] - #v[1, 1 / 2] : Vec ℝ 2) (#v[4, 1] - #v[1, 1 / 2]) =
        (4 - 1) * (4 - 1) + (1 - 1 / 2) * (1 - 1 / 2) := by
      rw [Vec.dot_eq, dotProduct, Fin.sum_univ_two, Vec.get_sub]
      rfl
    change |1 / 2 * (1 / 1 - 1 / 2) * (2 * 2 *
      Vec.dot (#v[4, 1] - #v[1, 1 / 2] : Vec ℝ 2) (#v[4, 1] - #v[1, 1 / 2]))| < _
    rw [length]
    norm_num
  exact ⟨outside, projected, held, objective_sub_le_of_gradient_test
    (hasCurvature_identity one_le_two) zero_le_one one_le_two two_pos Box.isConvex_region
    (Box.projects_region ⟨_, inner⟩) rfl projected 20 true 2 held⟩

end

/-! ### The conjugate test -/

section

variable (semidefinite : H.toMatrix.PosSemidef)

include semidefinite

theorem transpose_eq_of_posSemidef : H.transpose = H := by
  apply Mat.toMatrix_inj.mp
  rw [Mat.toMatrix_transpose]
  simpa using semidefinite.isHermitian.eq

theorem dot_mulVec_nonneg (v : Vec ℝ n) : 0 ≤ Vec.dot v (H.mulVec v) := by
  rw [Vec.dot_eq, Mat.get_mulVec]
  simpa using semidefinite.dotProduct_mulVec_nonneg v.get

/-- A semidefinite objective lies above its tangents. -/
theorem tangent_le_objective (w y : Vec ℝ n) :
    objective H b y + Vec.dot (H.mulVec y + b) (w - y) ≤ objective H b w := by
  have around := objective_eq_around (b := b) (transpose_eq_of_posSemidef semidefinite) w y
  have curved := dot_mulVec_nonneg semidefinite (w - y)
  linarith

end

/-- The vectors with entries between minus one and one. -/
def unitBox (n : Nat) : Set (Vec ℝ n) := {z | ∀ i, z i ∈ Set.Icc (-1) 1}

/-- The sum of magnitudes is the largest product with a vector of the box. -/
theorem exists_neg_dot_eq_normOne (g : Vec ℝ n) :
    ∃ z ∈ unitBox n, -Vec.dot g z = Vec.normOne g := by
  refine ⟨Vec.ofFn fun i => -(SignType.sign (g i) : ℝ), fun i => ?_, ?_⟩
  · rw [Vec.ofFn_get]
    rcases SignType.trichotomy (SignType.sign (g i)) with sign | sign | sign <;> simp [sign]
  · rw [Vec.dot_eq, Vec.get_ofFn, dotProduct, ← Finset.sum_neg_distrib, Vec.normOne, Vec.sumOver_eq_sum]
    refine Finset.sum_congr rfl fun i _ => ?_
    rw [mul_neg, neg_neg]
    exact self_mul_sign (g i)

section

variable {s : Iteration (Tensor ℝ) σ} {x g : Vec ℝ n}

/-- The largest decrease of the tangent over the box. -/
theorem isGreatest_dot_sub (x g : Vec ℝ n) :
    IsGreatest ((fun z => Vec.dot g (x - z)) '' unitBox n) (Vec.dot x g + Vec.normOne g) := by
  constructor
  · obtain ⟨z, inside, same⟩ := exists_neg_dot_eq_normOne g
    refine ⟨z, inside, ?_⟩
    dsimp only
    rw [Vec.dot_sub_right, Vec.dot_comm g x, ← same, sub_eq_add_neg]
  · rintro _ ⟨z, inside, rfl⟩
    have far := neg_dot_le_normOne g fun i => abs_le.mpr (inside i)
    dsimp only
    rw [Vec.dot_sub_right, Vec.dot_comm g x]
    linarith

/-- The conjugate estimate on arrays is the largest decrease of the tangent from a point of the box to the
points of the box. It is not negative by itself. -/
theorem conjugateResidual_arrays (point : s.xNext = .ofVec x) (slope : s.gradientAtXNext = .ofVec g)
    (inside : x ∈ unitBox n) :
    conjugateResidual s = .ok (Vec.dot x g + Vec.normOne g) ∧ 0 ≤ Vec.dot x g + Vec.normOne g := by
  have nonneg : 0 ≤ Vec.dot x g + Vec.normOne g := by
    have far := neg_dot_le_normOne g fun i => abs_le.mpr (inside i)
    rw [Vec.dot_comm] at far
    linarith
  refine ⟨?_, nonneg⟩
  have length : Space.normOne (.ofVec g : Tensor ℝ) = .ok (Vec.normOne g) := rfl
  have product : Space.inner (.ofVec x : Tensor ℝ) (.ofVec g) = .ok (Vec.dot x g) := Tensor.inner_ofVec x g
  simp only [conjugateResidual, point, slope, length, product, bind, Except.bind, pure, Except.pure]
  exact congrArg Except.ok (abs_of_nonneg nonneg)

/-- For a convex objective and a point of the box, the conjugate estimate is the largest decrease of the
tangent over the box; when the test holds, no point of the box has an objective that is lower by the
tolerance, or by its share of it. -/
theorem conjugate_test_certifies_unit_box (semidefinite : H.toMatrix.PosSemidef)
    (point : s.xNext = .ofVec x) (slope : s.gradientAtXNext = .ofVec (H.mulVec x + b))
    (inside : x ∈ unitBox n) :
    (∃ residual, conjugateResidual s = .ok residual ∧
      IsGreatest ((fun z => Vec.dot (H.mulVec x + b) (x - z)) '' unitBox n) residual ∧
      residual = Vec.dot x (H.mulVec x + b) + Vec.normOne (H.mulVec x + b) ∧ 0 ≤ residual) ∧
    ∀ (eps : ℝ) (isScaled : Bool) (size : Int) (L μ : ℝ),
      ((Condition.conjugate { eps, isScaled }).forProgram size L μ).holds s = .ok true →
      ∀ z ∈ unitBox n,
        objective H b x - objective H b z < if isScaled then eps / size else eps := by
  obtain ⟨computed, nonneg⟩ := conjugateResidual_arrays point slope inside
  refine ⟨⟨_, computed, isGreatest_dot_sub x _, rfl, nonneg⟩,
    fun eps isScaled size L μ held z member => ?_⟩
  obtain ⟨residual, same, compared⟩ := bind_eq_ok held
  obtain ⟨bound, shared, below⟩ := bind_eq_ok compared
  obtain rfl := Except.ok.inj (computed.symm.trans same)
  have small := of_decide_eq_true (Except.ok.inj below)
  refine lt_of_lt_of_eq ?_ (Tolerance.eq_of_threshold shared)
  -- The objective decreases no more than its tangent, and that no more than the estimate.
  have tangent := tangent_le_objective (b := b) semidefinite z x
  have greatest := (isGreatest_dot_sub x (H.mulVec x + b)).2 ⟨z, member, rfl⟩
  simp only [Vec.dot_sub_right] at tangent greatest
  linarith

/-- A singular Hessian: the objective only depends on the first entry. -/
noncomputable def flatHessian : Mat ℝ 2 2 := ⟨#v[#v[1, 0], #v[0, 0]]⟩

theorem toMatrix_flatHessian : flatHessian.toMatrix = diagonal fun i => if i = 0 then 1 else 0 := by
  ext i j
  fin_cases i <;> fin_cases j <;> rfl

theorem posSemidef_flatHessian : flatHessian.toMatrix.PosSemidef := by
  rw [toMatrix_flatHessian]
  refine PosSemidef.diagonal fun i => ?_
  dsimp only
  split <;> norm_num

theorem mulVec_flatHessian (x : Vec ℝ 2) : flatHessian.mulVec x = #v[x 0, 0] := by
  apply Vec.get_inj.mp
  rw [Mat.get_mulVec, toMatrix_flatHessian]
  funext i
  rw [mulVec_diagonal]
  fin_cases i
  · exact one_mul _
  · exact zero_mul _

/-- An edge of the box from which the tangent decreases by one at most. -/
theorem conjugate_test_certifies_unit_box_flatHessian :
    let x : Vec ℝ 2 := #v[1, 0]
    let s : Iteration (Tensor ℝ) Unit :=
      { count := 1, x := .ofVec x, xNext := .ofVec x, y := .ofVec x, yNext := .ofVec x
        gradientAtY := .ofVec #v[-1, 1], gradientAtXNext := .ofVec #v[-1, 1], trial := .ofVec x
        stepState := () }
    conjugateResidual s = .ok 1 ∧
      IsGreatest ((fun z => Vec.dot #v[-1, 1] (x - z)) '' unitBox 2) 1 ∧
      ((Condition.conjugate { eps := (3 : ℝ) }).forProgram 2 1 0).holds s = .ok true ∧
      ∀ z ∈ unitBox 2, objective flatHessian #v[-2, 1] x - objective flatHessian #v[-2, 1] z <
        (if true then 3 / (2 : Int) else 3 : ℝ) := by
  intro x s
  have inside : x ∈ unitBox 2 := by
    intro i
    fin_cases i
    · exact ⟨show (-1 : ℝ) ≤ 1 by norm_num, show (1 : ℝ) ≤ 1 from le_rfl⟩
    · exact ⟨show (-1 : ℝ) ≤ 0 by norm_num, show (0 : ℝ) ≤ 1 from zero_le_one⟩
  have slope : flatHessian.mulVec x + #v[-2, 1] = #v[-1, 1] := by
    apply Vec.ext
    intro i
    rw [mulVec_flatHessian, Vec.get_add]
    fin_cases i
    · exact show (1 : ℝ) + -2 = -1 by norm_num
    · exact show (0 : ℝ) + 1 = 1 from zero_add 1
  have estimate : Vec.dot x #v[-1, 1] + Vec.normOne (#v[-1, 1] : Vec ℝ 2) = 1 := by
    rw [Vec.dot_eq, dotProduct, Vec.normOne, Vec.sumOver_eq_sum, Fin.sum_univ_two, Fin.sum_univ_two]
    change (1 : ℝ) * -1 + 0 * 1 + (|(-1 : ℝ)| + |1|) = 1
    norm_num
  obtain ⟨⟨residual, computed, greatest, same, -⟩, certified⟩ :=
    conjugate_test_certifies_unit_box (s := s) (b := #v[-2, 1]) posSemidef_flatHessian rfl
      (congrArg Tensor.ofVec slope.symm) inside
  rw [slope] at greatest same
  obtain rfl : residual = 1 := same.trans estimate
  have held : ((Condition.conjugate { eps := (3 : ℝ) }).forProgram 2 1 0).holds s = .ok true := by
    have shared : (⟨3, true, 2⟩ : Tolerance ℝ).threshold = .ok (3 / (2 : Int)) := threshold_eq two_pos
    change (⟨3, true, 2⟩ : Tolerance ℝ).holdsConjugate s = .ok true
    simp only [Tolerance.holdsConjugate, computed, shared, bind, Except.bind]
    exact congrArg Except.ok (decide_eq_true (by norm_num))
  exact ⟨computed, greatest, held, certified 3 true 2 1 0 held⟩

end

end Gradient

end RecedingHorizon
