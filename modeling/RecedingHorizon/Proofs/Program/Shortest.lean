import RecedingHorizon.Proofs.Program.LeastDistance

/-!
# The shortest point of a polytope

What is answered for the shortest point of a polytope is that point, and there is an answer exactly if
some point of the polytope is shorter than `10⁶` or so (`leastDistance_eq_ok_iff`): the residual of a
point that lies further out is too small to be told from none.

A point is known to be the shortest one from its multipliers, weights of the rows under which they add
up to the point turned round. They are also what the least-squares problem answers, up to a factor
(`HasMultipliers.isNonnegativeLeastSquares`).
-/

namespace RecedingHorizon

open Matrix

variable {k m n : Nat}

/-! ### Shortest points of a set -/

/-- The one point of a set that no other point of the set is as short as. -/
structure IsShortest (X : Set (Vec ℝ n)) (x : Vec ℝ n) : Prop where
  mem : x ∈ X
  norm_le : ∀ z ∈ X, Vec.norm x ≤ Vec.norm z
  eq_of_norm_eq : ∀ z ∈ X, Vec.norm z = Vec.norm x → z = x

theorem Vec.norm_zeros_sub (x : Vec ℝ n) : norm (zeros n - x) = norm x := by
  rw [norm_sub_comm, sub_zeros]

theorem IsNearest.isShortest {X : Set (Vec ℝ n)} (convex : IsConvex X) {x : Vec ℝ n}
    (nearest : IsNearest X (Vec.zeros n) x) : IsShortest X x := by
  have shorter (z : Vec ℝ n) (inside : z ∈ X) : Vec.norm x ≤ Vec.norm z := by
    have compared := nearest.norm_le z inside
    rwa [Vec.norm_zeros_sub, Vec.norm_zeros_sub] at compared
  refine ⟨nearest.mem, shorter, fun z inside same => ?_⟩
  -- A point of the same length is nearest to the origin as well.
  refine nearest.eq_of_isConvex convex ⟨inside, fun y member => ?_⟩
  rw [Vec.norm_zeros_sub, Vec.norm_zeros_sub, same]
  exact shorter y member

theorem IsShortest.dot_self_le {X : Set (Vec ℝ n)} {x z : Vec ℝ n} (shortest : IsShortest X x)
    (inside : z ∈ X) : Vec.dot x x ≤ Vec.dot z z :=
  (Vec.norm_le_norm_iff x z).mp (shortest.norm_le z inside)

/-- A set has one shortest point at most. -/
theorem IsShortest.eq {X : Set (Vec ℝ n)} {x y : Vec ℝ n} (shortest : IsShortest X x)
    (shortest' : IsShortest X y) : y = x :=
  shortest.eq_of_norm_eq y shortest'.mem
    ((shortest'.norm_le x shortest.mem).antisymm (shortest.norm_le y shortest'.mem))

/-! ### Multipliers -/

/-- The conditions on its residual make a vector an answer. -/
theorem IsNonnegativeLeastSquares.of_residual {M : Mat ℝ k m} {y : Vec ℝ k} {u : Vec ℝ m}
    (nonneg : ∀ j, 0 ≤ u j) (orthogonal : Vec.dot (M.mulVec u - y) (M.mulVec u) = 0)
    (acute : ∀ w : Vec ℝ m, (∀ j, 0 ≤ w j) → 0 ≤ Vec.dot (M.mulVec u - y) (M.mulVec w)) :
    IsNonnegativeLeastSquares M y u := by
  refine ⟨nonneg, fun w other => ?_⟩
  -- From `u` to `w` the square grows by a square and twice the product with the residual.
  have product := acute w other
  have square := Vec.dot_self_nonneg (M.mulVec w - M.mulVec u)
  rw [Vec.norm_le_norm_iff]
  simp only [Vec.dot_sub_left, Vec.dot_sub_right, Vec.dot_comm y, Vec.dot_comm (M.mulVec u) (M.mulVec w)]
    at product orthogonal square ⊢
  linarith

namespace LeastDistance

variable {G : Mat ℝ m n} {g : Vec ℝ m} {x : Vec ℝ n}

/-- Weights of the rows that make a point of the polytope its shortest one: none is negative, a row
counts only if the point satisfies it with equality, and the weighted rows add up to `-x`. -/
structure HasMultipliers (G : Mat ℝ m n) (g : Vec ℝ m) (x : Vec ℝ n) (w : Vec ℝ m) : Prop where
  mem : x ∈ Polytope.region ⟨G, g⟩
  nonneg : ∀ j, 0 ≤ w j
  tight : Vec.dot w (g - G.mulVec x) = 0
  balanced : G.transpose.mulVec w = -x

namespace HasMultipliers

variable {w : Vec ℝ m} (multipliers : HasMultipliers G g x w)

include multipliers

theorem dot_mulVec (z : Vec ℝ n) : Vec.dot w (G.mulVec z) = -Vec.dot x z := by
  have balanced := congrArg Vector.get multipliers.balanced
  rw [Mat.get_mulVec, Mat.toMatrix_transpose, mulVec_transpose, Vec.get_neg] at balanced
  rw [Vec.dot_eq, Vec.dot_eq, Mat.get_mulVec, dotProduct_mulVec, balanced, neg_dotProduct]

theorem dot_bounds : Vec.dot w g = -Vec.dot x x := by
  have tight := multipliers.tight
  rw [Vec.dot_sub_right, sub_eq_zero] at tight
  rw [tight, multipliers.dot_mulVec]

/-- The polytope lies beyond the plane through the point. -/
theorem dot_self_le {z : Vec ℝ n} (inside : z ∈ Polytope.region ⟨G, g⟩) :
    Vec.dot x x ≤ Vec.dot x z := by
  -- The weighted sum of the rows at `z`, of which both parts are products with `x`.
  have weighted := Polytope.dot_remainder_nonneg inside multipliers.nonneg
  rw [Vec.dot_sub_right, multipliers.dot_bounds, multipliers.dot_mulVec] at weighted
  linarith

theorem isShortest : IsShortest (Polytope.region ⟨G, g⟩) x := by
  refine IsNearest.isShortest (Polytope.isConvex_region _) ⟨multipliers.mem, fun z inside => ?_⟩
  have beyond := multipliers.dot_self_le inside
  have square := Vec.dot_self_nonneg (z - x)
  rw [Vec.norm_zeros_sub, Vec.norm_zeros_sub, Vec.norm_le_norm_iff]
  simp only [Vec.dot_sub_left, Vec.dot_sub_right, Vec.dot_comm z x] at square
  linarith

theorem mulVec_dual (i : Fin n) : (dual G g).mulVec w i.castSucc = x i := by
  have balanced := congrFun (congrArg Vector.get multipliers.balanced) i
  rw [Vec.get_neg, Pi.neg_apply, Mat.get_mulVec] at balanced
  have turned : (dual G g).mulVec w i.castSucc = -(G.transpose.toMatrix *ᵥ w.get) i := by
    rw [Mat.get_mulVec, mulVec, mulVec, dotProduct, dotProduct, ← Finset.sum_neg_distrib]
    refine Finset.sum_congr rfl fun j _ => ?_
    simp [dual, Mat.toMatrix_apply]
  rw [turned, balanced, neg_neg]

theorem mulVec_dual_last : (dual G g).mulVec w (Fin.last n) = Vec.dot x x := by
  have turned : (dual G g).mulVec w (Fin.last n) = -Vec.dot w g := by
    rw [Mat.get_mulVec, mulVec, Vec.dot_eq, dotProduct, dotProduct, ← Finset.sum_neg_distrib]
    refine Finset.sum_congr rfl fun j _ => ?_
    simp [dual, Mat.toMatrix_apply, mul_comm]
  rw [turned, multipliers.dot_bounds, neg_neg]

/-- The residual of the scaled multipliers is a multiple of the point. -/
theorem residual_eq_scale :
    residual G g (w.map ((1 + Vec.dot x x)⁻¹ * ·)) = (lifted x).map ((1 + Vec.dot x x)⁻¹ * ·) := by
  have above : 1 + Vec.dot x x ≠ 0 :=
    (add_pos_of_pos_of_nonneg one_pos (Vec.dot_self_nonneg x)).ne'
  apply Vec.get_inj.mp
  funext i
  rw [residual, Mat.mulVec_scale, Vec.get_sub, Vec.get_scale, Vec.get_scale]
  cases i using Fin.lastCases with
  | last =>
    simp only [Pi.sub_apply, Pi.smul_apply, smul_eq_mul, multipliers.mulVec_dual_last, direction, lifted,
      Vec.get_ofFn, if_pos, Fin.lastCases_last]
    field_simp
    ring
  | cast i =>
    simp only [Pi.sub_apply, Pi.smul_apply, smul_eq_mul, multipliers.mulVec_dual, direction, lifted,
      Vec.get_ofFn, Fin.castSucc_ne_last, if_false, sub_zero, Fin.lastCases_castSucc]

/-- Divided by the square of the lifted point, the multipliers are the answer of the least-squares
problem. -/
theorem isNonnegativeLeastSquares :
    IsNonnegativeLeastSquares (dual G g) (direction n) (w.map ((1 + Vec.dot x x)⁻¹ * ·)) := by
  have factor : 0 ≤ (1 + Vec.dot x x)⁻¹ :=
    inv_nonneg.mpr (add_nonneg zero_le_one (Vec.dot_self_nonneg x))
  -- With the residual a multiple of the point, its products are what the rows leave over.
  have product (v : Vec ℝ m) : Vec.dot (residual G g (w.map ((1 + Vec.dot x x)⁻¹ * ·)))
      ((dual G g).mulVec v) = (1 + Vec.dot x x)⁻¹ * Vec.dot v (g - G.mulVec x) := by
    rw [multipliers.residual_eq_scale, Vec.dot_scale_left, Vec.dot_comm (lifted x),
      dot_dual_lifted]
  apply IsNonnegativeLeastSquares.of_residual
  · intro j
    rw [Vec.get_scale]
    exact mul_nonneg factor (multipliers.nonneg j)
  · refine (product _).trans ?_
    rw [Vec.dot_scale_left, multipliers.tight, mul_zero, mul_zero]
  · intro v nonneg
    have weighted := Polytope.dot_remainder_nonneg multipliers.mem nonneg
    exact (mul_nonneg factor weighted).trans_eq (product v).symm

end HasMultipliers

/-! ### What is answered -/

variable {nonnegative : Mat ℝ (n + 1) m → Vec ℝ (n + 1) → Except Fault (Vec ℝ m)}

/-- A method finds the least-squares answer that the shortest point is read off. -/
def FindsDual (nonnegative : Mat ℝ (n + 1) m → Vec ℝ (n + 1) → Except Fault (Vec ℝ m))
    (G : Mat ℝ m n) (g : Vec ℝ m) : Prop :=
  ∃ u, nonnegative (dual G g) (direction n) = .ok u ∧
    IsNonnegativeLeastSquares (dual G g) (direction n) u

theorem HasMultipliers.findsDual {w : Vec ℝ m} (multipliers : HasMultipliers G g x w)
    (answered : nonnegative (dual G g) (direction n) =
      .ok (w.map ((1 + Vec.dot x x)⁻¹ * ·))) : FindsDual nonnegative G g :=
  ⟨_, answered, multipliers.isNonnegativeLeastSquares⟩

section Exact

variable (exact : FindsDual nonnegative G g)

include exact

/-- Only a polytope with a point is answered. -/
theorem nonempty_of_leastDistance (returned : leastDistance nonnegative G g = .ok x) :
    (Polytope.region ⟨G, g⟩).Nonempty := by
  obtain ⟨u, answered, minimal⟩ := exact
  rw [leastDistance_of_ok answered] at returned
  split at returned
  · cases returned
  · next passed =>
    -- A residual that passes the tests is not zero, and leads to a point.
    have long : (0 : ℝ) < Vec.norm (residual G g u) := by
      have small : (0 : ℝ) < threshold := by norm_num [threshold]
      exact small.trans (not_le.mp (not_or.mp passed).1)
    have positive : 0 < Vec.dot (residual G g u) (residual G g u) := by
      rw [← Vec.norm_mul_self]
      exact mul_pos long long
    exact ⟨_, pointOf_mem_region minimal positive⟩

theorem leastDistance_of_isShortest (shortest : IsShortest (Polytope.region ⟨G, g⟩) x) :
    leastDistance nonnegative G g =
      if 1 + Vec.dot x x < 10 ^ 12 then .ok x else .error .emptyConstraintSet := by
  obtain ⟨u, answered, minimal⟩ := exact
  obtain ⟨y, nearest, found⟩ := leastDistance_eq answered minimal ⟨x, shortest.mem⟩
  rwa [shortest.eq (nearest.isShortest (Polytope.isConvex_region _))] at found

theorem isShortest_of_leastDistance (returned : leastDistance nonnegative G g = .ok x) :
    IsShortest (Polytope.region ⟨G, g⟩) x := by
  obtain ⟨u, answered, minimal⟩ := id exact
  obtain ⟨y, nearest, found⟩ :=
    leastDistance_eq answered minimal (nonempty_of_leastDistance exact returned)
  rw [returned] at found
  split at found
  · cases found
    exact nearest.isShortest (Polytope.isConvex_region _)
  · cases found

theorem near_of_leastDistance (returned : leastDistance nonnegative G g = .ok x) :
    1 + Vec.dot x x < 10 ^ 12 := by
  by_contra far
  rw [leastDistance_of_isShortest exact (isShortest_of_leastDistance exact returned), if_neg far]
    at returned
  cases returned

/-- What is returned is the shortest point of the polytope, shorter than every other one, and it is
returned whenever there is one whose square, with one added, is below `10¹²`. -/
theorem leastDistance_eq_ok_iff :
    leastDistance nonnegative G g = .ok x ↔
      IsShortest (Polytope.region ⟨G, g⟩) x ∧ 1 + Vec.dot x x < 10 ^ 12 := by
  constructor
  · intro returned
    exact ⟨isShortest_of_leastDistance exact returned, near_of_leastDistance exact returned⟩
  · rintro ⟨shortest, near⟩
    rw [leastDistance_of_isShortest exact shortest, if_pos near]

end Exact

/-! ### Two rows, one of which carries the point -/

/-- The rows of `2 ≤ x₀ + x₁` and `x₀ ≤ 5`. -/
noncomputable def cutCorner : Mat ℝ 2 2 :=
  Mat.ofFn fun i j => if i.val = 0 then -1 else if j.val = 0 then 1 else 0

theorem toMatrix_cutCorner : cutCorner.toMatrix = !![-1, -1; 1, 0] := by
  rw [cutCorner, Mat.toMatrix_ofFn]
  ext i j
  fin_cases i <;> fin_cases j <;> rfl

theorem get_pair (a b : ℝ) : (#v[a, b] : Vec ℝ 2).get = ![a, b] := by
  funext i
  fin_cases i <;> rfl

theorem hasMultipliers_cutCorner :
    HasMultipliers cutCorner #v[-2, 5] (#v[1, 1] : Vec ℝ 2) #v[1, 0] := by
  constructor
  · intro i
    change (cutCorner.mulVec #v[1, 1]).get i ≤ (#v[-2, 5] : Vec ℝ 2).get i
    rw [Mat.get_mulVec, toMatrix_cutCorner, get_pair, get_pair]
    fin_cases i <;> norm_num [mulVec, dotProduct, Fin.sum_univ_two]
  · intro j
    rw [get_pair]
    fin_cases j <;> norm_num
  · rw [Vec.dot_eq, Vec.get_sub, Mat.get_mulVec, toMatrix_cutCorner, get_pair, get_pair, get_pair]
    norm_num [mulVec, dotProduct, Fin.sum_univ_two]
  · apply Vec.get_inj.mp
    rw [Mat.get_mulVec, Mat.toMatrix_transpose, toMatrix_cutCorner, Vec.get_neg, get_pair, get_pair]
    funext i
    fin_cases i <;> norm_num [mulVec, dotProduct, Fin.sum_univ_two]

theorem dot_ones : Vec.dot (#v[1, 1] : Vec ℝ 2) #v[1, 1] = 2 := by
  rw [Vec.dot_eq, get_pair]
  norm_num [dotProduct, Fin.sum_univ_two]

/-- The shortest point with `2 ≤ x₀ + x₁` and `x₀ ≤ 5`. -/
theorem leastDistance_eq_ok_iff_cutCorner :
    FindsDual (fun _ _ => .ok #v[1 / 3, 0]) cutCorner #v[-2, 5] ∧
      leastDistance (fun _ _ => .ok #v[1 / 3, 0]) cutCorner #v[-2, 5] = .ok #v[1, 1] := by
  have scaled : (#v[1, 0] : Vec ℝ 2).map ((1 + Vec.dot (#v[1, 1] : Vec ℝ 2) #v[1, 1])⁻¹ * ·) =
      #v[1 / 3, 0] := by
    apply Vec.get_inj.mp
    rw [Vec.get_scale, get_pair, get_pair, dot_ones]
    norm_num
  have exact : FindsDual (fun _ _ => .ok #v[1 / 3, 0]) cutCorner #v[-2, 5] :=
    hasMultipliers_cutCorner.findsDual (congrArg Except.ok scaled.symm)
  refine ⟨exact, (leastDistance_eq_ok_iff exact).mpr ⟨hasMultipliers_cutCorner.isShortest, ?_⟩⟩
  rw [dot_ones]
  norm_num

end LeastDistance

end RecedingHorizon
