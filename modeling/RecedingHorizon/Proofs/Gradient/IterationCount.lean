import Mathlib.Analysis.SpecialFunctions.Log.Basic
import RecedingHorizon.Gradient.Certificate
import RecedingHorizon.Proofs.Exact.Scalar

/-!
# Iteration counts in exact arithmetic

For a positive gap both counts are whole numbers, and the bound is the smaller one of them, or zero if
that is negative; without a gap it is zero (`iterationBound_eq`). Rounding up does not skip a count, so
that this is the least number of iterations after which one of the two bounds on the distance has come
down to the accuracy (`isLeast_iterationCount`).
-/

namespace RecedingHorizon

namespace Extended

theorem log_of_pos {x : ℝ} (positive : 0 < x) : log x = finite (Real.log x) := by
  rw [log, if_neg (by simpa using positive.ne'), if_neg positive.le.not_gt]
  rfl

theorem log_zero : log (0 : ℝ) = bottom := by
  rw [log, if_pos (by simp)]

theorem sub_finite (a b : ℝ) : finite a - finite b = finite (a - b) :=
  congrArg finite (sub_eq_add_neg a b).symm

theorem div_finite {a b : ℝ} (nonzero : b ≠ 0) : div (finite a) (finite b) = finite (a / b) := by
  rw [div, if_neg (by simpa using nonzero)]
  rfl

theorem ceil_finite (a : ℝ) : ceil (finite a) = finite ⌈a⌉ := rfl

end Extended

namespace Gradient

open Extended

variable {eps gap μ L κ q : ℝ}

theorem sqrt_one_div_ratio (μ L : ℝ) : Scalar.sqrt (1 / (L / μ)) = √(μ / L) := by
  rw [one_div_div]
  rfl

section Factor

variable (positive : 0 < μ) (less : μ < L)

include positive less

theorem factor_pos : 0 < 1 - √(μ / L) := by
  rw [sub_pos, Real.sqrt_lt' one_pos, one_pow]
  exact (div_lt_one (positive.trans less)).mpr less

theorem log_factor_neg : Real.log (1 - √(μ / L)) < 0 := by
  have root := Real.sqrt_pos.mpr (div_pos positive (positive.trans less))
  exact Real.log_neg (factor_pos positive less) (sub_lt_self 1 root)

end Factor

/-- The count for the shrinking alone. For the condition number one the logarithm of the factor is
below all numbers, and the count is zero, as it is for a divisor of zero here. -/
theorem linearCount_of_pos (positive : 0 < μ) (ordered : μ ≤ L) (accuracy : 0 < eps)
    (apart : 0 < gap) :
    linearCount eps (L / μ) gap =
      .ok (finite ⌈(Real.log eps - Real.log gap) / Real.log (1 - √(μ / L))⌉) := by
  have above : 0 < L := positive.trans_le ordered
  simp only [linearCount, Scalar.quotient_of_ne (div_pos above positive).ne', bind, Except.bind,
    sqrt_one_div_ratio, log_of_pos accuracy, log_of_pos apart, sub_finite]
  rcases ordered.eq_or_lt with rfl | less
  · -- With equal bounds on the eigenvalues the factor is zero.
    rw [div_self positive.ne', Real.sqrt_one, sub_self, log_zero, Real.log_zero, div_zero,
      Int.ceil_zero]
    exact congrArg (fun c => Except.ok (finite c)) Int.ceil_zero
  · have factor := factor_pos positive less
    rw [log_of_pos factor, div_finite (log_factor_neg positive less).ne, ceil_finite]
    rfl

theorem sublinearCount_of_pos (accuracy : 0 < eps) (gap : ℝ) :
    sublinearCount eps gap = .ok (finite ⌈2 * √(gap / eps) - 2⌉) := by
  simp only [sublinearCount, Scalar.quotient_of_ne accuracy.ne', bind, Except.bind, Scalar.two_eq]
  rfl

/-- Without a gap the count for the shrinking is below all numbers, or does not exist. -/
theorem linearCount_zero (positive : 0 < μ) (ordered : μ ≤ L) (accuracy : 0 < eps) :
    linearCount eps (L / μ) 0 = .ok (if μ = L then undefined else bottom) := by
  have above : 0 < L := positive.trans_le ordered
  have infinite : finite (Real.log eps) - bottom = top := rfl
  simp only [linearCount, Scalar.quotient_of_ne (div_pos above positive).ne', bind, Except.bind,
    sqrt_one_div_ratio, log_of_pos accuracy, log_zero, infinite]
  rcases ordered.eq_or_lt with rfl | less
  · rw [div_self positive.ne', Real.sqrt_one, sub_self, log_zero, if_pos rfl]
    rfl
  · rw [log_of_pos (factor_pos positive less), div, if_pos (log_factor_neg positive less),
      if_neg less.ne]
    rfl

/-- The smaller one of the two counts, or zero if it is negative or if there is no gap. -/
noncomputable def iterationCount (eps μ L gap : ℝ) : Nat :=
  if gap = 0 then 0
  else (min ⌈(Real.log eps - Real.log gap) / Real.log (1 - √(μ / L))⌉ ⌈2 * √(gap / eps) - 2⌉).toNat

theorem iterationBound_eq (positive : 0 < μ) (ordered : μ ≤ L) (accuracy : 0 < eps)
    (nonneg : 0 ≤ gap) : iterationBound eps (L / μ) gap = .ok (iterationCount eps μ L gap) := by
  rcases nonneg.eq_or_lt with rfl | apart
  · simp only [iterationBound, linearCount_zero positive ordered accuracy,
      sublinearCount_of_pos accuracy, bind, Except.bind, iterationCount, if_pos, zero_div,
      Real.sqrt_zero, mul_zero, zero_sub]
    split
    · norm_num [smaller, iterationsOf]
    · rfl
  · simp only [iterationBound, linearCount_of_pos positive ordered accuracy apart,
      sublinearCount_of_pos accuracy, bind, Except.bind, iterationCount, if_neg apart.ne']
    rfl

/-! ### Counts that are enough -/

/-- The counts of iterations after which one of the two bounds on the distance is at most `eps`. -/
def sufficientCounts (eps κ gap : ℝ) : Set ℕ :=
  {k | gap * (1 - 1 / √κ) ^ k ≤ eps ∨ 4 * gap / (k + 2) ^ 2 ≤ eps}

theorem zero_mem_sufficientCounts : 0 ∈ sufficientCounts eps κ gap ↔ gap ≤ eps := by
  have quarter : 4 * gap / ((0 : ℕ) + 2) ^ 2 = gap := by
    rw [Nat.cast_zero]
    ring
  rw [sufficientCounts, Set.mem_ofPred_eq, quarter, pow_zero, mul_one, or_self]

/-! ### Rounding up -/

/-- Rounded up, a quotient of logarithms counts the factors that take the gap to the accuracy. -/
theorem ceil_log_div_le_iff (positive : 0 < q) (less : q < 1) (accuracy : 0 < eps) (apart : 0 < gap)
    (k : ℕ) : ⌈(Real.log eps - Real.log gap) / Real.log q⌉ ≤ (k : ℤ) ↔ gap * q ^ k ≤ eps := by
  have shrunk : 0 < q ^ k * gap := mul_pos (pow_pos positive k) apart
  -- The logarithm of the factor is negative and turns the inequality round.
  rw [Int.ceil_le, Int.cast_natCast, div_le_iff_of_neg (Real.log_neg positive less), mul_comm gap,
    ← Real.log_le_log_iff shrunk accuracy, Real.log_mul (pow_pos positive k).ne' apart.ne',
    Real.log_pow, le_sub_iff_add_le]

theorem ceil_sqrt_le_iff (accuracy : 0 < eps) (k : ℕ) :
    ⌈2 * √(gap / eps) - 2⌉ ≤ (k : ℤ) ↔ 4 * gap / (k + 2) ^ 2 ≤ eps := by
  have above : (0 : ℝ) < k + 2 := by positivity
  have halved : 2 * √(gap / eps) - 2 ≤ k ↔ √(gap / eps) ≤ (k + 2) / 2 := by
    constructor <;> intro h <;> linarith
  rw [Int.ceil_le, Int.cast_natCast, halved, Real.sqrt_le_left (by positivity), div_le_iff₀ accuracy,
    div_le_iff₀ (by positivity)]
  constructor <;> intro h <;> linarith

/-- A whole number that says which counts belong to a set is its least one, unless it is negative. -/
theorem isLeast_toNat {S : Set ℕ} {c : ℤ} (counted : ∀ k : ℕ, c ≤ k ↔ k ∈ S) : IsLeast S c.toNat := by
  refine ⟨(counted _).mp (Int.self_le_toNat c), fun k member => ?_⟩
  exact Int.toNat_le.mpr ((counted k).mpr member)

/-! ### The least one of them -/

theorem isLeast_iterationCount (above : 1 < κ) (accuracy : 0 < eps) (apart : 0 < gap) :
    IsLeast (sufficientCounts eps κ gap) (iterationCount eps 1 κ gap) := by
  have positive := factor_pos one_pos above
  have less : 1 - √(1 / κ) < 1 := sub_lt_self 1 (Real.sqrt_pos.mpr (by positivity))
  rw [iterationCount, if_neg apart.ne']
  -- The smaller of two counts is reached as soon as one of them is.
  refine isLeast_toNat fun k => ?_
  rw [min_le_iff, ceil_log_div_le_iff positive less accuracy apart, ceil_sqrt_le_iff accuracy,
    Real.sqrt_div zero_le_one, Real.sqrt_one]
  rfl

/-- For the condition number one the count is zero whatever the gap is. -/
theorem iterationCount_one (eps gap : ℝ) : iterationCount eps 1 1 gap = 0 := by
  rw [iterationCount]
  split
  · rfl
  · rw [div_one, Real.sqrt_one, sub_self, Real.log_zero, div_zero, Int.ceil_zero]
    exact Int.toNat_eq_zero.mpr (min_le_left _ _)

/-- The count is the least one that is enough, unless the condition number is one and the gap is above the
accuracy. -/
theorem isLeast_iterationCount_of_suited (least : 1 ≤ κ) (accuracy : 0 < eps) (nonneg : 0 ≤ gap)
    (suited : 1 < κ ∨ gap ≤ eps) : IsLeast (sufficientCounts eps κ gap) (iterationCount eps 1 κ gap) := by
  rcases nonneg.eq_or_lt with rfl | apart
  · rw [iterationCount, if_pos rfl]
    exact ⟨zero_mem_sufficientCounts.mpr accuracy.le, fun k _ => Nat.zero_le k⟩
  rcases least.eq_or_lt with rfl | above
  · have within : gap ≤ eps := suited.resolve_left (lt_irrefl 1)
    rw [iterationCount_one]
    exact ⟨zero_mem_sufficientCounts.mpr within, fun k _ => Nat.zero_le k⟩
  · exact isLeast_iterationCount above accuracy apart

end Gradient

end RecedingHorizon
