import Mathlib.Order.Interval.Set.UnorderedInterval
import RecedingHorizon.Proofs.Gradient.Strategy

/-!
# The recurrence from any state

The residual that an `α` between zero and one leaves has one zero that is not negative. Below it the
residual is positive, and above it negative (`residual_pos_iff`), so that the sign of the residual compares
the next `α` with any number: it lies between the `α` before it and the square root of `μ / L`, and the
factor of the step is below one (`exists_advance`). A run from such a state never fails, and moves towards
the square root without passing it (`factors_recurrence_towards_sqrt`).
-/

namespace RecedingHorizon.Gradient

variable {kit : Kernels ℝ} {q α a r t : ℝ}

namespace StepRule

theorem residual_eq (q a t : ℝ) : residual q a t = (1 - t) * a + q * t - t * t := rfl

/-! ### The sign of the residual -/

section Root

/-- Beside its root `r` the residual has another one, which is `-a / r`. -/
theorem root_mul_residual (zero : residual q a r = 0) (t : ℝ) :
    r * residual q a t = (r - t) * (r * t + a) := by
  rw [residual_eq] at zero ⊢
  linear_combination t * zero

variable (zero : residual q a r = 0) (apart : 0 < a) (positive : 0 < r) (nonneg : 0 ≤ t)

include zero apart positive nonneg

theorem residual_pos_iff : 0 < residual q a t ↔ t < r := by
  have sum : 0 < r * t + a := by positivity
  rw [← mul_pos_iff_of_pos_left positive, root_mul_residual zero, mul_pos_iff_of_pos_right sum, sub_pos]

theorem residual_nonneg_iff : 0 ≤ residual q a t ↔ t ≤ r := by
  have sum : 0 < r * t + a := by positivity
  rw [← mul_nonneg_iff_of_pos_left positive, root_mul_residual zero, mul_nonneg_iff_of_pos_right sum,
    sub_nonneg]

end Root

/-! ### One step -/

theorem residual_current (q α : ℝ) : residual q (α * α) α = α * (q - α * α) := by
  rw [residual_eq]
  ring

theorem residual_sqrt (nonneg : 0 ≤ q) (α : ℝ) : residual q (α * α) √q = (α * α - q) * (1 - √q) := by
  rw [residual_eq]
  linear_combination -Real.mul_self_sqrt nonneg

theorem not_hasOneSign_residual_of_mem (atMost : q ≤ 1) (lower : 0 < α) :
    ¬Kernels.HasOneSign (residual q (α * α)) 0 1 := by
  have start : 0 < α * α := mul_pos lower lower
  simp only [Kernels.HasOneSign, residual_eq]
  rintro (⟨-, above⟩ | ⟨below, -⟩) <;> linarith

/-- The root lies between the `α` that the residual belongs to and the square root of the ratio. -/
theorem root_mem_uIcc (nonneg : 0 ≤ q) (atMost : q ≤ 1) (lower : 0 < α)
    (zero : residual q (α * α) r = 0) (above : 0 < r) : r ∈ Set.uIcc α √q := by
  have start : 0 < α * α := mul_pos lower lower
  have root : 0 ≤ 1 - √q := sub_nonneg.mpr (Real.sqrt_le_one.mpr atMost)
  rw [Set.mem_uIcc]
  -- The signs of the residual at both ends tell that the root lies between them.
  rcases le_total (α * α) q with below | beyond
  · left
    constructor
    · rw [← residual_nonneg_iff zero start above lower.le, residual_current]
      exact mul_nonneg lower.le (sub_nonneg.mpr below)
    · rw [← not_lt, ← residual_pos_iff zero start above (Real.sqrt_nonneg q), residual_sqrt nonneg]
      exact (mul_nonpos_of_nonpos_of_nonneg (sub_nonpos.mpr below) root).not_gt
  · right
    constructor
    · rw [← residual_nonneg_iff zero start above (Real.sqrt_nonneg q), residual_sqrt nonneg]
      exact mul_nonneg (sub_nonneg.mpr beyond) root
    · rw [← not_lt, ← residual_pos_iff zero start above lower.le, residual_current]
      exact (mul_nonpos_of_nonneg_of_nonpos lower.le (sub_nonpos.mpr beyond)).not_gt

/-- The residual is positive at `α - 2 α²`, which therefore lies below the root. -/
theorem sub_lt_root (nonneg : 0 ≤ q) (lower : 0 < α) (upper : α ≤ 1) (zero : residual q (α * α) r = 0)
    (above : 0 < r) : α - 2 * (α * α) < r := by
  have start : 0 < α * α := mul_pos lower lower
  rcases le_or_gt 0 (α - 2 * (α * α)) with inside | negative
  · rw [← residual_pos_iff zero start above inside]
    have value : residual q (α * α) (α - 2 * (α * α)) =
        α * α * α * (3 - 2 * α) + q * (α - 2 * (α * α)) := by
      rw [residual_eq]
      ring
    have first : 0 < α * α * α * (3 - 2 * α) := mul_pos (mul_pos start lower) (by linarith)
    have second : 0 ≤ q * (α - 2 * (α * α)) := mul_nonneg nonneg inside
    linarith
  · exact negative.trans above

/-- A step from an `α` between zero and one has a root between zero and one, and a factor that is not
negative and below one. -/
theorem exists_advance (finds : kit.FindsRoots) (nonneg : 0 ≤ q) (atMost : q ≤ 1) (lower : 0 < α)
    (upper : α ≤ 1) :
    ∃ factor next, advance kit q α = .ok (factor, next) ∧ next ∈ Set.Ioc 0 1 ∧
      next ∈ Set.uIcc α √q ∧ factor ∈ Set.Ico 0 1 := by
  have start : 0 < α * α := mul_pos lower lower
  obtain ⟨r, found, low, high, zero⟩ := (finds _ (continuous_residual q (α * α))).2
    (not_hasOneSign_residual_of_mem atMost lower)
  have above : 0 < r := by
    refine low.lt_of_ne fun none => start.ne ?_
    rw [← none, residual_eq] at zero
    linarith
  have sum : 0 < α * α + r := add_pos start above
  refine ⟨α * (1 - α) / (α * α + r), r, ?_, ⟨above, high⟩,
    root_mem_uIcc nonneg atMost lower zero above, ?_, ?_⟩
  · have squared : Scalar.square α = .ok (α * α) := by simp [Scalar.square]
    simp only [advance, squared, found, bind, Except.bind, pure, Except.pure]
    rw [Scalar.quotient_of_ne sum.ne']
  · exact div_nonneg (mul_nonneg lower.le (sub_nonneg.mpr upper)) sum.le
  · rw [div_lt_one sum]
    linarith [sub_lt_root nonneg lower upper zero above]

end StepRule

/-! ### A run -/

section Sequence

variable {β : Type} [LinearOrder β] {f : ℕ → β} {c : β}

/-- A sequence that starts below a number, and whose terms all lie between the one before and this number,
goes up. -/
theorem monotone_of_mem_uIcc (between : ∀ k, f (k + 1) ∈ Set.uIcc (f k) c) (below : f 0 ≤ c) :
    Monotone f := by
  have bounded (k : ℕ) : f k ≤ c := by
    induction k with
    | zero => exact below
    | succ k ih => exact (Set.uIcc_of_le ih ▸ between k).2
  exact monotone_nat_of_le_succ fun k => (Set.uIcc_of_le (bounded k) ▸ between k).1

theorem antitone_of_mem_uIcc (between : ∀ k, f (k + 1) ∈ Set.uIcc (f k) c) (above : c ≤ f 0) :
    Antitone f := by
  -- Upside down, the sequence goes up.
  exact monotone_of_mem_uIcc (β := βᵒᵈ) (f := f) (c := c)
    (fun k => Set.mem_uIcc.mpr ((Set.mem_uIcc.mp (between k)).symm.imp And.symm And.symm)) above

end Sequence

section Run

variable {L μ : ℝ}

theorem next_of_advance (above : L ≠ 0) {before factor next : ℝ}
    (advanced : StepRule.advance kit (μ / L) α = .ok (factor, next)) :
    (StepRule.recurrence L μ).next kit (some (before, α)) = .ok (factor, some (α, next)) := by
  simp only [StepRule.next, Scalar.quotient_of_ne above, advanced, bind, Except.bind, pure, Except.pure]

/-- A run along a sequence of states that follow one another. -/
theorem factors_of_next {rule : StepRule ℝ} (alphas betas : ℕ → ℝ)
    (stepped : ∀ k before, rule.next kit (some (before, alphas k)) =
      .ok (betas k, some (alphas k, alphas (k + 1)))) (count first : ℕ) (before : ℝ) :
    rule.factors kit count (some (before, alphas first)) =
      .ok ((List.range' first count).map fun k => (betas k, some (alphas k, alphas (k + 1)))) := by
  induction count generalizing first before with
  | zero => rfl
  | succ count ih =>
    simp only [StepRule.factors, stepped, ih (first + 1) (alphas first), bind, Except.bind,
      List.range'_succ, List.map_cons]
    rfl

/-- Fitted to bounds `0 < μ ≤ L` and started from any `α` between zero and one, the recurrence never fails.
Every `α` stays between zero and one and lies between the one before and the square root of `μ / L`, so that
they form a monotone sequence, and every factor is not negative and below one. -/
theorem factors_recurrence_towards_sqrt (finds : kit.FindsRoots) (positive : 0 < μ) (ordered : μ ≤ L)
    (before : ℝ) (lower : 0 < α) (upper : α ≤ 1) :
    StepRule.defaultRecurrence.forBounds (.real L) (.real μ) = .ok (.recurrence L μ) ∧
    ∃ alphas betas : ℕ → ℝ, alphas 0 = α ∧
      (∀ count, (StepRule.recurrence L μ).factors kit count (some (before, α)) =
        .ok ((List.range count).map fun k => (betas k, some (alphas k, alphas (k + 1))))) ∧
      (∀ k, alphas k ∈ Set.Ioc 0 1 ∧ alphas (k + 1) ∈ Set.uIcc (alphas k) √(μ / L) ∧
        betas k ∈ Set.Ico 0 1) ∧
      (α ≤ √(μ / L) → Monotone alphas) ∧ (√(μ / L) ≤ α → Antitone alphas) := by
  have above : 0 < L := positive.trans_le ordered
  have nonneg : 0 ≤ μ / L := (div_pos positive above).le
  have atMost : μ / L ≤ 1 := (div_le_one above).mpr ordered
  refine ⟨forBounds_defaultRecurrence positive rfl rfl, ?_⟩
  -- Every state has one that follows it, and from there on they follow one another.
  choose factor next advanced within between bounded using fun α : Set.Ioc (0 : ℝ) 1 =>
    StepRule.exists_advance finds nonneg atMost α.2.1 α.2.2
  obtain ⟨states, start, following⟩ : ∃ states : ℕ → Set.Ioc (0 : ℝ) 1,
      states 0 = ⟨α, lower, upper⟩ ∧ ∀ k, (states (k + 1) : ℝ) = next (states k) :=
    ⟨fun k => Nat.rec ⟨α, lower, upper⟩ (fun _ α => ⟨next α, within α⟩) k, rfl, fun _ => rfl⟩
  have first : (states 0 : ℝ) = α := congrArg Subtype.val start
  have inside (k : ℕ) : (states (k + 1) : ℝ) ∈ Set.uIcc (states k : ℝ) √(μ / L) := by
    rw [following]
    exact between (states k)
  have stepped (k : ℕ) (before : ℝ) : (StepRule.recurrence L μ).next kit (some (before, states k)) =
      .ok (factor (states k), some ((states k : ℝ), (states (k + 1) : ℝ))) := by
    rw [following]
    exact next_of_advance above.ne' (advanced (states k))
  refine ⟨fun k => states k, fun k => factor (states k), first, fun count => ?_,
    fun k => ⟨(states k).2, inside k, bounded (states k)⟩, fun below => ?_, fun beyond => ?_⟩
  · rw [List.range_eq_range', ← first]
    exact factors_of_next (fun k => states k) (fun k => factor (states k)) stepped count 0 before
  · exact monotone_of_mem_uIcc inside (first.trans_le below)
  · exact antitone_of_mem_uIcc inside (beyond.trans_eq first.symm)

/-- With the bounds one and four and from one, the sequence falls towards one half. -/
theorem factors_recurrence_towards_sqrt_quarter :
    ∃ alphas betas : ℕ → ℝ, alphas 0 = 1 ∧
      (∀ count, (StepRule.recurrence 4 1).factors .rootFinding count (some (0, 1)) =
        .ok ((List.range count).map fun k => (betas k, some (alphas k, alphas (k + 1))))) ∧
      (∀ k, alphas k ∈ Set.Ioc 0 1 ∧ alphas (k + 1) ∈ Set.uIcc (alphas k) (1 / 2) ∧
        betas k ∈ Set.Ico 0 1) ∧
      Antitone alphas := by
  have root : √(1 / 4 : ℝ) = 1 / 2 := by
    rw [Real.sqrt_eq_iff_mul_self_eq (by norm_num) (by norm_num)]
    norm_num
  obtain ⟨-, alphas, betas, first, run, bounded, -, falls⟩ := factors_recurrence_towards_sqrt
    Kernels.findsRoots_rootFinding (one_pos (α := ℝ)) (by norm_num : (1 : ℝ) ≤ 4) 0 one_pos le_rfl
  rw [root] at falls bounded
  exact ⟨alphas, betas, first, run, bounded, falls (by norm_num)⟩

end Run

end RecedingHorizon.Gradient
