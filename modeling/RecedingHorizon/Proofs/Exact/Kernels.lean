import Mathlib.Topology.Order.IntermediateValue
import RecedingHorizon.Numeric.Kernels
import RecedingHorizon.Proofs.Exact.Scalar

/-!
# Exact methods

What the numerical methods promise in exact arithmetic, where more than one part of the library relies
on it, and records of methods that keep such a promise.
-/

namespace RecedingHorizon.Kernels

/-- Methods without any answer, to be replaced by those that are needed. -/
def unable {α : Type} : Kernels α where
  eigenvalues _ := .error .singular
  hermitianEigenvalues _ := .error .singular
  spectralRadius _ := .error .singular
  rank _ := .error .singular
  conditionNumber _ := .error .singular
  solve _ _ := .error .singular
  solveComplex _ _ := .error .singular
  riccati _ _ _ _ _ := none
  lyapunov _ _ := none
  nonnegativeLeastSquares _ _ := .error .singular
  leastSquares _ _ := .error .singular
  quadraticProgram _ _ _ _ := .error .singular
  rootBetween _ _ _ := none

/-! ### Roots -/

/-- A function has one strict sign at both points. -/
def HasOneSign (f : ℝ → ℝ) (a b : ℝ) : Prop := 0 < f a ∧ 0 < f b ∨ f a < 0 ∧ f b < 0

/-- A continuous function has its zeros in the unit interval found, unless it has one strict sign at
both ends. -/
def FindsRoots (kit : Kernels ℝ) : Prop :=
  ∀ f : ℝ → ℝ, Continuous f →
    (HasOneSign f 0 1 → kit.rootBetween f 0 1 = none) ∧
    (¬HasOneSign f 0 1 → ∃ r, kit.rootBetween f 0 1 = some r ∧ 0 ≤ r ∧ r ≤ 1 ∧ f r = 0)

theorem exists_root {f : ℝ → ℝ} (continuous : Continuous f) (signs : ¬HasOneSign f 0 1) :
    ∃ r, 0 ≤ r ∧ r ≤ 1 ∧ f r = 0 := by
  -- Zero lies between the values at the ends, in one order or the other.
  have between : 0 ∈ Set.Icc (f 0) (f 1) ∨ 0 ∈ Set.Icc (f 1) (f 0) := by
    by_contra outside
    apply signs
    simp only [Set.mem_Icc, not_or, not_and_or, not_le] at outside
    rw [HasOneSign]
    grind
  rcases between with rising | falling
  · obtain ⟨r, ⟨above, below⟩, zero⟩ :=
      intermediate_value_Icc zero_le_one continuous.continuousOn rising
    exact ⟨r, above, below, zero⟩
  · obtain ⟨r, ⟨above, below⟩, zero⟩ :=
      intermediate_value_Icc' zero_le_one continuous.continuousOn falling
    exact ⟨r, above, below, zero⟩

open Classical in
/-- Methods that find zeros. -/
noncomputable def rootFinding : Kernels ℝ :=
  { (unable : Kernels ℝ) with
    rootBetween := fun f a b =>
      if h : ¬HasOneSign f a b ∧ ∃ r, a ≤ r ∧ r ≤ b ∧ f r = 0 then some h.2.choose else none }

theorem findsRoots_rootFinding : rootFinding.FindsRoots := by
  intro f continuous
  refine ⟨fun signs => dif_neg fun found => found.1 signs, fun signs => ?_⟩
  have found : ¬HasOneSign f 0 1 ∧ ∃ r, 0 ≤ r ∧ r ≤ 1 ∧ f r = 0 :=
    ⟨signs, exists_root continuous signs⟩
  exact ⟨_, dif_pos found, found.2.choose_spec⟩

end RecedingHorizon.Kernels
