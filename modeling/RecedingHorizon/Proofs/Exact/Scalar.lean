import Mathlib.Analysis.SpecialFunctions.Log.Basic
import Mathlib.Analysis.SpecialFunctions.Trigonometric.Basic
import RecedingHorizon.Scalar.Checked

/-!
# Exact arithmetic

The real numbers as scalars. Every value is a number, so nothing overflows and no comparison is
undefined; an infinite or undefined value has no real number that stands for it and reads as zero.
What is proved about the library over this instance holds in exact arithmetic.
-/

namespace RecedingHorizon

/-! ### Division and literals

A quotient or a literal is the same term in every module, in whatever order the modules are imported. -/

noncomputable instance divReal : Div ℝ := DivInvMonoid.toDiv

instance atLeastTwo_two : Nat.AtLeastTwo 2 := ⟨le_rfl⟩

instance atLeastTwo_three : Nat.AtLeastTwo 3 := ⟨by decide⟩

instance atLeastTwo_four : Nat.AtLeastTwo 4 := ⟨by decide⟩

instance atLeastTwo_five : Nat.AtLeastTwo 5 := ⟨by decide⟩

instance atLeastTwo_ten : Nat.AtLeastTwo 10 := ⟨by decide⟩

/-! ### The real numbers -/

open Classical in
noncomputable instance : Scalar ℝ where
  decLe := inferInstance
  decLt := inferInstance
  ofInt n := n
  sqrt := Real.sqrt
  abs x := |x|
  log := Real.log
  cos := Real.cos
  sin := Real.sin
  pi := Real.pi
  classify := .finite
  ofExtended
    | .finite x => x
    | _ => 0
  ceil x := ⌈x⌉
  fraction? x := if h : ∃ q : ℚ, (q : ℝ) = x then some h.choose else none
  render x := if h : ∃ q : ℚ, (q : ℝ) = x then toString h.choose else "irrational"

namespace Scalar

@[simp] theorem isFinite_real (x : ℝ) : isFinite x = true := rfl

@[simp] theorem isUndefined_real (x : ℝ) : isUndefined x = false := rfl

@[simp] theorem beq_real (x y : ℝ) : (x == y) = true ↔ x = y := beq_iff_eq

/-- The scientific literals are the numbers that they look like. -/
theorem two_eq : (2.0 : ℝ) = 2 := by norm_num

theorem half_eq : (0.5 : ℝ) = 1 / 2 := by norm_num

theorem quotient_of_ne {x y : ℝ} (nonzero : y ≠ 0) : quotient x y = .ok (x / y) := by
  rw [quotient, if_neg (by simpa using nonzero)]

end Scalar

end RecedingHorizon
