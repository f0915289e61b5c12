import RecedingHorizon.Proofs.Exact.Matrix

/-!
# Inner products and lengths in exact arithmetic

The inner product of the library is bilinear and symmetric, with the multiples of a vector written as
the library writes them, and lengths compare as their squares do.
-/

namespace RecedingHorizon.Vec

open Matrix

variable {n : Nat}

theorem get_map {α β : Type} (f : α → β) (x : Vec α n) : (x.map f).get = fun i => f (x i) := by
  funext i
  exact Vector.getElem_map ..

theorem get_zipWith {α β γ : Type} (f : α → β → γ) (x : Vec α n) (y : Vec β n) :
    (Vector.zipWith f x y).get = fun i => f (x i) (y i) := by
  funext i
  exact Vector.getElem_zipWith ..

theorem norm_le_norm_iff (x y : Vec ℝ n) : norm x ≤ norm y ↔ dot x x ≤ dot y y := by
  apply Real.sqrt_le_sqrt_iff
  rw [dot_eq]
  exact Fintype.sum_nonneg fun i => mul_self_nonneg _

theorem dot_self_nonneg (x : Vec ℝ n) : 0 ≤ dot x x := by
  rw [dot_eq]
  exact Fintype.sum_nonneg fun i => mul_self_nonneg _

theorem norm_mul_self (x : Vec ℝ n) : norm x * norm x = dot x x :=
  Real.mul_self_sqrt (dot_self_nonneg x)

theorem dot_self_eq_zero {x : Vec ℝ n} : dot x x = 0 ↔ x = zeros n := by
  rw [dot_eq, dotProduct_self_eq_zero, ← get_zeros, get_inj]

theorem eq_zeros_of_dot_self_le {x : Vec ℝ n} (short : dot x x ≤ 0) : x = zeros n :=
  dot_self_eq_zero.mp (short.antisymm (dot_self_nonneg x))

theorem norm_nonneg (x : Vec ℝ n) : 0 ≤ norm x := Real.sqrt_nonneg _

theorem norm_pos {x : Vec ℝ n} (nonzero : x ≠ zeros n) : 0 < norm x :=
  Real.sqrt_pos.mpr ((dot_self_nonneg x).lt_of_ne fun vanishing =>
    nonzero (dot_self_eq_zero.mp vanishing.symm))

theorem dot_comm (x y : Vec ℝ n) : dot x y = dot y x := by
  rw [dot_eq, dot_eq, dotProduct_comm]

theorem norm_sub_comm (x y : Vec ℝ n) : norm (x - y) = norm (y - x) := by
  have same : dot (x - y) (x - y) = dot (y - x) (y - x) := by
    rw [dot_eq, dot_eq, get_sub, get_sub, ← neg_sub y.get, neg_dotProduct_neg]
  rw [norm, norm, same]

theorem dot_sub_right (x y z : Vec ℝ n) : dot x (y - z) = dot x y - dot x z := by
  rw [dot_eq, dot_eq, dot_eq, get_sub, dotProduct_sub]

theorem dot_sub_left (x y z : Vec ℝ n) : dot (x - y) z = dot x z - dot y z := by
  rw [dot_eq, dot_eq, dot_eq, get_sub, sub_dotProduct]

theorem dot_add_left (x y z : Vec ℝ n) : dot (x + y) z = dot x z + dot y z := by
  rw [dot_eq, dot_eq, dot_eq, get_add, add_dotProduct]

theorem dot_add_right (x y z : Vec ℝ n) : dot x (y + z) = dot x y + dot x z := by
  rw [dot_eq, dot_eq, dot_eq, get_add, dotProduct_add]

theorem sub_zeros (x : Vec ℝ n) : x - zeros n = x := by
  apply get_inj.mp
  rw [get_sub, get_zeros, sub_zero]

theorem get_scale (c : ℝ) (x : Vec ℝ n) : (x.map (c * ·)).get = c • x.get := get_map _ x

theorem dot_scale_left (c : ℝ) (x y : Vec ℝ n) : dot (x.map (c * ·)) y = c * dot x y := by
  rw [dot_eq, dot_eq, get_scale, smul_dotProduct, smul_eq_mul]

theorem dot_scale_right (c : ℝ) (x y : Vec ℝ n) : dot x (y.map (c * ·)) = c * dot x y := by
  rw [dot_comm, dot_scale_left, dot_comm]

theorem norm_scale {c : ℝ} (nonneg : 0 ≤ c) (x : Vec ℝ n) : norm (x.map (c * ·)) = c * norm x := by
  change √(dot _ _) = c * √(dot x x)
  rw [dot_scale_left, dot_scale_right, ← mul_assoc, Real.sqrt_mul (mul_nonneg nonneg nonneg),
    Real.sqrt_mul_self nonneg]

end RecedingHorizon.Vec

namespace RecedingHorizon.Mat

open Matrix

variable {m n : Nat}

theorem mulVec_scale (M : Mat ℝ m n) (c : ℝ) (x : Vec ℝ n) :
    M.mulVec (x.map (c * ·)) = (M.mulVec x).map (c * ·) := by
  apply Vec.get_inj.mp
  rw [get_mulVec, Vec.get_scale, Vec.get_scale, get_mulVec, mulVec_smul]

end RecedingHorizon.Mat
