import RecedingHorizon.Linear.Stacked
import RecedingHorizon.Proofs.Exact.Matrix

/-!
# Stacks in exact arithmetic

A sum over the places of a stack is a sum over stages and positions. From this, a matrix of blocks
acts on a stack part by part (`get_part_mulVec_ofBlocks`), and the inner product of two stacks is the
sum of the inner products of their parts. All reasoning about single places ends here; later modules
only speak of parts.
-/

namespace RecedingHorizon

open Matrix

variable {k l m n : Nat}

namespace Stacked

/-- The places of a stack are its stages with the positions in each. -/
def placeEquiv (k m : Nat) : Fin k × Fin m ≃ Fin (k * m) where
  toFun p := index p.1 p.2
  invFun i := (stage i, position i)
  left_inv p := by simp
  right_inv i := by simp

theorem sum_places (f : Fin (k * m) → ℝ) : ∑ i, f i = ∑ s, ∑ p, f (index s p) := by
  rw [← (placeEquiv k m).sum_comp f, Fintype.sum_prod_type]
  rfl

end Stacked

namespace Vec

theorem ext_part {x y : Vec ℝ (k * m)} (h : ∀ s, x.part s = y.part s) : x = y := by
  rw [← stack_part x, ← stack_part y]
  exact congrArg stack (funext h)

@[simp] theorem part_add (x y : Vec ℝ (k * m)) (s : Fin k) :
    (x + y).part s = x.part s + y.part s := by
  apply get_inj.mp
  funext p
  simp [part]

@[simp] theorem part_sub (x y : Vec ℝ (k * m)) (s : Fin k) :
    (x - y).part s = x.part s - y.part s := by
  apply get_inj.mp
  funext p
  simp [part]

@[simp] theorem part_zeros (s : Fin k) : (zeros (k * m) : Vec ℝ (k * m)).part s = zeros m := by
  apply get_inj.mp
  funext p
  simp [part]

theorem dotProduct_get (x y : Vec ℝ (k * m)) :
    x.get ⬝ᵥ y.get = ∑ s, (x.part s).get ⬝ᵥ (y.part s).get := by
  simp only [dotProduct, Stacked.sum_places, part, get_ofFn]

end Vec

namespace Mat

/-- A matrix of blocks sends a stack to the stack of the sums of block products. -/
theorem get_part_mulVec_ofBlocks (blocks : Fin k → Fin l → Mat ℝ m n) (x : Vec ℝ (l * n))
    (s : Fin k) :
    (((ofBlocks blocks).mulVec x).part s).get = ∑ t, (blocks s t).toMatrix *ᵥ (x.part t).get := by
  funext p
  rw [Finset.sum_apply]
  simp only [Vec.part, Vec.get_ofFn, get_mulVec, Matrix.mulVec, dotProduct, Stacked.sum_places,
    toMatrix_apply, ofBlocks, ofFn_entry, Stacked.stage_index, Stacked.position_index]

/-- A column of blocks sends a vector to the stack of the block products. -/
@[simp] theorem part_mulVec_ofBlockColumn (blocks : Fin k → Mat ℝ m n) (x : Vec ℝ n) (s : Fin k) :
    ((ofBlockColumn blocks).mulVec x).part s = (blocks s).mulVec x := by
  apply Vec.get_inj.mp
  funext p
  simp only [Vec.part, Vec.get_ofFn, get_mulVec, Matrix.mulVec, dotProduct, toMatrix_apply, ofBlockColumn,
    ofFn_entry, Stacked.stage_index, Stacked.position_index]

/-- Blocks that vanish off the diagonal act on each part alone. -/
theorem part_mulVec_ofBlocks_diagonal (blocks : Fin k → Fin k → Mat ℝ m n)
    (diagonal : ∀ s t, s ≠ t → blocks s t = 0) (x : Vec ℝ (k * n)) (s : Fin k) :
    ((ofBlocks blocks).mulVec x).part s = (blocks s s).mulVec (x.part s) := by
  apply Vec.get_inj.mp
  rw [get_part_mulVec_ofBlocks, get_mulVec]
  -- Of the sum over the blocks of a row only the diagonal one is left.
  apply Finset.sum_eq_single s
  · intro t _ other
    rw [diagonal s t other.symm, toMatrix_zero, zero_mulVec]
  · simp

end Mat

end RecedingHorizon
