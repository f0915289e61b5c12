import RecedingHorizon.Proofs.Exact.Vector
import RecedingHorizon.Tensor.Norm

/-!
# The inner product of an array with itself

An inner product has to be a single entry. Of a vector with itself it is the squared length. An array with
more axes has to have the length one along its last two, and the product is the square of its only entry;
so no inner product of an array with itself is negative (`inner_self_nonneg`).
-/

namespace RecedingHorizon.Tensor

/-- An array with a single entry has the length one along every axis, and the entry is the one at the
origin. -/
theorem toList_ofFn_eq_single {α : Type} {shape : List Nat} {f : List Nat → α} {value : α}
    (single : (ofFn shape f).toList = [value]) :
    (∀ n ∈ shape, n = 1) ∧ value = f (List.replicate shape.length 0) := by
  induction shape generalizing f with
  | nil => exact ⟨fun n member => absurd member List.not_mem_nil, (List.singleton_inj.mp single).symm⟩
  | cons n shape ih =>
    have size := (ofFn (n :: shape) f).length_toList
    rw [single] at size
    obtain rfl : n = 1 := Nat.eq_one_of_mul_eq_one_right size.symm
    have part : (ofFn (1 :: shape) f).toList = (ofFn shape fun index => f (0 :: index)).toList := by
      change (Vector.ofFn _).toList.flatMap _ = _
      simp only [Vector.toList_ofFn, List.ofFn_succ, List.ofFn_zero, List.flatMap_singleton]
      rfl
    obtain ⟨ones, entry⟩ := ih (part.symm.trans single)
    exact ⟨List.forall_mem_cons.mpr ⟨rfl, ones⟩, entry⟩

variable {x t : Tensor ℝ} {value : ℝ}

/-- The product over leading axes of an array with itself, if it is a single entry. -/
theorem nonneg_of_stackedProduct (multiplied : x.stackedProduct x = .ok t) (single : t.toList = [value]) :
    0 ≤ value := by
  simp only [stackedProduct] at multiplied
  split at multiplied
  · next k m lead n l lead' first second =>
    rw [first] at second
    obtain ⟨rfl, rfl, rfl⟩ : k = n ∧ m = l ∧ lead = lead' := by simpa using second
    split at multiplied
    · cases multiplied
    · next square =>
      obtain rfl : k = m := not_not.mp square
      have shape : x.shape = lead.reverse ++ [k, k] := by
        rw [← List.reverse_reverse x.shape, first]
        simp
      have whole : x.stretch? (lead.reverse ++ [k, k]) = some x := by
        rw [← shape, stretch?_shape]
      simp only [commonReversed?_self, whole, Except.ok.injEq] at multiplied
      subst multiplied
      obtain ⟨ones, rfl⟩ := toList_ofFn_eq_single single
      obtain rfl : k = 1 := ones k (by simp)
      -- Both factors are the entry at the origin.
      have origin (p : Nat) : (List.replicate (lead.reverse ++ [1, 1]).length 0).getD p 0 = 0 := by
        simp [List.getD_eq_getElem?_getD, List.getElem?_replicate]
        split <;> rfl
      simp only [Vec.sumOver_eq_sum, Fin.sum_univ_one, origin]
      exact mul_self_nonneg _
  · cases multiplied

/-- The product of a matrix with itself, if it is a single entry. -/
theorem nonneg_of_matrixProduct {n : Nat} (M : Mat ℝ n n) (single : (ofMat (M * M)).toList = [value]) :
    0 ≤ value := by
  have size := (ofMat (M * M)).length_toList
  rw [single] at size
  obtain rfl : n = 1 := Nat.eq_one_of_mul_eq_one_right size.symm
  have entry : [(M * M) 0 0] = [value] := single
  rw [List.singleton_inj, Mat.mul_entry, Vec.sumOver_eq_sum, Fin.sum_univ_one] at entry
  rw [← entry]
  exact mul_self_nonneg _

theorem inner_self_nonneg (defined : x.inner x = .ok value) : 0 ≤ value := by
  obtain ⟨t, multiplied, entry⟩ := bind_eq_ok defined
  have single : t.toList = [value] := by
    split at entry
    · next same =>
      cases entry
      exact same
    · cases entry
  -- A product of two vectors, of two matrices and of arrays with more axes is defined by itself.
  match x, multiplied, defined with
  | ⟨[], _⟩, multiplied, _ => cases multiplied
  | ⟨[n], v⟩, _, defined =>
    have squared := (inner_ofVec (α := ℝ) v v).symm.trans defined
    cases squared
    exact Vec.dot_self_nonneg v
  | ⟨[m, k], rows⟩, multiplied, _ =>
    obtain ⟨rfl, answered⟩ := dite_eq_ok multiplied
    cases answered
    exact nonneg_of_matrixProduct ⟨rows⟩ single
  | ⟨a :: b :: c :: rest, M⟩, multiplied, _ => exact nonneg_of_stackedProduct multiplied single

end RecedingHorizon.Tensor
