import Mathlib.Algebra.BigOperators.Group.List.Basic
import RecedingHorizon.Proofs.Tensor.Spread
import RecedingHorizon.Tensor.Product

/-!
# Shapes of sums and products

Two arrays are combined exactly if their shapes have a common one, and the result has that shape
(`exists_combine`). An array with at least two axes acts on a vector if its last axis has the vector's
length; the last axis is then gone (`exists_product_ofVec`).
-/

namespace RecedingHorizon

theorem suited_of_commonLength? {m n length : Nat} (common : commonLength? m n = some length) :
    (m = length ∨ m = 1) ∧ (n = length ∨ n = 1) := by
  simp only [commonLength?] at common
  grind

theorem FitsPlace.refl (s : List Nat) : FitsPlace s s :=
  (fits_of_commonShape? (commonShape?_self s)).1

/-- Both arrays are repeated to the common shape. -/
theorem fits_common {a b c : List Nat} (common : commonReversed? a b = some c) :
    (FitsPlace a.reverse c.reverse ∧ a.length ≤ c.length) ∧
      FitsPlace b.reverse c.reverse ∧ b.length ≤ c.length := by
  -- By induction on both shapes from their last axes on; the shorter one ends first and fits any rest.
  induction a generalizing b c with
  | nil =>
    obtain rfl : b = c := Option.some.inj common
    exact ⟨⟨.nil _, Nat.zero_le _⟩, .refl _, Nat.le_refl _⟩
  | cons m a ih =>
    cases b with
    | nil =>
      obtain rfl : m :: a = c := Option.some.inj common
      exact ⟨⟨.refl _, Nat.le_refl _⟩, .nil _, Nat.zero_le _⟩
    | cons n b =>
      obtain ⟨length, agreed, common⟩ := Option.bind_eq_some_iff.mp common
      obtain ⟨rest, later, same⟩ := Option.bind_eq_some_iff.mp common
      obtain rfl : length :: rest = c := Option.some.inj same
      obtain ⟨left, right⟩ := suited_of_commonLength? agreed
      obtain ⟨⟨fits, short⟩, fits', short'⟩ := ih later
      simp only [List.reverse_cons, List.length_cons]
      exact ⟨⟨fits.concat (by simpa using short) left, Nat.succ_le_succ short⟩,
        fits'.concat (by simpa using short') right, Nat.succ_le_succ short'⟩

theorem commonReversed?_nil (s : List Nat) : commonReversed? s [] = some s := by
  cases s <;> rfl

/-- A vector and an array have a common shape if the vector and the last axis of the array do. -/
theorem commonShape?_single (p : Nat) (lead : List Nat) (r : Nat) :
    commonShape? [p] (lead ++ [r]) = (commonLength? p r).map fun length => lead ++ [length] := by
  rw [commonShape?, List.reverse_append]
  cases both : commonLength? p r with
  | none => simp [commonReversed?, both]
  | some length => simp [commonReversed?, both]

namespace Tensor

variable {α β γ : Type} {lead shape : List Nat} {m n k r : Nat}

theorem exists_stretch?_of_fits {t : Tensor α} (fits : FitsPlace t.shape shape)
    (short : t.shape.length ≤ shape.length) : ∃ u : Tensor α, t.stretch? shape = some u := by
  obtain ⟨g, stretched, -⟩ := Grid.exists_stretch (α := α) fits short
  exact ⟨⟨shape, g t.cells⟩, by rw [stretch?, stretched, Option.map_some]⟩

theorem exists_combine (f : α → β → γ) {x : Tensor α} {y : Tensor β}
    (common : commonShape? x.shape y.shape = some shape) :
    ∃ t, combine f x y = .ok t ∧ t.shape = shape := by
  obtain ⟨reversed, found, rfl⟩ := Option.map_eq_some_iff.mp common
  obtain ⟨⟨fits, short⟩, fits', short'⟩ := fits_common found
  rw [List.reverse_reverse] at fits fits'
  rw [List.length_reverse] at short short'
  obtain ⟨g, left, -⟩ := Grid.exists_stretch (α := α) fits (by simpa using short)
  obtain ⟨h, right, -⟩ := Grid.exists_stretch (α := β) fits' (by simpa using short')
  refine ⟨⟨_, Grid.zipWith f _ (g x.cells) (h y.cells)⟩, ?_, rfl⟩
  simp only [combine, common, left, right]

theorem combine_eq_error (f : α → β → γ) {x : Tensor α} {y : Tensor β}
    (none : commonShape? x.shape y.shape = none) : combine f x y = .error .incompatibleShapes := by
  simp only [combine, none]

section

variable [Add α] [Mul α] [Zero α]

/-- For every index of the leading axes a matrix acts on the same column. -/
theorem exists_stackedProduct_ofColumn {t : Tensor α} (axes : t.shape = lead ++ [r, k])
    (v : Vec α k) :
    ∃ u, t.stackedProduct (.ofMat (Mat.ofColumn v)) = .ok u ∧ u.shape = lead ++ [r, 1] := by
  have reversed : t.shape.reverse = k :: r :: lead.reverse := by simp [axes]
  have whole : t.stretch? (lead ++ [r, k]) = some t := by
    rw [← axes, stretch?_shape]
  -- The column has no leading axes, so that it is repeated along all of them.
  have fits : FitsPlace [k, 1] (lead ++ [k, 1]) := by
    rw [List.append_cons]
    refine FitsPlace.concat (s := [k]) ?_ (by simp) (.inl rfl)
    exact FitsPlace.concat (.nil lead) (Nat.zero_le _) (.inl rfl)
  obtain ⟨column, repeated⟩ := exists_stretch?_of_fits (t := Tensor.ofMat (Mat.ofColumn v)) fits
    (by simp)
  simp only [stackedProduct, reversed, shape_ofMat, List.reverse_cons, List.reverse_nil, List.nil_append,
    List.cons_append, ne_eq, not_true_eq_false, if_false, commonReversed?_nil, List.reverse_reverse,
    whole, repeated]
  exact ⟨_, rfl, rfl⟩

theorem stackedProduct_eq_error {t : Tensor α} (axes : t.shape = lead ++ [r, k]) (differ : k ≠ m)
    (v : Vec α m) : t.stackedProduct (.ofMat (Mat.ofColumn v)) = .error .incompatibleShapes := by
  have reversed : t.shape.reverse = k :: r :: lead.reverse := by simp [axes]
  simp only [stackedProduct, reversed, shape_ofMat, List.reverse_cons, List.reverse_nil, List.nil_append,
    List.cons_append, ne_eq, differ, not_false_eq_true, if_true]

theorem product_ofVec_eq_stackedProduct {t : Tensor α} (axes : t.shape = lead ++ [r, k])
    (stacked : lead ≠ []) (v : Vec α m) :
    t.product (.ofVec v) = t.stackedProduct (.ofMat (Mat.ofColumn v)) >>= fun u =>
      pure (u.dropAxis 0) := by
  obtain ⟨shape, cells⟩ := t
  subst axes
  match lead, stacked with
  | [a], _ => rfl
  | a :: b :: [], _ => rfl
  | a :: b :: c :: lead, _ => rfl

/-- An array with at least two axes can be multiplied with a vector that is as long as its last axis. -/
theorem exists_product_ofVec {t : Tensor α} (axes : t.shape = lead ++ [r, k]) (v : Vec α k) :
    ∃ u, t.product (.ofVec v) = .ok u ∧ u.shape = lead ++ [r] := by
  cases lead with
  | nil =>
    obtain ⟨M, rfl⟩ := eq_ofMat_of_shape axes
    exact ⟨_, product_ofMat_ofVec M v, rfl⟩
  | cons a lead =>
    obtain ⟨u, multiplied, shape⟩ := exists_stackedProduct_ofColumn axes v
    refine ⟨u.dropAxis 0, ?_, ?_⟩
    · rw [product_ofVec_eq_stackedProduct axes (List.cons_ne_nil a lead), multiplied]
      rfl
    · change (u.shape.reverse.eraseIdx 0).reverse = _
      simp [shape]

theorem product_ofVec_eq_error {t : Tensor α} (axes : t.shape = lead ++ [r, k]) (differ : k ≠ m)
    (v : Vec α m) : t.product (.ofVec v) = .error .incompatibleShapes := by
  cases lead with
  | nil =>
    obtain ⟨M, rfl⟩ := eq_ofMat_of_shape axes
    exact dif_neg (Ne.symm differ)
  | cons a lead =>
    rw [product_ofVec_eq_stackedProduct axes (List.cons_ne_nil a lead),
      stackedProduct_eq_error axes differ]
    rfl

end

end Tensor

end RecedingHorizon
