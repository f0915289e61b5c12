import Mathlib.Algebra.Order.BigOperators.Group.List
import Mathlib.Algebra.Order.Group.Int
import Mathlib.Algebra.Ring.Int.Defs
import RecedingHorizon.Blocks.Matrix

/-!
# Blocks of an axis

When the sizes of the blocks are not negative and add up to the length of an axis, each block takes the
places from the sum of the sizes before it up to the sum with its own size (`Contains`), and the range
that a block number stands for holds these places and no others (`Cuts.spanOf_eq`,
`Cuts.position?_eq_none_iff`).
-/

namespace RecedingHorizon

namespace Partition

/-- Block sizes that are not negative and add up to the length of an axis. -/
structure Cuts (sizes : List Int) (n : Nat) : Prop where
  nonneg : ∀ size ∈ sizes, 0 ≤ size
  total_eq : total sizes = n

/-- Where a block begins: the sum of the sizes before it. -/
def start (sizes : List Int) (i : Nat) : Int := (sizes.take i).sum

/-- A place of the axis belongs to a block. -/
def Contains (sizes : List Int) (i a : Nat) : Prop := start sizes i ≤ a ∧ a < start sizes (i + 1)

variable {sizes : List Int} {n i : Nat}

theorem total_eq_sum (sizes : List Int) : total sizes = sizes.sum := List.sum_eq_foldl.symm

theorem start_succ (inside : i < sizes.length) : start sizes (i + 1) = start sizes i + sizes[i] :=
  List.sum_take_succ sizes i inside

theorem getElem?_offsetsFrom (first : Int) (inside : i ≤ sizes.length) :
    (offsetsFrom first sizes)[i]? = some (first + start sizes i) := by
  induction sizes generalizing first i with
  | nil =>
    obtain rfl : i = 0 := Nat.le_zero.mp inside
    simp [offsetsFrom, start]
  | cons size rest ih =>
    cases i with
    | zero => simp [offsetsFrom, start]
    | succ i =>
      rw [offsetsFrom, List.getElem?_cons_succ, ih _ (Nat.le_of_succ_le_succ inside)]
      simp [start, add_assoc]

/-- The ends of a block whose number is in range. -/
theorem ends_of_lt (inside : i < sizes.length) :
    ends sizes i = .ok (start sizes i, start sizes (i + 1)) := by
  have first : entry? (offsets sizes) i = some (start sizes i) := by
    rw [ entry?, if_pos (Int.natCast_nonneg i), Int.toNat_natCast, offsets,
      getElem?_offsetsFrom 0 inside.le, zero_add]
  have last : entry? (offsets sizes) (i + 1) = some (start sizes (i + 1)) := by
    rw [ entry?, if_pos (by omega), show ((i : Int) + 1).toNat = i + 1 by omega, offsets,
      getElem?_offsetsFrom 0 inside, zero_add]
  rw [ends, first, last]

namespace Cuts

variable (cuts : Cuts sizes n)

include cuts

theorem start_nonneg (i : Nat) : 0 ≤ start sizes i :=
  List.sum_nonneg fun size member => cuts.nonneg size (List.mem_of_mem_take member)

theorem start_le (i : Nat) : start sizes i ≤ n := by
  have later : 0 ≤ (sizes.drop i).sum :=
    List.sum_nonneg fun size member => cuts.nonneg size (List.mem_of_mem_drop member)
  have all : start sizes i + (sizes.drop i).sum = n := by
    rw [← cuts.total_eq, total_eq_sum, start, List.sum_take_add_sum_drop]
  omega

theorem size_nonneg (inside : i < sizes.length) : 0 ≤ sizes[i] :=
  cuts.nonneg _ (List.getElem_mem inside)

/-- The range of places of a block. -/
def span (inside : i < sizes.length) : Span n where
  start := (start sizes i).toNat
  length := sizes[i].toNat
  start_add_length_le := by
    have first := cuts.start_nonneg i
    have size := cuts.size_nonneg inside
    have last := cuts.start_le (i + 1)
    rw [start_succ inside] at last
    omega

theorem spanOf_eq {α : Type} (inside : i < sizes.length) :
    BlockMatrix.spanOf n sizes (.whole i : Argument α) = .ok (cuts.span inside) := by
  have first := cuts.start_nonneg i
  have size := cuts.size_nonneg inside
  have last := cuts.start_le (i + 1)
  have next := start_succ inside
  -- Both ends are places of the axis or its end, so that nothing is cut off.
  have clipped : Span.clip n (start sizes i) (start sizes (i + 1)) = cuts.span inside := by
    have lower : Span.bound n (start sizes i) = (start sizes i).toNat := by
      rw [Span.bound, if_neg (by omega), Nat.min_eq_left (by omega)]
    have upper : Span.bound n (start sizes (i + 1)) = (start sizes i).toNat + sizes[i].toNat := by
      rw [Span.bound, if_neg (by omega), Nat.min_eq_left (by omega), next]
      omega
    simp only [Span.clip, span, lower, upper, Nat.min_eq_left (Nat.le_add_right _ _),
      Nat.add_sub_cancel_left]
  simp only [BlockMatrix.spanOf, Argument.toIndex, ends_of_lt inside, clipped, bind, Except.bind,
    pure, Except.pure]

theorem position?_eq_none_iff (inside : i < sizes.length) (a : Fin n) :
    (cuts.span inside).position? a = none ↔ ¬Contains sizes i a := by
  have first := cuts.start_nonneg i
  have size := cuts.size_nonneg inside
  have next := start_succ inside
  unfold Span.position?
  split
  · next within =>
    simp only [span] at within
    simp only [reduceCtorEq, Contains, false_iff, not_not]
    omega
  · next without =>
    simp only [span] at without
    simp only [Contains, true_iff]
    omega

end Cuts

end Partition

/-- A place of a range has its own position in it. -/
theorem Span.position?_place {n : Nat} (s : Span n) (p : Fin s.length) :
    s.position? (s.place p) = some p := by
  have inside : s.start ≤ (s.place p).val ∧ (s.place p).val < s.start + s.length := by
    have := p.isLt
    simp only [place]
    omega
  exact (dif_pos inside).trans (congrArg some (Fin.ext (Nat.add_sub_cancel_left _ _)))

end RecedingHorizon
