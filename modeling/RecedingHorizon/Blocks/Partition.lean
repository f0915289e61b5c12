import RecedingHorizon.Error

/-!
# Partitions of an axis

An axis is cut into blocks by a list of sizes. `Partition.offsets` lists where each block starts and,
last, where the axis ends; block `i` is what lies between entries `i` and `i + 1` of that table. An
index below zero counts from the end of the table. A range of places is clipped to the axis, and a
bound below zero counts from the end of the axis.
-/

namespace RecedingHorizon

namespace Partition

/-- The running sums of the sizes, from `start` on. -/
def offsetsFrom (start : Int) : List Int → List Int
  | [] => [start]
  | size :: rest => start :: offsetsFrom (start + size) rest

/-- Where each block starts and where the last one ends. -/
def offsets (sizes : List Int) : List Int := offsetsFrom 0 sizes

/-- The length of an axis with blocks of the given sizes. -/
def total (sizes : List Int) : Int := sizes.foldl (· + ·) 0

/-- The entry at an index, counted from the end if the index is negative. -/
def entry? (table : List Int) (i : Int) : Option Int :=
  if 0 ≤ i then table[i.toNat]?
  else if -(table.length : Int) ≤ i then table[(i + table.length).toNat]?
  else none

/-- The two ends of a block. -/
def ends (sizes : List Int) (i : Int) : Except Fault (Int × Int) :=
  match entry? (offsets sizes) i, entry? (offsets sizes) (i + 1) with
  | some first, some stop => .ok (first, stop)
  | _, _ => .error .outOfRange

end Partition

/-- A range of places on an axis of length `n`. -/
structure Span (n : Nat) where
  start : Nat
  length : Nat
  start_add_length_le : start + length ≤ n

namespace Span

/-- A bound moved onto the axis, counted from the end if it is negative. -/
def bound (n : Nat) (i : Int) : Nat := if i < 0 then (i + n).toNat else min i.toNat n

theorem bound_le (n : Nat) (i : Int) : bound n i ≤ n := by
  unfold bound
  split <;> omega

/-- The places from one bound up to another, none if the second comes first. -/
def clip (n : Nat) (first stop : Int) : Span n where
  start := min (bound n first) (bound n stop)
  length := bound n stop - bound n first
  start_add_length_le := by
    have := bound_le n first
    have := bound_le n stop
    omega

/-- The place of the axis that a place of the range is. -/
def place {n : Nat} (s : Span n) (i : Fin s.length) : Fin n :=
  ⟨s.start + i.val, by have := i.isLt; have := s.start_add_length_le; omega⟩

/-- The place of the range that a place of the axis is, if it lies in the range. -/
def position? {n : Nat} (s : Span n) (i : Fin n) : Option (Fin s.length) :=
  if h : s.start ≤ i.val ∧ i.val < s.start + s.length then
    some ⟨i.val - s.start, by omega⟩
  else none

end Span

end RecedingHorizon
