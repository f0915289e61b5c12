import RecedingHorizon.Tensor.Basic
import RecedingHorizon.Error

/-!
# Entrywise operations on arrays

Two arrays combine entry by entry when their shapes agree, read from the last axis: an axis of
length one is repeated, and so is a missing leading axis. `commonShape?` is the shape of the
result, `Grid.stretch?` repeats an array up to it, and `Tensor.combine` is the operation.
-/

namespace RecedingHorizon

/-- The length of an axis that serves two lengths. -/
def commonLength? (m n : Nat) : Option Nat :=
  if m = n then some m else if m = 1 then some n else if n = 1 then some m else none

/-- The common shape of two shapes written from the last axis on. -/
def commonReversed? : List Nat → List Nat → Option (List Nat)
  | [], t => some t
  | s, [] => some s
  | m :: s, n :: t => do
    let length ← commonLength? m n
    let rest ← commonReversed? s t
    return length :: rest

/-- The shape that two arrays are repeated to, if there is one. -/
def commonShape? (s t : List Nat) : Option (List Nat) :=
  (commonReversed? s.reverse t.reverse).map List.reverse

theorem commonReversed?_self (s : List Nat) : commonReversed? s s = some s := by
  induction s with
  | nil => rfl
  | cons n s ih => simp [commonReversed?, commonLength?, ih]

theorem commonShape?_self (s : List Nat) : commonShape? s s = some s := by
  simp [commonShape?, commonReversed?_self]

theorem pos_of_eq_one {n : Nat} (single : n = 1) : 0 < n := single ▸ Nat.one_pos

namespace Grid

variable {α : Type}

/-- An array repeated to a shape: axes of length one and missing leading axes are repeated. -/
def stretch? : (s t : List Nat) → Grid α s → Option (Grid α t)
  | [], [], x => some x
  | _ :: _, [], _ => none
  | s, m :: t, x =>
    -- An axis that is missing comes in front of those that are there.
    if s.length ≤ t.length then (stretch? s t x).map fun y => Vector.replicate m y
    else
      match s, x with
      | [], _ => none
      | n :: s, x =>
        let x : Vector (Grid α s) n := x
        if h : n = m then (h ▸ x).mapM (stretch? s t)
        else if h : n = 1 then (stretch? s t (x.get ⟨0, pos_of_eq_one h⟩)).map fun y => Vector.replicate m y
        else none

/-- An array that has the shape already stays as it is. -/
theorem stretch?_self (s : List Nat) (x : Grid α s) : stretch? s s x = some x := by
  induction s with
  | nil => rfl
  | cons n s ih =>
    have longer : ¬(n :: s).length ≤ s.length := by simp
    have each : stretch? s s = fun y : Grid α s => (pure (id y) : Option (Grid α s)) := funext ih
    let cells : Vector (Grid α s) n := x
    have all : cells.mapM (fun y => (pure (id y) : Option (Grid α s))) = some (cells.map id) :=
      Vector.mapM_pure id
    rw [stretch?, if_neg longer]
    simp only [each]
    exact (dif_pos rfl).trans (all.trans (congrArg some (Vector.map_id cells)))

end Grid

namespace Tensor

variable {α β γ : Type}

/-- An array repeated to a shape. -/
def stretch? (t : Tensor α) (shape : List Nat) : Option (Tensor α) :=
  (t.cells.stretch? t.shape shape).map fun cells => ⟨shape, cells⟩

/-- The entrywise combination of two arrays after repeating both to their common shape. -/
def combine (f : α → β → γ) (x : Tensor α) (y : Tensor β) : Except Fault (Tensor γ) :=
  match commonShape? x.shape y.shape with
  | none => .error .incompatibleShapes
  | some shape =>
    match x.cells.stretch? x.shape shape, y.cells.stretch? y.shape shape with
    | some x, some y => .ok ⟨shape, Grid.zipWith f shape x y⟩
    | _, _ => .error .incompatibleShapes

def add [Add α] (x y : Tensor α) : Except Fault (Tensor α) := combine (· + ·) x y

def sub [Sub α] (x y : Tensor α) : Except Fault (Tensor α) := combine (· - ·) x y

/-- The largest entry, where `orLarger` keeps the first of two equal ones; there has to be one. -/
def largest (orLarger : α → α → α) (t : Tensor α) : Except Fault α :=
  match t.toList with
  | [] => .error .emptyReduction
  | x :: rest => .ok (rest.foldl orLarger x)

def allEntries (t : Tensor α) (test : α → Bool) : Bool := t.toList.all test

def anyEntry (t : Tensor α) (test : α → Bool) : Bool := t.toList.any test

/-- Writing an array into a place of a given shape: the array is repeated to that shape, and axes
of length one in front of it are dropped. -/
def fitTo (t : Tensor α) (shape : List Nat) : Except Fault (Tensor α) :=
  let surplus := t.rank - shape.length
  let trimmed : Tensor α := dropUnits surplus t
  -- Along no axis may the array be longer than its place, so that the place is the common shape.
  match commonShape? trimmed.shape shape, trimmed.stretch? shape with
  | some common, some fitted => if common = shape then .ok fitted else .error .incompatibleShapes
  | _, _ => .error .incompatibleShapes
where
  dropUnits : Nat → Tensor α → Tensor α
    | 0, t => t
    | count + 1, ⟨n :: shape, cells⟩ =>
      let cells : Vector (Grid α shape) n := cells
      if h : n = 1 then dropUnits count ⟨shape, cells.get ⟨0, pos_of_eq_one h⟩⟩ else ⟨n :: shape, cells⟩
    | _ + 1, t => t

theorem stretch?_shape (t : Tensor α) : t.stretch? t.shape = some t := by
  rw [stretch?, Grid.stretch?_self, Option.map_some]

theorem combine_of_same_shape (f : α → β → γ) (s : List Nat) (x : Grid α s) (y : Grid β s) :
    combine f ⟨s, x⟩ ⟨s, y⟩ = .ok ⟨s, Grid.zipWith f s x y⟩ := by
  simp only [combine, commonShape?_self, Grid.stretch?_self]

theorem combine_ofVec {n : Nat} (f : α → β → γ) (x : Vec α n) (y : Vec β n) :
    combine f (ofVec x) (ofVec y) = .ok (ofVec (Vector.zipWith f x y)) :=
  combine_of_same_shape f [n] x y

theorem add_ofVec [Add α] {n : Nat} (x y : Vec α n) :
    add (ofVec x) (ofVec y) = .ok (ofVec (x + y)) :=
  combine_of_same_shape (· + ·) [n] x y

theorem sub_ofVec [Sub α] {n : Nat} (x y : Vec α n) :
    sub (ofVec x) (ofVec y) = .ok (ofVec (x - y)) :=
  combine_of_same_shape (· - ·) [n] x y

theorem combine_ofMat {m n : Nat} (f : α → β → γ) (M : Mat α m n) (N : Mat β m n) :
    combine f (ofMat M) (ofMat N) = .ok (ofMat (Mat.ofFn fun i j => f (M i j) (N i j))) := by
  have cells : Vector.zipWith (Vector.zipWith f) M.rows N.rows =
      (Mat.ofFn fun i j => f (M i j) (N i j)).rows := by
    apply Vector.ext
    intro i hi
    apply Vector.ext
    intro j hj
    simp [Mat.ofFn, Mat.entry, Vector.get]
    rfl
  exact (combine_of_same_shape f [m, n] M.rows N.rows).trans
    (congrArg (fun rows => Except.ok (Tensor.mk [m, n] rows)) cells)

theorem add_ofMat [Add α] {m n : Nat} (M N : Mat α m n) :
    add (ofMat M) (ofMat N) = .ok (ofMat (M + N)) :=
  combine_ofMat (· + ·) M N

theorem sub_ofMat [Sub α] {m n : Nat} (M N : Mat α m n) :
    sub (ofMat M) (ofMat N) = .ok (ofMat (M - N)) :=
  combine_ofMat (· - ·) M N

theorem allEntries_ofVec {n : Nat} (test : α → Bool) (v : Vec α n) :
    (ofVec v).allEntries test = true ↔ ∀ i, test (v i) = true := by
  rw [allEntries, toList_ofVec, List.all_eq_true, Vec.forall_mem_toList]

theorem anyEntry_ofVec {n : Nat} (test : α → Bool) (v : Vec α n) :
    (ofVec v).anyEntry test = false ↔ ∀ i, test (v i) = false := by
  have none := allEntries_ofVec (fun x => !test x) v
  simp only [Bool.not_eq_true'] at none
  rw [← none, anyEntry, allEntries, List.any_eq_not_all_not, Bool.not_eq_false']

theorem allEntries_ofMat {m n : Nat} (M : Mat α m n) (test : α → Bool) :
    (ofMat M).allEntries test = true ↔ ∀ i j, test (M i j) = true := by
  simp only [allEntries, toList_ofMat, Mat.toList, List.all_flatMap, List.all_eq_true,
    Vector.mem_toList_iff, Vector.mem_iff_getElem]
  constructor
  · intro holds i j
    exact holds _ ⟨i.val, i.isLt, rfl⟩ _ ⟨j.val, j.isLt, rfl⟩
  · rintro holds _ ⟨i, hi, rfl⟩ _ ⟨j, hj, rfl⟩
    exact holds ⟨i, hi⟩ ⟨j, hj⟩

/-- An array is written into a place of its own shape as it stands. -/
theorem fitTo_shape (t : Tensor α) : t.fitTo t.shape = .ok t := by
  have untrimmed : fitTo.dropUnits (t.rank - t.shape.length) t = t := by
    rw [rank, Nat.sub_self, fitTo.dropUnits]
  simp only [fitTo, untrimmed, commonShape?_self, stretch?_shape, if_true]

end Tensor

end RecedingHorizon
