import RecedingHorizon.Linear.Vector

/-!
# Matrices

A matrix stores its rows, and its size is part of its type, so products and sums of matrices that
do not fit cannot be written. `M i j` reads an entry; `Mat.ofFn` builds a matrix from its entries
and every operation is given by the entries of its result.

Entries only need the operations that are used, so the same definitions serve real and complex
matrices.
-/

namespace RecedingHorizon

structure Mat (α : Type) (m n : Nat) where
  rows : Vector (Vector α n) m
  deriving Repr

namespace Mat

variable {α β : Type} {k l m n : Nat}

def entry (M : Mat α m n) (i : Fin m) (j : Fin n) : α := M.rows i j

instance : CoeFun (Mat α m n) (fun _ => Fin m → Fin n → α) := ⟨entry⟩

def ofFn (f : Fin m → Fin n → α) : Mat α m n := ⟨Vector.ofFn fun i => Vector.ofFn (f i)⟩

@[simp] theorem ofFn_entry (f : Fin m → Fin n → α) (i : Fin m) (j : Fin n) : ofFn f i j = f i j := by
  simp [ofFn, entry]

@[ext] theorem ext {M N : Mat α m n} (h : ∀ i j, M i j = N i j) : M = N := by
  obtain ⟨rows⟩ := M
  obtain ⟨rows'⟩ := N
  congr
  apply Vector.ext
  intro i hi
  apply Vector.ext
  intro j hj
  exact h ⟨i, hi⟩ ⟨j, hj⟩

def row (M : Mat α m n) (i : Fin m) : Vec α n := M.rows i

def column (M : Mat α m n) (j : Fin n) : Vec α m := Vector.ofFn fun i => M i j

def onlyColumn (M : Mat α m 1) : Vec α m := M.column ⟨0, Nat.one_pos⟩

def ofColumn (v : Vec α m) : Mat α m 1 := ofFn fun i _ => v i

def ofRow (v : Vec α n) : Mat α 1 n := ofFn fun _ j => v j

def transpose (M : Mat α m n) : Mat α n m := ofFn fun i j => M j i

def map (f : α → β) (M : Mat α m n) : Mat β m n := ofFn fun i j => f (M i j)

def zeros [Zero α] (m n : Nat) : Mat α m n := ofFn fun _ _ => 0

def identity [Zero α] [One α] (n : Nat) : Mat α n n := ofFn fun i j => if i = j then 1 else 0

instance [Zero α] : Zero (Mat α m n) := ⟨zeros m n⟩
instance [Zero α] [One α] : One (Mat α n n) := ⟨identity n⟩
instance [Add α] : Add (Mat α m n) := ⟨fun M N => ofFn fun i j => M i j + N i j⟩
instance [Sub α] : Sub (Mat α m n) := ⟨fun M N => ofFn fun i j => M i j - N i j⟩
instance [Neg α] : Neg (Mat α m n) := ⟨map (- ·)⟩

def scale [Mul α] (c : α) (M : Mat α m n) : Mat α m n := map (c * ·) M

def mul [Add α] [Mul α] [Zero α] (M : Mat α m k) (N : Mat α k n) : Mat α m n :=
  let columns := N.transpose
  ofFn fun i j => Vec.dot (M.row i) (columns.row j)

instance [Add α] [Mul α] [Zero α] : HMul (Mat α m k) (Mat α k n) (Mat α m n) := ⟨mul⟩

def mulVec [Add α] [Mul α] [Zero α] (M : Mat α m n) (x : Vec α n) : Vec α m :=
  Vector.ofFn fun i => Vec.dot (M.row i) x

def vecMul [Add α] [Mul α] [Zero α] (x : Vec α m) (M : Mat α m n) : Vec α n :=
  Vector.ofFn fun j => Vec.dot x (M.column j)

def beside (M : Mat α m k) (N : Mat α m l) : Mat α m (k + l) :=
  ofFn fun i j => Fin.addCases (M i) (N i) j

def above (M : Mat α k n) (N : Mat α l n) : Mat α (k + l) n :=
  ofFn fun i j => Fin.addCases (fun r => M r j) (fun r => N r j) i

/-- All entries, row by row. -/
def toList (M : Mat α m n) : List α := M.rows.toList.flatMap Vector.toList

def anyEntry (M : Mat α m n) (test : α → Bool) : Bool := M.toList.any test

/-- The average of the matrix and its transpose. -/
def symmetrize [Scalar α] (M : Mat α n n) : Mat α n n := scale 0.5 (M + M.transpose)

/-- The products `X`, `A X`, `A² X`, … -/
def powers [Add α] [Mul α] [Zero α] (A : Mat α n n) (X : Mat α n k) : Nat → List (Mat α n k)
  | 0 => []
  | count + 1 => X :: powers A (A * X) count

@[simp] theorem transpose_entry (M : Mat α m n) (i : Fin n) (j : Fin m) : M.transpose i j = M j i := by
  simp [transpose]

@[simp] theorem map_entry (f : α → β) (M : Mat α m n) (i : Fin m) (j : Fin n) :
    M.map f i j = f (M i j) := by
  simp [map]

@[simp] theorem zero_entry [Zero α] (i : Fin m) (j : Fin n) : (0 : Mat α m n) i j = 0 := by
  change zeros m n i j = 0
  simp [zeros]

@[simp] theorem add_entry [Add α] (M N : Mat α m n) (i : Fin m) (j : Fin n) :
    (M + N) i j = M i j + N i j := by
  change ofFn (fun i j => M i j + N i j) i j = _
  simp

@[simp] theorem sub_entry [Sub α] (M N : Mat α m n) (i : Fin m) (j : Fin n) :
    (M - N) i j = M i j - N i j := by
  change ofFn (fun i j => M i j - N i j) i j = _
  simp

@[simp] theorem neg_entry [Neg α] (M : Mat α m n) (i : Fin m) (j : Fin n) : (-M) i j = -M i j := by
  change map (- ·) M i j = _
  simp

theorem anyEntry_eq_false {M : Mat α m n} {test : α → Bool} :
    M.anyEntry test = false ↔ ∀ i j, test (M i j) = false := by
  simp only [anyEntry, toList, List.any_flatMap, List.any_eq_false, Vector.mem_toList_iff,
    Vector.mem_iff_getElem, Bool.not_eq_true]
  constructor
  · intro fails i j
    exact fails _ ⟨i.val, i.isLt, rfl⟩ _ ⟨j.val, j.isLt, rfl⟩
  · rintro fails _ ⟨i, hi, rfl⟩ _ ⟨j, hj, rfl⟩
    exact fails ⟨i, hi⟩ ⟨j, hj⟩

theorem mul_entry [Add α] [Mul α] [Zero α] (M : Mat α m k) (N : Mat α k n) (i : Fin m) (j : Fin n) :
    (M * N) i j = Vec.sumOver k fun l => M i l * N l j := by
  change mul M N i j = _
  simp [mul, Vec.dot, row, entry, transpose, ofFn]

end Mat

end RecedingHorizon
