import RecedingHorizon.Linear.Matrix

/-!
# Triangular square roots

A symmetric matrix is positive definite exactly when it is the product of a lower triangular matrix
with positive diagonal and its transpose. `cholesky?` finds that factor one column at a time: the
first pivot has to be positive, and what remains is the same task for the matrix without its first
row and column, less the part that the first column explains. Only the lower triangle is read.
-/

namespace RecedingHorizon

namespace Mat

variable {α : Type} {n : Nat}

/-- The matrix without its first row and column. -/
def minor (M : Mat α (n + 1) (n + 1)) : Mat α n n := ofFn fun i j => M i.succ j.succ

/-- A corner, a column below it and a block beside them, with zeros right of the corner. -/
def lowerBordered [Zero α] (corner : α) (below : Vec α n) (block : Mat α n n) :
    Mat α (n + 1) (n + 1) :=
  ofFn fun i j =>
    Fin.cases (Fin.cases corner (fun _ => 0) j)
      (fun r => Fin.cases (below r) (fun c => block r c) j) i

variable [Scalar α]

/-- The lower triangular factor, unless some pivot fails to be positive. -/
def cholesky? : {n : Nat} → Mat α n n → Option (Mat α n n)
  | 0, M => some M
  | n + 1, M =>
    if 0 < M firstIndex firstIndex then
      let root := Scalar.sqrt (M firstIndex firstIndex)
      let below : Vec α n := Vec.ofFn fun i => M i.succ firstIndex * (1 / root)
      let rest : Mat α n n := ofFn fun i j => M i.succ j.succ - below i * below j
      (cholesky? rest).map (lowerBordered root below)
    else none

/-- The matrix has a triangular square root. -/
def isPositiveDefinite (M : Mat α n n) : Bool := (cholesky? M).isSome

end Mat

end RecedingHorizon
