import RecedingHorizon.Linear.Matrix

/-!
# Elimination

Solves a square system by eliminating one column at a time. The pivot is the entry of the column
that is largest in a given measure; a column of zeros means that the matrix is singular. After the
pivot row is taken out and its multiples are subtracted from the others, what remains is a system
with one row and one column less, whose solution determines the first unknown.
-/

namespace RecedingHorizon

namespace Mat

variable {α β : Type} {k m n : Nat}

/-- The index of the largest measure in a column, the first one of equals. -/
def pivotRow [LT β] [DecidableLT β] (measure : α → β) (M : Mat α (m + 1) n) (j : Fin n) :
    Fin (m + 1) :=
  Fin.foldl m (fun best i => if measure (M best j) < measure (M i.succ j) then i.succ else best)
    firstIndex

/-- The rows other than the first one after row `p` has been moved to the front: the row that
stood there takes the place of row `p`. -/
def otherRows (M : Mat α (m + 1) n) (p : Fin (m + 1)) : Mat α m n :=
  ofFn fun i j => if i.succ = p then M firstIndex j else M i.succ j

variable [Add α] [Sub α] [Mul α] [Div α] [Zero α] [BEq α]

/-- The solution `X` of `M X = Y`, unless a pivot is zero. -/
def eliminate? [LT β] [DecidableLT β] (measure : α → β) :
    {n : Nat} → Mat α n n → Mat α n k → Option (Mat α n k)
  | 0, _, Y => some Y
  | n + 1, M, Y =>
    let p := pivotRow measure M firstIndex
    let pivot := M p firstIndex
    if pivot == 0 then none
    else
      let others := otherRows M p
      let rest := otherRows Y p
      let factors : Vec α n := Vec.ofFn fun i => others i firstIndex / pivot
      let smaller : Mat α n n := ofFn fun i j => others i j.succ - factors i * M p j.succ
      let target : Mat α n k := ofFn fun i j => rest i j - factors i * Y p j
      (eliminate? measure smaller target).map fun X =>
        let first : Vec α k := Vec.ofFn fun j =>
          (Y p j - Vec.sumOver n fun l => M p l.succ * X l j) / pivot
        ofFn fun i j => Fin.cases (first j) (fun r => X r j) i

end Mat

end RecedingHorizon
