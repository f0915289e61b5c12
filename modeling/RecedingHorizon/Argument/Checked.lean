import RecedingHorizon.Argument.Basic
import RecedingHorizon.Numeric.Cholesky

/-!
# Checked arguments

Weights and bounds are given loosely and stored strictly. A scalar weight is a multiple of the
identity and a vector is one column; a scalar bound holds for every entry. The checks name the
parameter that they refuse.
-/

namespace RecedingHorizon

variable {α : Type} [Scalar α]

namespace Argument

/-- The argument as an array with two axes: a scalar is a multiple of the identity of a given
size, a vector is one column. -/
def toMatrix (a : Argument α) (size : Argument α) (name : String) : Except Fault (Tensor α) := do
  let t ← a.toTensor
  match t with
  | ⟨[], x⟩ =>
    if !size.isGiven then throw (.scalarNeedsSize name)
    let n ← size.toLength
    return .ofMat (Mat.scale x (Mat.identity n))
  | ⟨[_], x⟩ => return .ofMat (Mat.ofColumn x)
  | ⟨[_, _], _⟩ => return t
  | ⟨shape, _⟩ => throw (.notTwoDimensional name shape)

/-- The argument as a vector of bounds: no entry is undefined, and a single one serves for all. -/
def toBoundVector (a : Argument (Extended α)) (size : Nat) (name : String) :
    Except Fault (Vec (Extended α) size) := do
  let entries := (← a.toBounds).toList
  if entries.any Extended.isUndefined then throw (.undefinedBound name)
  match entries with
  | [bound] => return Vector.replicate size bound
  | _ =>
    if h : entries.length = size then return Vec.ofList entries h
    else throw (.entryCount name size entries.length)

end Argument

namespace Tensor

def matrixOfSize (t : Tensor α) (m n : Nat) (name : String) : Except Fault (Mat α m n) :=
  match t.toMat? m n with
  | some M => .ok M
  | none => .error (.wrongShape name [m, n] t.shape)

def requireShape (t : Tensor α) (shape : List Nat) (name : String) : Except Fault Unit :=
  if t.shape = shape then .ok () else .error (.wrongShape name shape t.shape)

/-- The array has to agree with its transpose, entry by entry, within a tolerance. -/
def requireSymmetric (t : Tensor α) (name : String) (tolerance : α) : Except Fault Unit :=
  match t.shape with
  | m :: n :: _ =>
    if m ≠ n then .error (.notSymmetric name)
    else do
      let transposed : Tensor α :=
        ofFn t.shape.reverse fun index => (t.read index.reverse).getD Scalar.undefined
      let same ← combine (Scalar.near tolerance) t transposed
      if same.allEntries id then return () else throw (.notSymmetric name)
  | _ => .error .outOfRange

/-- Every matrix in the last two axes has a triangular square root. -/
def positiveDefinite : (axes : Nat) → Tensor α → Except Fault Bool
  | _, ⟨[m, n], cells⟩ =>
    let M : Mat α m n := ⟨cells⟩
    if h : m = n then .ok (h ▸ M : Mat α n n).isPositiveDefinite else .error .singular
  | axes + 1, t => t.slices.allM (positiveDefinite axes)
  | 0, _ => .error .singular

/-- The array has to be a symmetric positive definite matrix. -/
def requirePositiveDefinite (t : Tensor α) (name : String) (tolerance : α) : Except Fault Unit := do
  t.requireSymmetric name tolerance
  match positiveDefinite t.rank t with
  | .ok true => return ()
  | _ => throw (.notPositiveDefinite name)

end Tensor

/-! ### Matrices as arguments -/

theorem Argument.toMatrix_ofMat {m n : Nat} (M : Mat α m n) (size : Argument α) (name : String) :
    toMatrix (.array (.ofMat M)) size name = .ok (.ofMat M) := rfl

theorem Argument.toBoundVector_real (bound : Extended α) (defined : bound.isUndefined = false)
    (size : Nat) (name : String) :
    toBoundVector (.real bound) size name = .ok (Vector.replicate size bound) := by
  simp [toBoundVector, toBounds, entries, Tensor.scalar, Tensor.toList, Grid.toList, defined, bind,
    Except.bind, pure, Except.pure]

theorem Tensor.matrixOfSize_ofMat {β : Type} {m n : Nat} (M : Mat β m n) (name : String) :
    (ofMat M).matrixOfSize m n name = .ok M := by
  rw [matrixOfSize, toMat?_ofMat]

/-- How far a symmetric weight may be from its transpose. -/
def symmetryTolerance : α := 1e-10

end RecedingHorizon
