import RecedingHorizon.Condensing.Program

/-!
# Block views of condensed programs

The matrices of a prediction or of a condensed program with their blocks, one for every stage. The
predictions under a feedback are also given for an array in place of the gain: a reaction of the
inputs is then repeated to the shape of a block, as a value that is written into it.
-/

namespace RecedingHorizon

variable {α : Type} [Scalar α] {n m p N : Nat}

namespace BlockMatrix

/-- A matrix with `N` by `N` blocks. -/
def square {k l : Nat} (M : Mat α (N * k) (N * l)) : BlockMatrix α :=
  matrix M (equalSizes N k) (equalSizes N l)

/-- A matrix with one column of `N` blocks. -/
def column {k l : Nat} (M : Mat α (N * k) l) : BlockMatrix α :=
  matrix M (equalSizes N k) [(l : Int)]

def stacked {k : Nat} (v : Vec α (N * k)) : BlockMatrix α := vector v (equalSizes N k)

omit [Scalar α] in
theorem toTensor_square {k l : Nat} (M : Mat α (N * k) (N * l)) : (square M).toTensor = .ofMat M :=
  rfl

omit [Scalar α] in
theorem toTensor_column {k l : Nat} (M : Mat α (N * k) l) : (column M).toTensor = .ofMat M := rfl

end BlockMatrix

namespace Prediction

def requireHorizon (a : Argument α) : Except Fault Unit := do
  if ← a.isBelow 1 then throw (.horizonTooShort a.shown)

theorem requireHorizon_whole (positive : 1 ≤ N) :
    requireHorizon (.whole N : Argument α) = .ok () := by
  have notBelow : ¬((N : Int) < 1) := by omega
  simp [requireHorizon, Argument.isBelow, notBelow, bind, Except.bind, pure, Except.pure]

def statesOf (s : LinearSystem α n m) (horizon : Argument α) : Except Fault (BlockMatrix α) := do
  requireHorizon horizon
  let N ← horizon.toLength
  return .square (inputsToStates s N)

/-- The map from the first state to the states, with or without the first state among them. -/
def initialOf (s : LinearSystem α n m) (horizon : Argument α) (includeInitial : Bool) :
    Except Fault (BlockMatrix α) := do
  requireHorizon horizon
  let N ← horizon.toLength
  return .column (if includeInitial then initialToPriorStates s N else initialToStates s N)

/-- What the free variable of a stage contributes through an array as gain to the input that comes
`d + 1` stages later. -/
def reactionOf (s : LinearSystem α n m) (gain : Tensor α) (d : Nat) : Except Fault (Mat α m m) := do
  let reaction ← Tensor.product (gain.map (- ·)) (.ofMat (propagate s.dynamics s.input d))
  match (← reaction.fitTo [m, m]).toMat? m m with
  | some M => return M
  | none => throw .incompatibleShapes

def inputsOf (s : LinearSystem α n m) (gain : Tensor α) (horizon : Argument α) :
    Except Fault (BlockMatrix α) := do
  requireHorizon horizon
  let N ← horizon.toLength
  let reactions ← (List.range (N - 1)).mapM (reactionOf s gain)
  let reactions := reactions.toArray
  return .square (throughFeedback (N := N) fun d => reactions.getD d.val 0)

def initialInputsOf (s : LinearSystem α n m) (gain : Tensor α) (horizon : Argument α) :
    Except Fault (BlockMatrix α) := do
  requireHorizon horizon
  match gain with
  | ⟨[k, l], cells⟩ =>
    let N ← horizon.toLength
    let K : Mat α k l := ⟨cells⟩
    if h : l = n then return .column (initialToInputs s (h ▸ K : Mat α k n) N)
    else throw .incompatibleShapes
  | _ => throw .incompatibleShapes

end Prediction

namespace CondensedProgram

/-- The matrices of a program with their blocks, in the order `H`, `J`, `G`, `L`, `g`. -/
structure Blocks (α : Type) where
  hessian : BlockMatrix α
  linear : BlockMatrix α
  coefficients : BlockMatrix α
  coupling : BlockMatrix α
  bounds : BlockMatrix α

def blocks (qp : CondensedProgram α N n m p) : Blocks α where
  hessian := .square qp.hessian
  linear := .column qp.linear
  coefficients := .square qp.coefficients
  coupling := .column qp.coupling
  bounds := .stacked qp.bounds

end CondensedProgram

def CondensedProgram.Blocks.named? (b : CondensedProgram.Blocks α) : String →
    Option (BlockMatrix α)
  | "H" => some b.hessian
  | "J" => some b.linear
  | "G" => some b.coefficients
  | "L" => some b.coupling
  | "g" => some b.bounds
  | _ => none

end RecedingHorizon
