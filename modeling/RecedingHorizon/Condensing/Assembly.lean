import RecedingHorizon.Condensing.Blocks

/-!
# Assembling condensed programs from arrays

The matrices of a condensed program as they are put together from arrays, whose shapes are only known
when they meet. Blocks are written one after the other into matrices of zeros, and every product, sum,
write and partition checks the shapes it is given, so each step can fail. `Assembly.program` makes all
of them.
-/

namespace RecedingHorizon.Assembly

variable {α : Type} [Scalar α] {n m p : Nat}

/-! ### Arrays -/

/-- The arrays `X`, `A X`, …, `A ^ count X`, each one the product of `A` with the one before. -/
def powers (A X : Tensor α) : Nat → Except Fault (List (Tensor α))
  | 0 => .ok [X]
  | count + 1 => do
    let rest ← powers A (← Tensor.product A X) count
    return X :: rest

def nth (list : List (Tensor α)) (i : Nat) : Except Fault (Tensor α) :=
  match list[i]? with
  | some t => .ok t
  | none => .error .outOfRange

def transposed (t : Tensor α) : Tensor α := @Tensor.transpose α ⟨0⟩ t

def negated (t : Tensor α) : Tensor α := t.map (- ·)

/-- The average of an array and its transpose. -/
def averaged (t : Tensor α) : Except Fault (Tensor α) := do
  return (← Tensor.add t (transposed t)).map (0.5 * ·)

/-- A matrix moved down by `count` rows: its rows up to `count` before the end are written to the rows
from `count` on, below rows of zeros. -/
def shiftRows (count : Nat) : Tensor α → Except Fault (Tensor α)
  | ⟨[k, l], cells⟩ =>
    let M : Mat α k l := ⟨cells⟩
    -- A range that stops zero places before the end counts as empty and does not fill the rows.
    if count = 0 ∧ k ≠ 0 then .error .incompatibleShapes
    else .ok (.ofMat (Mat.ofFn fun (i : Fin k) (j : Fin l) =>
      if count ≤ i.val then M ⟨i.val - count, Nat.lt_of_le_of_lt (Nat.sub_le ..) i.isLt⟩ j else 0))
  | _ => .error .incompatibleShapes

/-! ### Blocks -/

/-- An array cut into `N` by `N` blocks. -/
def inSquares (N k l : Nat) (t : Tensor α) : Except Fault (BlockMatrix α) :=
  BlockMatrix.ofTensor t (BlockMatrix.equalSizes N k) (some (BlockMatrix.equalSizes N l))

/-- An array cut into one column of `N` blocks. -/
def inColumn (N k l : Nat) (t : Tensor α) : Except Fault (BlockMatrix α) :=
  BlockMatrix.ofTensor t (BlockMatrix.equalSizes N k) (some [(l : Int)])

def writeBlock (value : Nat × Nat → Except Fault (Tensor α)) (M : BlockMatrix α)
    (place : Nat × Nat) : Except Fault (BlockMatrix α) := do
  M.setBlock (.whole place.1) (.whole place.2) (← value place)

/-- The matrix after the blocks at the given places have been overwritten, one after the other. -/
def writeBlocks (value : Nat × Nat → Except Fault (Tensor α)) (places : List (Nat × Nat))
    (M : BlockMatrix α) : Except Fault (BlockMatrix α) :=
  places.foldlM (writeBlock value) M

/-- Writes the next block of a column, which is made from a power, and goes on to the next power. -/
def writePower (A : Tensor α) (value : Tensor α → Except Fault (Tensor α))
    (state : Tensor α × BlockMatrix α) (i : Nat) : Except Fault (Tensor α × BlockMatrix α) := do
  let (power, M) := state
  let M ← M.setBlock (.whole i) (.whole 0) (← value power)
  return (← Tensor.product A power, M)

/-- The column after its `N` blocks have been overwritten with what is made from the powers. -/
def writePowers (A : Tensor α) (value : Tensor α → Except Fault (Tensor α)) (N : Nat)
    (power : Tensor α) (M : BlockMatrix α) : Except Fault (BlockMatrix α) := do
  let (_, M) ← (List.range N).foldlM (writePower A value) (power, M)
  return M

/-! ### Predictions -/

/-- The places on and below the diagonal, row by row. -/
def placesToStates (N : Nat) : List (Nat × Nat) :=
  (List.range N).flatMap fun i => (List.range (i + 1)).map fun j => (i, j)

/-- The places on and below the diagonal, where each row begins with the diagonal. -/
def placesToInputs (N : Nat) : List (Nat × Nat) :=
  (List.range N).flatMap fun i => (i, i) :: (List.range i).map fun j => (i, j)

/-- What an input of stage `place.2` leads to in the state after stage `place.1`. -/
def response (responses : List (Tensor α)) (place : Nat × Nat) : Except Fault (Tensor α) :=
  nth responses (place.1 - place.2)

/-- What a free variable of stage `place.2` contributes to the input of stage `place.1`. -/
def reaction (K : Mat α m n) (responses : List (Tensor α)) (place : Nat × Nat) :
    Except Fault (Tensor α) := do
  if place.1 = place.2 then return .ofMat (Mat.identity m)
  Tensor.product (negated (.ofMat K)) (← nth responses (place.1 - 1 - place.2))

def inputsToStates (s : LinearSystem α n m) (N : Nat) : Except Fault (BlockMatrix α) := do
  Prediction.requireHorizon (.whole N : Argument α)
  let responses ← powers (.ofMat s.dynamics) (.ofMat s.input) (N - 1)
  let blank ← inSquares N n m (.ofMat (0 : Mat α (N * n) (N * m)))
  writeBlocks (response responses) (placesToStates N) blank

def initialToStates (s : LinearSystem α n m) (N : Nat) (includeInitial : Bool) :
    Except Fault (BlockMatrix α) := do
  Prediction.requireHorizon (.whole N : Argument α)
  let power := if includeInitial then Mat.identity n else s.dynamics
  let blank ← inColumn N n n (.ofMat (0 : Mat α (N * n) n))
  writePowers (.ofMat s.dynamics) .ok N (.ofMat power) blank

def freeToInputs (s : LinearSystem α n m) (K : Mat α m n) (N : Nat) :
    Except Fault (BlockMatrix α) := do
  Prediction.requireHorizon (.whole N : Argument α)
  let responses ← powers (.ofMat s.dynamics) (.ofMat s.input) (N - 2)
  let blank ← inSquares N m m (.ofMat (0 : Mat α (N * m) (N * m)))
  writeBlocks (reaction K responses) (placesToInputs N) blank

def initialToInputs (s : LinearSystem α n m) (K : Mat α m n) (N : Nat) :
    Except Fault (BlockMatrix α) := do
  Prediction.requireHorizon (.whole N : Argument α)
  let blank ← inColumn N m n (.ofMat (0 : Mat α (N * m) n))
  writePowers (.ofMat s.dynamics) (Tensor.product (negated (.ofMat K))) N
    (.ofMat (Mat.identity n)) blank

/-! ### Weights -/

/-- The weight `Q - K' S' - S K + K' R K`, made symmetric. -/
def controlledWeight (Q R S K : Tensor α) : Except Fault (Tensor α) := do
  let fed ← Tensor.product (transposed K) (transposed S)
  let fed' ← Tensor.product S K
  let damped ← Tensor.product (← Tensor.product (transposed K) R) K
  averaged (← Tensor.add (← Tensor.sub (← Tensor.sub Q fed) fed') damped)

/-- The weight `S - K' R`. -/
def controlledCross (R S K : Tensor α) : Except Fault (Tensor α) := do
  Tensor.sub S (← Tensor.product (transposed K) R)

def repeated (N : Nat) (W : Tensor α) : Except Fault (BlockMatrix α) :=
  BlockMatrix.kronecker (.ofMat (Mat.identity N)) W

/-- The weights of the states `x₁, …, x_N` and the weights that couple the states with the inputs. -/
def stageWeights (problem : ConstrainedLqr α n m p) :
    Except Fault (BlockMatrix α × BlockMatrix α) := do
  let N := problem.horizon
  let states ← repeated N (.ofMat problem.controlledStateWeight)
  let cross ← repeated N (.ofMat problem.controlledCrossWeight)
  let last : Argument α := .whole (N - 1 : Nat)
  return (← states.setBlock last last (.ofMat problem.terminalWeight), cross)

/-! ### The program -/

def predicted (problem : ConstrainedLqr α n m p) : Except Fault (LinearSystem α n m) :=
  problem.system.prestabilized (.array (.ofMat problem.gain))

/-- The maps from the inputs and from the first state to the states `x₀, …, x_{N-1}`. -/
def priorStates (s : LinearSystem α n m) (N : Nat) : Except Fault (Tensor α × Tensor α) := do
  let states ← inputsToStates s N
  let prior ← shiftRows n states.toTensor
  let initial ← initialToStates s N true
  return (prior, initial.toTensor)

/-- The quadratic term `Γ' Q̄ Γ + Γ₋' S̄ + S̄' Γ₋ + R̄`, made symmetric. -/
def hessian (problem : ConstrainedLqr α n m p) : Except Fault (BlockMatrix α) := do
  let system ← predicted problem
  let N := problem.horizon
  let states := (← inputsToStates system N).toTensor
  let (prior, _) ← priorStates system N
  let (weights, cross) ← stageWeights problem
  let inputs ← repeated N (.ofMat problem.inputWeight)
  let quadratic ← Tensor.product (← Tensor.product (transposed states) weights.toTensor) states
  let coupled ← Tensor.product (transposed prior) cross.toTensor
  let coupled' ← Tensor.product (transposed cross.toTensor) prior
  let sum ← Tensor.add (← Tensor.add (← Tensor.add quadratic coupled) coupled') inputs.toTensor
  inSquares N m m (← averaged sum)

/-- The map `Γ' Q̄ Φ + S̄' Φ₀` from the first state to the linear term. -/
def linearCoefficients (problem : ConstrainedLqr α n m p) : Except Fault (BlockMatrix α) := do
  let system ← predicted problem
  let N := problem.horizon
  let states := (← inputsToStates system N).toTensor
  let initial := (← initialToStates system N false).toTensor
  let (_, prior) ← priorStates system N
  let (weights, cross) ← stageWeights problem
  let later ← Tensor.product (← Tensor.product (transposed states) weights.toTensor) initial
  let coupled ← Tensor.product (transposed cross.toTensor) prior
  inColumn N m n (← Tensor.add later coupled)

/-- The inequalities in terms of the inputs, `E Γ + F` and `-E Φ`. -/
def inputInequalities (problem : ConstrainedLqr α n m p) : Except Fault (Tensor α × Tensor α) := do
  let N := problem.horizon
  let initial := (← initialToStates problem.system N false).toTensor
  let states := (← inputsToStates problem.system N).toTensor
  let stateRows := (← repeated N (.ofMat problem.stage.states)).toTensor
  let inputRows := (← repeated N (.ofMat problem.stage.inputs)).toTensor
  let coefficients ← Tensor.add (← Tensor.product stateRows states) inputRows
  return (coefficients, ← Tensor.product (negated stateRows) initial)

/-- The inequalities in terms of the free variables, which differ from the inputs by a feedback. -/
def freeInequalities (problem : ConstrainedLqr α n m p) : Except Fault (Tensor α × Tensor α) := do
  let N := problem.horizon
  let (coefficients, coupling) ← inputInequalities problem
  if problem.isPrestabilized then
    let system ← predicted problem
    let inputs := (← freeToInputs system problem.gain N).toTensor
    let initial := (← initialToInputs system problem.gain N).toTensor
    -- The inputs are a map of the free variables plus a feedback of the first state.
    let coupling ← Tensor.sub coupling (← Tensor.product coefficients initial)
    return (← Tensor.product coefficients inputs, coupling)
  else return (coefficients, coupling)

/-- The coefficients of the free variables, those of the first state and the bounds. Without rows in
a stage there is nothing to compute. -/
def inequalities (problem : ConstrainedLqr α n m p) :
    Except Fault (BlockMatrix α × BlockMatrix α × BlockMatrix α) := do
  let N := problem.horizon
  if p = 0 then
    let coefficients ← inSquares N 0 m (.ofMat (0 : Mat α 0 (N * m)))
    let coupling ← inColumn N 0 n (.ofMat (0 : Mat α 0 n))
    let bounds ← BlockMatrix.ofTensor (.ofVec (Vec.zeros 0)) (BlockMatrix.equalSizes N 0) none
    return (coefficients, coupling, bounds)
  else
    let (coefficients, coupling) ← freeInequalities problem
    let bounds ← BlockMatrix.kronecker (.ofVec (Vector.replicate N 1)) (.ofVec problem.stage.bounds)
    return (← inSquares N p m coefficients, ← inColumn N p n coupling, bounds)

/-- All matrices of the condensed program. -/
def program (problem : ConstrainedLqr α n m p) : Except Fault (CondensedProgram.Blocks α) := do
  let (coefficients, coupling, bounds) ← inequalities problem
  let hessian ← hessian problem
  let linear ← linearCoefficients problem
  return { hessian, linear, coefficients, coupling, bounds }

end RecedingHorizon.Assembly
