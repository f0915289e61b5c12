import RecedingHorizon.Argument.Checked
import RecedingHorizon.Problem.Constrained
import RecedingHorizon.Problem.Regulator

/-!
# Specifications of regulator problems

A specification says loosely what a problem is: weights may be scalars, a gain and a terminal weight
may be asked for by name, and most parts may be left out. `Specification.problem` checks every part
against the system and builds the problem; the first part that does not fit is reported.
-/

namespace RecedingHorizon

/-- How the terminal weight is given: by its kind, or as an argument that names a kind or is the
weight itself. -/
inductive TerminalChoice (α : Type) where
  | kind (w : TerminalWeight)
  | given (a : Argument α)

/-- What is known about a problem for a system. -/
structure Specification (α : Type) where
  horizon : Argument α
  stateWeight : Argument α
  inputWeight : Argument α
  terminal : TerminalChoice α := .kind .riccati
  crossWeight : Argument α := .nothing
  gain : Argument α := .nothing
  stageStates : Argument α := .nothing
  stageInputs : Argument α := .nothing
  stageBounds : Argument α := .nothing
  stateLower : Argument (Extended α) := .real .bottom
  stateUpper : Argument (Extended α) := .real .top
  inputLower : Argument (Extended α) := .real .bottom
  inputUpper : Argument (Extended α) := .real .top

namespace Specification

variable {α : Type} [Scalar α] {n m : Nat}

/-- A number of stages. -/
abbrev Horizon := { N : Nat // 1 ≤ N }

/-- Whether an argument with the given whole part has no other one. -/
def isEqualTo (a : Argument α) (N : Nat) : Bool :=
  match a with
  | .text _ => false
  | .real x => x == Scalar.ofNat N
  | .array t => t.toList.all (· == Scalar.ofNat N)
  | _ => true

/-- The number of stages that an argument is: a whole number, at least one. -/
def readHorizon (a : Argument α) : Except Fault Horizon := do
  let N := (← a.wholePart).toNat
  if h : 1 ≤ N then
    if isEqualTo a N then return ⟨N, h⟩
  throw (.horizonTooShort a.shown)

def readWeights (state input : Argument α) : Except Fault (Mat α n n × Mat α m m) := do
  let state ← state.toMatrix (.whole n) "Q"
  let input ← input.toMatrix (.whole m) "R"
  -- The sizes of both weights come before the symmetry of either.
  let Q ← state.matrixOfSize n n "Q"
  let R ← input.matrixOfSize m m "R"
  state.requireSymmetric "Q" symmetryTolerance
  input.requirePositiveDefinite "R" symmetryTolerance
  return (Q, R)

/-- The cross weight; zero if it is not given. -/
def readCross (a : Argument α) : Except Fault (Mat α n m) := do
  if !a.isGiven then return 0
  (← a.toMatrix .nothing "S").matrixOfSize n m "S"

/-- The gain: zero if it is not given or the number zero, the regulator's by its name, or a matrix,
where a list is the one row of a gain for a single input. -/
def readGain (kit : Kernels α) (system : LinearSystem α n m) (Q : Mat α n n) (R : Mat α m m)
    (S : Mat α n m) (a : Argument α) : Except Fault (Mat α m n) := do
  match a with
  | .nothing => return 0
  | .text "dlqr" => Regulator.gain kit system.dynamics system.input Q R S
  | .text _ => throw (.unknownGain a.quotedText m n)
  | .array ⟨[k], cells⟩ =>
    let row : Vec α k := cells
    Tensor.matrixOfSize (.ofMat (Mat.ofRow row)) m n "K"
  | .array _ => (← a.toMatrix .nothing "K").matrixOfSize m n "K"
  | a => if (← a.toScalar) == 0 then return 0 else throw (.gainNotMatrix m n)

/-- The coefficients of one kind of variable in the inequalities. Without them they are zero, and a
list is the one column of a single variable. -/
def readCoefficients (a : Argument α) (rows size : Nat) : Except Fault (Tensor α) := do
  if !a.isGiven then return .ofMat (0 : Mat α rows size)
  match ← a.toTensor with
  | ⟨[k], cells⟩ =>
    let column : Vec α k := cells
    return if size = 1 then .ofMat (Mat.ofColumn column) else .ofVec column
  | t => return t

def readStage (n m : Nat) (states inputs bounds : Argument α) :
    Except Fault (Σ p, StageConstraints α n m p) := do
  if !states.isGiven && !inputs.isGiven && !bounds.isGiven then
    return ⟨0, { states := 0, inputs := 0, bounds := Vec.zeros 0 }⟩
  if !bounds.isGiven then throw .stageBoundMissing
  -- The length of the bound decides how many rows a missing coefficient matrix has.
  let entries := (← bounds.toTensor).toList
  let states ← readCoefficients states entries.length n
  let inputs ← readCoefficients inputs entries.length m
  match states, inputs with
  | ⟨[k, l], E⟩, ⟨[k', l'], F⟩ =>
    let E : Mat α k l := ⟨E⟩
    let F : Mat α k' l' := ⟨F⟩
    if h : k = k' then
      if hg : entries.length = k' then
        if hE : l = n then
          if hF : l' = m then
            return ⟨k', {
              states := (h ▸ hE ▸ E)
              inputs := (hF ▸ F)
              bounds := Vec.ofList entries hg }⟩
          else throw (.stageInputColumns m)
        else throw (.stageStateColumns n)
      else throw (.stageBoundRows k')
    else throw .stageRowsDiffer
  | _, _ => throw .stageNotTwoDimensional

/-- The weight of the last state of a given kind. -/
def terminalOfKind (kit : Kernels α) (system : LinearSystem α n m) (Q : Mat α n n) (R : Mat α m m)
    (S : Mat α n m) (K : Mat α m n) : TerminalWeight → Except Fault (Mat α n n)
  | .explicit => .error .explicitTerminalWeight
  | .stage => .ok (controlledWeight Q R S K)
  | .riccati =>
    match kit.riccati system.dynamics system.input Q R S with
    | some X => .ok X.symmetrize
    | none => .error .riccatiUnsolved
  | .lyapunov =>
    match kit.lyapunov (system.closedLoop K).dynamics.transpose (controlledWeight Q R S K) with
    | some X => .ok X.symmetrize
    | none => .error .lyapunovUnsolved

def readTerminal (kit : Kernels α) (system : LinearSystem α n m) (Q : Mat α n n) (R : Mat α m m)
    (S : Mat α n m) (K : Mat α m n) (choice : TerminalChoice α) :
    Except Fault (TerminalWeight × Mat α n n) := do
  let ofKind (w : TerminalWeight) : Except Fault (TerminalWeight × Mat α n n) := do
    return (w, ← terminalOfKind kit system Q R S K w)
  match choice with
  | .kind w => ofKind w
  | .given (.text s) =>
    match TerminalWeight.ofText? s with
    | some w => ofKind w
    | none => throw (.unknownTerminalWeight (quoted s) n)
  | .given a =>
    let weight ← a.toMatrix (.whole n) "P"
    let P ← weight.matrixOfSize n n "P"
    weight.requireSymmetric "P" symmetryTolerance
    return (.explicit, P)

/-- The bounds of states and inputs, which have to leave room between them. -/
def readBounds (n m : Nat) (spec : Specification α) :
    Except Fault (Bounds α n × Bounds α m) := do
  let states : Bounds α n :=
    { lower := ← spec.stateLower.toBoundVector n "x_lower"
      upper := ← spec.stateUpper.toBoundVector n "x_upper" }
  let inputs : Bounds α m :=
    { lower := ← spec.inputLower.toBoundVector m "u_lower"
      upper := ← spec.inputUpper.toBoundVector m "u_upper" }
  if states.areCrossed || inputs.areCrossed then throw .boundsCross
  return (states, inputs)

def problem (kit : Kernels α) (system : LinearSystem α n m) (spec : Specification α) :
    Except Fault (SomeProblem α n m) := do
  let ⟨horizon, horizon_pos⟩ ← readHorizon spec.horizon
  let (Q, R) ← readWeights spec.stateWeight spec.inputWeight
  let S ← readCross spec.crossWeight
  let K ← readGain kit system Q R S spec.gain
  let ⟨_, stage⟩ ← readStage n m spec.stageStates spec.stageInputs spec.stageBounds
  let (terminalKind, terminalWeight) ← readTerminal kit system Q R S K spec.terminal
  let (stateBounds, inputBounds) ← readBounds n m spec
  let problem : ConstrainedLqr α n m _ :=
    { system
      horizon
      horizon_pos
      stateWeight := Q
      inputWeight := R
      crossWeight := S
      gain := K
      terminalKind
      terminalWeight
      stage
      stateBounds
      inputBounds }
  return { problem }

end Specification

end RecedingHorizon
