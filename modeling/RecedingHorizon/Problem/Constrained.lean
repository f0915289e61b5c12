import RecedingHorizon.Problem.TerminalWeight
import RecedingHorizon.System.Linear

/-!
# Constrained regulator problems

A problem asks for the inputs over a horizon that make a quadratic cost of the states and inputs as
small as possible, while every stage satisfies linear inequalities and both states and inputs stay
within bounds. The inputs may be given through a feedback `u = v - K x`; then the free variables are
the `v`, and `controlledWeight` and `controlledCross` are the weights of a stage in terms of `x` and
`v`.
-/

namespace RecedingHorizon

/-- The inequalities `states * x + inputs * u ≤ bounds` of a stage, where `x` is the state that the
input `u` leads to. -/
structure StageConstraints (α : Type) (n m p : Nat) where
  states : Mat α p n
  inputs : Mat α p m
  bounds : Vec α p

/-- The interval of every entry of a vector. -/
structure Bounds (α : Type) (n : Nat) where
  lower : Vec (Extended α) n
  upper : Vec (Extended α) n

namespace Bounds

variable {α : Type} {n : Nat}

def isActive (b : Bounds α n) : Bool :=
  b.lower.toList.any Extended.isFinite || b.upper.toList.any Extended.isFinite

/-- Some lower bound exceeds the upper bound of its entry. -/
def areCrossed [Scalar α] (b : Bounds α n) : Bool :=
  (List.zipWith Extended.lt b.upper.toList b.lower.toList).any id

end Bounds

/-- A regulator problem with `n` states, `m` inputs and `p` inequalities in each stage. -/
structure ConstrainedLqr (α : Type) (n m p : Nat) where
  system : LinearSystem α n m
  /-- The number of stages. -/
  horizon : Nat
  horizon_pos : 1 ≤ horizon
  /-- The weight `Q` of a state. -/
  stateWeight : Mat α n n
  /-- The weight `R` of an input. -/
  inputWeight : Mat α m m
  /-- The weight `S` that couples a state with the input of its stage. -/
  crossWeight : Mat α n m
  /-- The gain `K` of the feedback. -/
  gain : Mat α m n
  terminalKind : TerminalWeight
  /-- The weight `P` of the last state. -/
  terminalWeight : Mat α n n
  stage : StageConstraints α n m p
  stateBounds : Bounds α n
  inputBounds : Bounds α m

structure SomeProblem (α : Type) (n m : Nat) where
  {rows : Nat}
  problem : ConstrainedLqr α n m rows

section

variable {α : Type} [Scalar α] {n m p : Nat}

/-- The weight `Q - K' S' - S K + K' R K` of a state under the feedback, made symmetric. -/
def controlledWeight (Q : Mat α n n) (R : Mat α m m) (S : Mat α n m) (K : Mat α m n) : Mat α n n :=
  (Q - K.transpose * S.transpose - S * K + K.transpose * R * K).symmetrize

/-- The weight `S - K' R` of a state and a free variable under the feedback. -/
def controlledCross (R : Mat α m m) (S : Mat α n m) (K : Mat α m n) : Mat α n m :=
  S - K.transpose * R

namespace ConstrainedLqr

def controlledStateWeight (problem : ConstrainedLqr α n m p) : Mat α n n :=
  controlledWeight problem.stateWeight problem.inputWeight problem.crossWeight problem.gain

def controlledCrossWeight (problem : ConstrainedLqr α n m p) : Mat α n m :=
  controlledCross problem.inputWeight problem.crossWeight problem.gain

def closedLoop (problem : ConstrainedLqr α n m p) : LinearSystem α n m :=
  problem.system.closedLoop problem.gain

/-- The system that is predicted: under the feedback or as it is. -/
def predicted (problem : ConstrainedLqr α n m p) (prestabilized : Bool) : LinearSystem α n m :=
  if prestabilized then problem.closedLoop else problem.system

def isPrestabilized (problem : ConstrainedLqr α n m p) : Bool := problem.gain.anyEntry (· != 0)

def hasCrossWeight (problem : ConstrainedLqr α n m p) : Bool :=
  problem.crossWeight.anyEntry (· != 0)

def hasConstraints (_ : ConstrainedLqr α n m p) : Bool := decide (0 < p)

/-! ### Texts -/

def describe (problem : ConstrainedLqr α n m p) : String :=
  let word (b : Bool) : String := if b then "yes" else "no"
  "\n".intercalate
    [s!"Constrained LQR: N={problem.horizon}, n_x={n}, n_u={m}",
      "Terminal weight:  " ++ problem.terminalKind.name,
      "Cross term:       " ++ word problem.hasCrossWeight,
      "Prestabilized:    " ++ word problem.isPrestabilized,
      s!"Stage rows:       {p}",
      "State bounds:     " ++ word problem.stateBounds.isActive,
      "Input bounds:     " ++ word problem.inputBounds.isActive]

def description (problem : ConstrainedLqr α n m p) : String :=
  s!"ConstrainedLQR(N={problem.horizon}, n_x={n}, n_u={m}, P=" ++ problem.terminalKind.text ++
    ", prestabilized=" ++ (if problem.isPrestabilized then "True" else "False") ++ ")"

/-! ### Immutability -/

/-- What a problem is called in a message. -/
def typeName : String := "ConstrainedLQR"

/-- The parts of a problem that are arrays. -/
def arrayNames : List String :=
  ["Q", "R", "S", "K", "Q_k", "S_k", "P", "E", "F", "g", "x_lower", "x_upper", "u_lower", "u_upper"]

/-- The parts of a problem that are not arrays. -/
def otherNames : List String :=
  ["system", "N", "terminal_weight", "n_states", "n_inputs", "n_constraints", "is_prestabilized",
    "has_constraints", "has_state_bounds", "has_input_bounds", "get_system", "describe"]

/-- Why an entry of a part of a problem cannot be overwritten. -/
def writeFault (part : String) : Fault :=
  if arrayNames.contains part then .readOnly
  else if otherNames.contains part then .wrongType
  else .missingAttribute

end ConstrainedLqr

end

end RecedingHorizon
