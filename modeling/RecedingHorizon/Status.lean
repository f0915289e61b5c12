/-!
# Outcomes of a run

A run of the solver ends because a stopping condition held or because the iteration limit was
reached; before any run the outcome is open.
-/

namespace RecedingHorizon

/-- How a run ended. -/
inductive Status where
  | optimal
  | maxIterations
  | unsolved
  deriving Repr, DecidableEq, Inhabited

namespace Status

def text : Status → String
  | optimal => "optimal"
  | maxIterations => "max_iterations"
  | unsolved => "unsolved"

def name : Status → String
  | optimal => "OPTIMAL"
  | maxIterations => "MAX_ITERATIONS"
  | unsolved => "UNSOLVED"

def ofText? : String → Option Status
  | "optimal" => some optimal
  | "max_iterations" => some maxIterations
  | "unsolved" => some unsolved
  | _ => none

/-- A stopping condition held. -/
def isSuccessful (s : Status) : Bool := s == optimal

/-- There is an iterate to use, if perhaps not the best one. -/
def hasSolution (s : Status) : Bool := s == optimal || s == maxIterations

theorem ofText?_text (s : Status) : ofText? s.text = some s := by cases s <;> rfl

end Status

end RecedingHorizon
