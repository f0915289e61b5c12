/-!
# Kinds of terminal weight

The weight of the last state is the weight of every other stage, the solution of one of two matrix
equations, or a matrix that was given.
-/

namespace RecedingHorizon

/-- How the weight of the last state is chosen. -/
inductive TerminalWeight where
  /-- The weight of the other stages. -/
  | stage
  /-- The solution of the Riccati equation. -/
  | riccati
  /-- The solution of the Lyapunov equation of the closed loop. -/
  | lyapunov
  /-- A matrix that was given. -/
  | explicit
  deriving Repr, DecidableEq, Inhabited

namespace TerminalWeight

def all : List TerminalWeight := [stage, riccati, lyapunov, explicit]

def text : TerminalWeight → String
  | stage => "Q"
  | riccati => "dare"
  | lyapunov => "dlyap"
  | explicit => "explicit"

def name : TerminalWeight → String
  | stage => "STAGE"
  | riccati => "RICCATI"
  | lyapunov => "LYAPUNOV"
  | explicit => "EXPLICIT"

def ofText? : String → Option TerminalWeight
  | "Q" => some stage
  | "dare" => some riccati
  | "dlyap" => some lyapunov
  | "explicit" => some explicit
  | _ => none

theorem ofText?_text (w : TerminalWeight) : ofText? w.text = some w := by cases w <;> rfl

end TerminalWeight

end RecedingHorizon
