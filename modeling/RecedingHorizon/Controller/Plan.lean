import RecedingHorizon.Controller.Setup
import RecedingHorizon.System.Rollout

/-!
# Plans

For a state, a controller minimizes the condensed program over the free variables. The plan that it
makes is the rollout of the minimizer: the predicted states, and the inputs that lead to them. Only
the first input is meant to be applied.
-/

namespace RecedingHorizon

open RecedingHorizon.Gradient

/-- What a controller intends over `N` stages. -/
structure Plan (α σ : Type) (N n m : Nat) where
  outcome : Outcome (Vec α (N * m)) σ
  rollout : LinearSystem.Rollout α N n m
  /-- The objective at the end of the minimization. -/
  cost : α

variable {α σ : Type} [Scalar α] {N n m p : Nat}

namespace Plan

def free (plan : Plan α σ N n m) : Vec α (N * m) := plan.outcome.point

/-- A stopping condition held. -/
def isOptimal (plan : Plan α σ N n m) : Bool := plan.outcome.status == .optimal

def control (plan : Plan α σ N n m) (h : 1 ≤ N) : Vec α m := plan.rollout.inputs.row ⟨0, h⟩

/-- What a user should know about the plan. -/
def notices (plan : Plan α σ N n m) : List Notice :=
  if plan.outcome.status == .maxIterations then [.stopped plan.outcome.iterations] else []

end Plan

namespace Controller

/-- The plan for a state, from a starting point on. -/
def plan (c : Controller α σ n m p) (x : Vec α n)
    (start : Vec α (c.problem.horizon * m)) : Except Fault (Plan α σ c.problem.horizon n m) := do
  c.runSettings.check
  let momentum ← c.settings.strategy.forBounds (.real c.largest) (.real c.smallest)
  let method := c.method momentum (c.program.linearTerm x)
  let outcome ← method.minimize start [c.isAccurate] c.runSettings none
  let rollout := c.problem.system.rollout c.problem.gain x outcome.point
  return { outcome, rollout, cost := c.program.objective x outcome.point }

/-- The plan for an array that is a state, from an array of free variables or from the origin on. -/
def solve (c : Controller α σ n m p) (x : Tensor α) (start? : Option (Tensor α)) :
    Except Fault (Plan α σ c.problem.horizon n m) := do
  match x.toVec? n with
  | some state => c.plan state (← readStart (c.problem.horizon * m) start?)
  | none => throw (.wrongVectorShape "x0" [n] x.shape)

end Controller

end RecedingHorizon
