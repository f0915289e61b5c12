import RecedingHorizon.Condensing.Program
import RecedingHorizon.Gradient.Minimization

/-!
# Controllers

A controller condenses a regulator problem once and then minimizes the condensed program for every
state that it meets. The minimization stays inside a set onto which points are projected. Unless such
a set is given, it is the box of the input bounds in every stage; these are bounds on the free
variables only if there is no feedback, so with one the set has to be given. Inequalities of the
stages and bounds on the states are no box in the free variables, and are left out without a set that
takes care of them.
-/

namespace RecedingHorizon

open RecedingHorizon.Gradient

/-- How a controller minimizes. -/
structure ControlSettings (α σ : Type) [Scalar α] where
  projection? : Option (Projection α) := none
  strategy : StepStrategy α σ
  /-- The largest number of iterations for one state. -/
  limit : Argument α := .whole 100
  /-- The accuracy at which a minimization stops. -/
  tolerance : Argument α := .real 1e-4
  isVerbose : Bool := false

/-- What a user should know about a controller or about a result. -/
inductive Notice where
  /-- Some constraints are left out. -/
  | unenforced
  | stopped (iterations : Nat)
  deriving Repr, DecidableEq

def Notice.text : Notice → String
  | unenforced =>
    "Stage constraints and state bounds are not enforced without an explicit projection"
  | stopped iterations => s!"FGM stopped at the iteration limit ({iterations}) before converging"

structure Controller (α σ : Type) [Scalar α] (n m p : Nat) where
  problem : ConstrainedLqr α n m p
  settings : ControlSettings α σ
  /-- The projection onto the set of the free variables. -/
  projection : Projection α
  program : CondensedProgram α problem.horizon n m p
  program_eq : program = problem.condense := by rfl
  /-- The largest eigenvalue of the quadratic term. -/
  largest : α
  /-- The smallest eigenvalue of the quadratic term, or zero if rounding took it below. -/
  smallest : α

variable {α σ : Type} [Scalar α] {n m p : Nat}

namespace ConstrainedLqr

/-- The projection onto the input bounds of all stages. -/
def inputProjection (problem : ConstrainedLqr α n m p) : Except Fault (Projection α) := do
  if !problem.inputBounds.isActive then return .identity
  if problem.isPrestabilized then throw .boxOnFreeInputs
  let bounds := problem.inputBounds
  let stage ← Box.between (.ofVec bounds.lower) (.ofVec bounds.upper) m
  return .box (← stage.repeat problem.horizon)

end ConstrainedLqr

namespace Controller

/-- The projection of a controller: the given one, or the one onto the input bounds. -/
def chooseProjection (problem : ConstrainedLqr α n m p) (projection? : Option (Projection α)) :
    Except Fault (Projection α) :=
  match projection? with
  | some projection => .ok projection
  | none => problem.inputProjection

/-- The controller for a problem. -/
def ofProblem (kit : Kernels α) (problem : ConstrainedLqr α n m p) (settings : ControlSettings α σ) :
    Except Fault (Controller α σ n m p) := do
  let projection ← chooseProjection problem settings.projection?
  let program := problem.condense
  let (largest, smallest) ← eigenvalueBounds kit program.hessian
  return { problem, settings, projection, program, largest, smallest }

/-- The number of free variables. -/
def size (c : Controller α σ n m p) : Nat := c.problem.horizon * m

def notices (c : Controller α σ n m p) : List Notice :=
  let isConstrained := c.problem.hasConstraints || c.problem.stateBounds.isActive
  if c.settings.projection?.isNone && isConstrained then [.unenforced] else []

/-- How a run of the controller is limited, and how much of it is shown. -/
def runSettings (c : Controller α σ n m p) : Settings α where
  limit := c.settings.limit
  interval := .whole (if c.settings.isVerbose then 1 else 0)

/-- One of the two standard tests holds at the accuracy of the controller. -/
def isAccurate (c : Controller α σ n m p) :
    Pipeline.Test (Iteration (Vec α (c.problem.horizon * m)) σ) := fun s => do
  let eps ← c.settings.tolerance.toNumber
  ((Condition.best eps eps true).forProgram c.size c.largest c.smallest).holds s

/-- The method of the controller for a linear term. -/
def method (c : Controller α σ n m p) (momentum : Momentum α σ)
    (b : Vec α (c.problem.horizon * m)) : Method α (Vec α (c.problem.horizon * m)) σ where
  gradient := gradientAt c.program.hessian b
  project := c.projection.applyVec
  momentum
  largest := c.largest

end Controller

end RecedingHorizon
