import RecedingHorizon.Problem.Constrained
import RecedingHorizon.System.Rollout

/-!
# The cost of a rollout

What the problem minimizes, stage by stage: the cost of a rollout is the sum of the costs of its
stages and of its last state. `holds` says that a rollout satisfies the inequalities of every stage.
-/

namespace RecedingHorizon.ConstrainedLqr

variable {α : Type} [Scalar α] {n m p : Nat}

/-- The cost `x' Q x + 2 x' S u + u' R u` of a stage. -/
def stageCost (problem : ConstrainedLqr α n m p) (x : Vec α n) (u : Vec α m) : α :=
  Vec.dot x (problem.stateWeight.mulVec x) + 2.0 * Vec.dot x (problem.crossWeight.mulVec u) +
    Vec.dot u (problem.inputWeight.mulVec u)

/-- The cost `x' P x` of the last state. -/
def terminalCost (problem : ConstrainedLqr α n m p) (x : Vec α n) : α :=
  Vec.dot x (problem.terminalWeight.mulVec x)

/-- The state of stage `k` under the free variables `v`. -/
def stateAt (problem : ConstrainedLqr α n m p) (x : Vec α n) (v : Nat → Vec α m) (k : Nat) :
    Vec α n :=
  problem.system.stateAt problem.gain x v k

/-- The input of stage `k` under the free variables `v`. -/
def inputAt (problem : ConstrainedLqr α n m p) (x : Vec α n) (v : Nat → Vec α m) (k : Nat) :
    Vec α m :=
  problem.system.inputAt problem.gain x v k

/-- The cost of the rollout of the free variables `v`. -/
def cost (problem : ConstrainedLqr α n m p) (x : Vec α n) (v : Nat → Vec α m) : α :=
  Vec.sumOver problem.horizon (fun k =>
    problem.stageCost (problem.stateAt x v k) (problem.inputAt x v k)) +
    problem.terminalCost (problem.stateAt x v problem.horizon)

/-- The amount `E x + F u - g` by which a stage exceeds its inequalities, for the state `x` that the
input `u` leads to. -/
def stageResidual (problem : ConstrainedLqr α n m p) (x : Vec α n) (u : Vec α m) : Vec α p :=
  problem.stage.states.mulVec x + problem.stage.inputs.mulVec u - problem.stage.bounds

def residualAt (problem : ConstrainedLqr α n m p) (x : Vec α n) (v : Nat → Vec α m) (k : Nat) :
    Vec α p :=
  problem.stageResidual (problem.stateAt x v (k + 1)) (problem.inputAt x v k)

end RecedingHorizon.ConstrainedLqr
