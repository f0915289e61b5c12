import RecedingHorizon.Blocks.Kronecker
import RecedingHorizon.Condensing.Prediction
import RecedingHorizon.Constraint.Polytope
import RecedingHorizon.Problem.Constrained

/-!
# Condensed programs

Once the states are eliminated, a regulator problem is a quadratic program in the stack `v` of the
free variables, whose data depend on the first state `x₀`:

    minimize  v' H v + 2 x₀' J' v   subject to  G v ≤ g + L x₀.

`ConstrainedLqr.condense` builds the five matrices from the predictions and the weights of all
stages.
-/

namespace RecedingHorizon

/-- A quadratic program over `N` stages with `n` states, `m` free variables and `p` inequalities in
each stage. -/
structure CondensedProgram (α : Type) (N n m p : Nat) where
  /-- The quadratic term `H`. -/
  hessian : Mat α (N * m) (N * m)
  /-- The map `J` from the first state to the linear term. -/
  linear : Mat α (N * m) n
  /-- The coefficients `G` of the inequalities. -/
  coefficients : Mat α (N * p) (N * m)
  /-- The part `L` of the right side that depends on the first state. -/
  coupling : Mat α (N * p) n
  /-- The constant part `g` of the right side. -/
  bounds : Vec α (N * p)

variable {α : Type} [Scalar α] {n m p : Nat}

namespace ConstrainedLqr

/-! ### Weights of all stages -/

/-- A weight repeated for every stage. -/
def repeated {k l : Nat} (N : Nat) (W : Mat α k l) : Mat α (N * k) (N * l) :=
  (Mat.identity N).kronecker W

/-- The weights of the states `x₁, …, x_N`: the terminal one for the last. -/
def stateWeights (problem : ConstrainedLqr α n m p) :
    Mat α (problem.horizon * n) (problem.horizon * n) :=
  let weights := repeated problem.horizon problem.controlledStateWeight
  let last := problem.horizon - 1
  Mat.ofFn fun i j =>
    if (Stacked.stage i).val = last ∧ (Stacked.stage j).val = last then
      problem.terminalWeight (Stacked.position i) (Stacked.position j)
    else weights i j

/-! ### The program -/

/-- The quadratic term `Γ' Q̄ Γ + Γ₋' S̄ + S̄' Γ₋ + R̄`, made symmetric. -/
def hessian (problem : ConstrainedLqr α n m p) :
    Mat α (problem.horizon * m) (problem.horizon * m) :=
  let N := problem.horizon
  let system := problem.closedLoop
  let states := Prediction.inputsToStates system N
  let prior := Prediction.inputsToPriorStates system N
  let cross := repeated N problem.controlledCrossWeight
  (states.transpose * problem.stateWeights * states + prior.transpose * cross +
    cross.transpose * prior + repeated N problem.inputWeight).symmetrize

/-- The map `Γ' Q̄ Φ + S̄' Φ₀` from the first state to the linear term. -/
def linearCoefficients (problem : ConstrainedLqr α n m p) : Mat α (problem.horizon * m) n :=
  let N := problem.horizon
  let system := problem.closedLoop
  let states := Prediction.inputsToStates system N
  let cross := repeated N problem.controlledCrossWeight
  states.transpose * problem.stateWeights * Prediction.initialToStates system N +
    cross.transpose * Prediction.initialToPriorStates system N

/-- Inequalities `coefficients * v ≤ bounds + coupling * x₀`. -/
structure Inequalities (α : Type) (N n m p : Nat) where
  coefficients : Mat α (N * p) (N * m)
  coupling : Mat α (N * p) n
  bounds : Vec α (N * p)

/-- The inequalities of all stages in terms of the inputs. -/
def inputInequalities (problem : ConstrainedLqr α n m p) :
    Inequalities α problem.horizon n m p :=
  let N := problem.horizon
  let stateRows := repeated N problem.stage.states
  { coefficients := stateRows * Prediction.inputsToStates problem.system N +
      repeated N problem.stage.inputs
    coupling := -stateRows * Prediction.initialToStates problem.system N
    bounds := Vec.kronecker (Vector.replicate N 1) problem.stage.bounds }

/-- The inequalities of all stages in terms of the free variables. -/
def inequalities (problem : ConstrainedLqr α n m p) : Inequalities α problem.horizon n m p :=
  let N := problem.horizon
  let plain := problem.inputInequalities
  if problem.isPrestabilized then
    let closed := problem.closedLoop
    { coefficients := plain.coefficients * Prediction.freeToInputs closed problem.gain N
      coupling := plain.coupling -
        plain.coefficients * Prediction.initialToInputs closed problem.gain N
      bounds := plain.bounds }
  else plain

def condense (problem : ConstrainedLqr α n m p) : CondensedProgram α problem.horizon n m p :=
  let rows := problem.inequalities
  { hessian := problem.hessian
    linear := problem.linearCoefficients
    coefficients := rows.coefficients
    coupling := rows.coupling
    bounds := rows.bounds }

end ConstrainedLqr

namespace CondensedProgram

variable {N : Nat}

/-- The linear term `J x₀`. -/
def linearTerm (qp : CondensedProgram α N n m p) (x : Vec α n) : Vec α (N * m) :=
  qp.linear.mulVec x

/-- The objective `v' H v + 2 x₀' J' v`. -/
def objective (qp : CondensedProgram α N n m p) (x : Vec α n) (v : Vec α (N * m)) : α :=
  Vec.dot v (qp.hessian.mulVec v) + 2.0 * Vec.dot (qp.linearTerm x) v

/-- The right side `g + L x₀`. -/
def rightSide (qp : CondensedProgram α N n m p) (x : Vec α n) : Vec α (N * p) :=
  qp.bounds + qp.coupling.mulVec x

/-- The feasible set `G v ≤ g + L x₀`. -/
def feasibleSet (qp : CondensedProgram α N n m p) (x : Vec α n) : Polytope α (N * p) (N * m) :=
  ⟨qp.coefficients, qp.rightSide x⟩

/-! ### Arrays of first states -/

def linearTermOf (qp : CondensedProgram α N n m p) (x : Tensor α) : Except Fault (Tensor α) :=
  Tensor.product (.ofMat qp.linear) x

def rightSideOf (qp : CondensedProgram α N n m p) (x : Tensor α) : Except Fault (Tensor α) := do
  Tensor.add (.ofVec qp.bounds) (← Tensor.product (.ofMat qp.coupling) x)

def feasibleSetOf (qp : CondensedProgram α N n m p) (x : Tensor α) :
    Except Fault (SomePolytope α) := do
  Polytope.ofTensors (.ofMat qp.coefficients) (← qp.rightSideOf x)

/-- The left side less the right side, for arrays of free variables and first states. -/
def residualOf (qp : CondensedProgram α N n m p) (v x : Tensor α) : Except Fault (Tensor α) := do
  let left ← Tensor.product (.ofMat qp.coefficients) v
  Tensor.sub left (← qp.rightSideOf x)

section

variable (qp : CondensedProgram α N n m p) (x : Vec α n)

theorem linearTermOf_ofVec : qp.linearTermOf (.ofVec x) = .ok (.ofVec (qp.linearTerm x)) :=
  Tensor.product_ofMat_ofVec _ x

theorem rightSideOf_ofVec : qp.rightSideOf (.ofVec x) = .ok (.ofVec (qp.rightSide x)) := by
  rw [rightSideOf, Tensor.product_ofMat_ofVec]
  exact Tensor.add_ofVec _ _

theorem feasibleSetOf_ofVec :
    qp.feasibleSetOf (.ofVec x) = .ok { polytope := qp.feasibleSet x } := by
  rw [feasibleSetOf, rightSideOf_ofVec]
  exact Polytope.ofTensors_ofMat_ofVec _ _

theorem residualOf_ofVec (v : Vec α (N * m)) :
    qp.residualOf (.ofVec v) (.ofVec x) = .ok (.ofVec ((qp.feasibleSet x).residual v)) := by
  rw [residualOf, Tensor.product_ofMat_ofVec, rightSideOf_ofVec]
  exact Tensor.sub_ofVec _ _

end

end CondensedProgram

end RecedingHorizon
