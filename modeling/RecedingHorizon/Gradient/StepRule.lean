import RecedingHorizon.Argument.Basic
import RecedingHorizon.Numeric.Kernels
import RecedingHorizon.Scalar.Checked

/-!
# Momentum rules

After each gradient step the method moves on in the direction of the last change, by a factor `β`. What
a run needs is a `Momentum`: something that is remembered at the start, and for what is remembered the
next factor and what is remembered after it. A `StepStrategy` finds one for the bounds `L` and `μ` on the
eigenvalues of the Hessian, or refuses them; what it remembers is its own matter.

Some strategies have names. The constant rule takes one value from the bounds; the other rule follows a
recurrence whose state is a pair `(α₋, α)`: the next `α₊` is the root of
`(1 - α₊) α² + (μ/L) α₊ - α₊²` between zero and one, and `β = α (1 - α) / (α² + α₊)`. A rule that is left
open has neither.
-/

namespace RecedingHorizon.Gradient

/-- How a run finds its factors, remembering something of type `σ` between iterations. -/
structure Momentum (α σ : Type) where
  name : String
  /-- What is remembered at the start. -/
  initialState : Except Fault σ
  /-- The factor of an iteration and what is remembered after it. -/
  next : σ → Except Fault (α × σ)

/-- The momentum for bounds on the eigenvalues. -/
structure StepStrategy (α σ : Type) where
  forBounds : (largest smallest : Argument α) → Except Fault (Momentum α σ)

/-! ### Strategies with a name -/

/-- How large the momentum is. -/
inductive StepRule (α : Type) where
  /-- The same factor in every iteration. -/
  | constant (factor : α)
  /-- The recurrence for given bounds on the eigenvalues. -/
  | recurrence (largest smallest : α)
  | unspecified

/-- What a rule remembers between iterations; the constant one has nothing to remember. -/
abbrev StepState (α : Type) := Option (α × α)

namespace StepRule

variable {α : Type} [Scalar α]

/-- The constant rule before the bounds are known. -/
def defaultConstant : StepRule α := constant 1

def defaultRecurrence : StepRule α := recurrence 1 1

/-- The rule with a given name. -/
def ofText? : String → Option (StepRule α)
  | "constant" => some defaultConstant
  | "variable" => some defaultRecurrence
  | _ => none

/-- The rule that is asked for by name. -/
def ofArgument (a : Argument α) : Except Fault (StepRule α) :=
  match a with
  | .array _ => .error .wrongType
  | .text s =>
    match ofText? s with
    | some rule => .ok rule
    | none => .error (.unknownStep a.quotedText)
  | _ => .error (.unknownStep a.shown)

def name : StepRule α → String
  | constant _ => "ConstantStep"
  | recurrence .. => "VariableStep"
  | unspecified => "StepSize"

/-- The factor `(√L - √μ) / (√L + √μ)`. -/
def factorFor (largest smallest : α) : α :=
  (Scalar.sqrt largest - Scalar.sqrt smallest) / (Scalar.sqrt largest + Scalar.sqrt smallest)

/-- The rule for bounds on the eigenvalues. The recurrence needs a positive lower bound. -/
def forBounds (rule : StepRule α) (largest smallest : Argument α) : Except Fault (StepRule α) := do
  match rule with
  | constant _ => return constant (factorFor (← largest.toScalar) (← smallest.toScalar))
  | recurrence .. =>
    let bound ← smallest.toScalar
    if bound ≤ 0 then throw (.convexityMissing smallest.shown)
    return recurrence (← largest.toScalar) bound
  | unspecified => throw .missingMethod

/-- The ratio `μ / L` of the recurrence. -/
def ratio? : StepRule α → Option (Except Fault α)
  | recurrence largest smallest => some (Scalar.quotient smallest largest)
  | _ => none

/-- What the rule remembers at the start: for the recurrence, the square root of the ratio twice. -/
def initialState (rule : StepRule α) : Except Fault (StepState α) := do
  match rule with
  | recurrence largest smallest =>
    let start := Scalar.sqrt (← Scalar.quotient smallest largest)
    return some (start, start)
  | _ => return none

/-- The polynomial whose root is the next `α`. -/
def residual (ratio squared next : α) : α := (1 - next) * squared + ratio * next - next * next

/-- One step of the recurrence from `α`: the factor and the next `α`. -/
def advance (kit : Kernels α) (ratio current : α) : Except Fault (α × α) := do
  let squared ← Scalar.square current
  match kit.rootBetween (residual ratio squared) 0 1 with
  | none => throw .recurrenceWithoutRoot
  | some next => return (← Scalar.quotient (current * (1 - current)) (squared + next), next)

/-- The factor of an iteration and what is remembered after it. -/
def next (kit : Kernels α) (rule : StepRule α) (state : StepState α) :
    Except Fault (α × StepState α) := do
  match rule with
  | constant factor => return (factor, state)
  | recurrence largest smallest =>
    match state with
    | none => throw .wrongType
    | some (_, current) =>
      let ratio ← Scalar.quotient smallest largest
      let (factor, next) ← advance kit ratio current
      return (factor, some (current, next))
  | unspecified => throw .missingMethod

/-- The rule as it is used in a run. -/
def momentum (kit : Kernels α) (rule : StepRule α) : Momentum α (StepState α) where
  name := rule.name
  initialState := rule.initialState
  next := rule.next kit

def strategy (kit : Kernels α) (rule : StepRule α) : StepStrategy α (StepState α) where
  forBounds largest smallest := do return (← rule.forBounds largest smallest).momentum kit

/-- The factors of so many iterations, each with what is remembered after it. -/
def factors (kit : Kernels α) (rule : StepRule α) :
    (count : Nat) → StepState α → Except Fault (List (α × StepState α))
  | 0, _ => return []
  | count + 1, state => do
    let step ← next kit rule state
    return step :: (← factors kit rule count step.2)

end StepRule

end RecedingHorizon.Gradient
