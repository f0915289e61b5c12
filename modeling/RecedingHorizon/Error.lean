import RecedingHorizon.Scalar.Extended

/-!
# Faults

Everything that can go wrong, by cause. A fault carries the data of its message; `Fault.kind` says
which family it belongs to and `Fault.message?` words it. Faults of array arithmetic (shapes that
do not fit, an index out of range, a text where a number is wanted) have a kind and no words of
their own.
-/

namespace RecedingHorizon

/-- The families of faults. -/
inductive FaultKind where
  /-- Sizes that do not conform. -/
  | dimension
  /-- An argument outside the domain of the operation. -/
  | domain
  /-- An unknown name or missing information. -/
  | invalidInput
  /-- A constraint set without points. -/
  | infeasible
  /-- A numerical method that found no answer. -/
  | numerical
  | value
  | type
  | index
  | attribute
  | key
  | overflow
  | zeroDivision
  | linearAlgebra
  | notImplemented
  | frozen
  deriving Repr, DecidableEq, Inhabited

/-- A shape in a message: its sizes in parentheses, a single one with a comma behind it. -/
def shapeText : List Nat → String
  | [] => "()"
  | [n] => s!"({n},)"
  | shape => "(" ++ ", ".intercalate (shape.map toString) ++ ")"

inductive Fault where
  -- sizes
  | scalarNeedsSize (name : String)
  | notTwoDimensional (name : String) (shape : List Nat)
  | entryCount (name : String) (expected actual : Nat)
  | wrongShape (name : String) (expected actual : List Nat)
  | wrongVectorShape (name : String) (expected actual : List Nat)
  | notSquare (name : String) (shape : List Nat)
  | inputRows (rows states : Nat)
  | outputColumns (states : Nat)
  | feedthroughColumns (inputs : Nat)
  | boundLengths
  | polytopeRows
  | gainNotMatrix (inputs states : Nat)
  | stageBoundMissing
  | stageNotTwoDimensional
  | stageRowsDiffer
  | stageBoundRows (rows : Nat)
  | stageStateColumns (states : Nat)
  | stageInputColumns (inputs : Nat)
  -- domains
  | horizonTooShort (given : String)
  | undefinedBound (name : String)
  | notSymmetric (name : String)
  | notPositiveDefinite (name : String)
  | boundsCross
  | unstableSystem
  | crossTermPresent
  | convexityMissing (given : String)
  -- names and information
  | unknownGain (given : String) (inputs states : Nat)
  | unknownTerminalWeight (given : String) (states : Nat)
  | explicitTerminalWeight
  | unknownConditionKind (given : String)
  | samplingPoints (given : String)
  | negativeLimit (name given : String)
  | boxOnFreeInputs
  | unknownStep (given : String)
  | eigenvalueMissing
  | conditionMissing
  -- numerical methods
  | emptyConstraintSet
  | riccatiUnsolved
  | lyapunovUnsolved
  | recurrenceWithoutRoot
  | quadraticProgramFailed
  -- arguments of a single operation
  | periodTooSmall (given : String)
  | rowBlocks (sum : Int) (rows : Nat)
  | columnBlocks (sum : Int) (columns : Nat)
  | columnBlocksOfVector
  | blockDataRank (rank : Nat)
  | boxNeedsSize
  | boxCrosses
  | columnBlockOfVector
  | columnBlockMissing
  | immutable (name : String)
  | unknownMember
  | missingMethod
  -- array arithmetic
  | incompatibleShapes
  | notNumeric
  | emptyReduction
  | readOnly
  | limitOutOfRange
  | negativeLength
  | wrongType
  | outOfRange
  | unknownName
  | missingAttribute
  | tooLarge
  | divisionByZero
  | singular
  | frozenField
  deriving Repr, DecidableEq, Inhabited

namespace Fault

def kind : Fault → FaultKind
  | scalarNeedsSize _ | notTwoDimensional .. | entryCount .. | wrongShape .. | wrongVectorShape ..
  | notSquare .. | inputRows .. | outputColumns _ | feedthroughColumns _ | boundLengths
  | polytopeRows | gainNotMatrix .. | stageBoundMissing | stageNotTwoDimensional
  | stageRowsDiffer | stageBoundRows _ | stageStateColumns _ | stageInputColumns _ => .dimension
  | horizonTooShort _ | undefinedBound _ | notSymmetric _ | notPositiveDefinite _ | boundsCross
  | unstableSystem | crossTermPresent | convexityMissing _ => .domain
  | unknownGain .. | unknownTerminalWeight .. | explicitTerminalWeight | unknownConditionKind _
  | samplingPoints _ | negativeLimit .. | boxOnFreeInputs | unknownStep _ | eigenvalueMissing
  | conditionMissing => .invalidInput
  | emptyConstraintSet => .infeasible
  | riccatiUnsolved | lyapunovUnsolved | recurrenceWithoutRoot | quadraticProgramFailed => .numerical
  | periodTooSmall _ | rowBlocks .. | columnBlocks .. | columnBlocksOfVector | blockDataRank _
  | boxNeedsSize | boxCrosses | unknownMember | incompatibleShapes | notNumeric | emptyReduction
  | readOnly | limitOutOfRange | negativeLength => .value
  | columnBlockOfVector | columnBlockMissing | outOfRange => .index
  | immutable _ | missingAttribute => .attribute
  | missingMethod => .notImplemented
  | wrongType => .type
  | unknownName => .key
  | tooLarge => .overflow
  | divisionByZero => .zeroDivision
  | singular => .linearAlgebra
  | frozenField => .frozen

/-- The words of a fault, without the label of its family. Faults of array arithmetic have none. -/
def words? : Fault → Option String
  | scalarNeedsSize name => some s!"{name} is a scalar but no dimension was given"
  | notTwoDimensional name shape => some s!"{name} must be 2D, got shape {shapeText shape}"
  | entryCount name expected actual => some s!"{name} must have {expected} entries, got {actual}"
  | wrongShape name expected actual =>
    some s!"{name} must be {shapeText expected}, got {shapeText actual}"
  | wrongVectorShape name expected actual =>
    some s!"{name} must have shape {shapeText expected}, got {shapeText actual}"
  | notSquare name shape => some s!"{name} must be square, got shape {shapeText shape}"
  | inputRows rows states => some s!"B rows ({rows}) must match A ({states})"
  | outputColumns states => some s!"C columns must match state dim {states}"
  | feedthroughColumns inputs => some s!"D columns must match input dim {inputs}"
  | boundLengths => some "lower and upper must have same length"
  | polytopeRows => some "G rows must match g length"
  | gainNotMatrix inputs states => some s!"K must be a {inputs} by {states} matrix"
  | stageBoundMissing => some "g is required when E or F are given"
  | stageNotTwoDimensional => some "E and F must be 2D"
  | stageRowsDiffer => some "E and F must have the same number of rows"
  | stageBoundRows rows => some s!"g must have {rows} rows"
  | stageStateColumns states => some s!"E must have {states} columns"
  | stageInputColumns inputs => some s!"F must have {inputs} columns"
  | horizonTooShort given => some s!"Horizon length must be at least 1, got {given}"
  | undefinedBound name => some s!"{name} contains NaN values"
  | notSymmetric name => some s!"{name} must be symmetric"
  | notPositiveDefinite name => some s!"{name} must be symmetric positive definite"
  | boundsCross => some "Lower bounds must not exceed upper bounds"
  | unstableSystem => some "Condition number bound is only available for stable systems"
  | crossTermPresent =>
    some "Condition number bound is only available for problems with a zero S matrix"
  | convexityMissing given => some s!"VariableStep requires mu > 0, got {given}"
  | unknownGain given inputs states =>
    some s!"Unknown value {given} for K. Allowed values are 'dlqr' or a {inputs} by {states} matrix."
  | unknownTerminalWeight given states =>
    some (s!"Unknown value {given} for P. Allowed values are 'Q', 'dare', 'dlyap' or a " ++
      s!"{states} by {states} matrix.")
  | explicitTerminalWeight => some "An explicit terminal weight must be passed as a matrix"
  | unknownConditionKind given =>
    some s!"Unknown condition type {given}. Must be 'exact' or 'bound'."
  | samplingPoints given => some s!"sampling_points must be positive, got {given}"
  | negativeLimit name given => some s!"{name} must be non-negative, got {given}"
  | boxOnFreeInputs =>
    some ("Input bounds of a prestabilized problem cannot be applied as a box " ++
      "projection on the free variables; pass an explicit projection")
  | unknownStep given =>
    some s!"Unknown step {given}. Allowed values are ['constant', 'variable'] or a StepSize"
  | eigenvalueMissing => some "Either H or L must be given"
  | conditionMissing => some "kappa must be given when H is not"
  | emptyConstraintSet => some "Constraint set G x <= g is empty"
  | riccatiUnsolved => some "Riccati equation could not be solved"
  | lyapunovUnsolved => some "Lyapunov equation could not be solved"
  | recurrenceWithoutRoot => some "Step size recurrence has no root in [0, 1]"
  | quadraticProgramFailed => some "Auxiliary QP failed"
  | periodTooSmall given => some s!"period must be positive, got {given}"
  | rowBlocks sum rows => some s!"Row blocks sum to {sum}, data has {rows} rows"
  | columnBlocks sum columns => some s!"Column blocks sum to {sum}, data has {columns} columns"
  | columnBlocksOfVector => some "col_sizes given for 1-D data"
  | blockDataRank rank => some s!"BlockMatrix data must be 1-D or 2-D, got {rank}-D"
  | boxNeedsSize => some "dim required when bounds are scalar"
  | boxCrosses => some "lower bound exceeds upper bound"
  | columnBlockOfVector => some "Block vectors only have one block column"
  | columnBlockMissing => some "A column block index is required for 2-D block matrices"
  | immutable name => some s!"{name} is immutable"
  | missingMethod => some ""
  | unknownMember | incompatibleShapes | notNumeric | emptyReduction | readOnly | limitOutOfRange
  | negativeLength | wrongType | outOfRange | unknownName | missingAttribute | tooLarge | divisionByZero | singular
  | frozenField => none

end Fault

/-- What stands in front of every message of a family. -/
def FaultKind.label : FaultKind → String
  | .dimension => "Dimension mismatch: "
  | .invalidInput => "Invalid input: "
  | _ => ""

/-- The words of a fault of a family when nothing more is known about it. -/
def FaultKind.defaultWords? : FaultKind → Option String
  | .infeasible => some "Problem is infeasible"
  | .numerical => some "Numerical error encountered"
  | _ => none

/-- The families whose faults are faults of an argument's value as well. -/
def FaultKind.isValueFault : FaultKind → Bool
  | .dimension | .domain | .value => true
  | _ => false

/-- The message of a fault, for those that have one. -/
def Fault.message? (f : Fault) : Option String := f.words?.map (f.kind.label ++ ·)

/-- If two steps succeed, then so does the second one on the result of the first. -/
theorem bind_eq_ok {α β : Type} {x : Except Fault α} {next : α → Except Fault β} {b : β}
    (run : x >>= next = .ok b) : ∃ a, x = .ok a ∧ next a = .ok b := by
  cases x with
  | error fault => cases run
  | ok a => exact ⟨a, rfl, run⟩

/-- If a step that is only taken under a condition succeeds, then the condition holds. -/
theorem dite_eq_ok {β : Type} {condition : Prop} [Decidable condition]
    {next : condition → Except Fault β} {fault : Fault} {b : β}
    (run : (if holds : condition then next holds else throw fault) = .ok b) :
    ∃ holds, next holds = .ok b := by
  split at run
  · next holds => exact ⟨holds, run⟩
  · cases run

end RecedingHorizon
