import RecedingHorizon.Argument.Checked
import RecedingHorizon.Constraint.Projection
import RecedingHorizon.Gradient.Condition
import RecedingHorizon.Pipeline.Run
import RecedingHorizon.Status

/-!
# Runs of the fast gradient method

A run takes iterations one by one until a condition holds, or until the iteration limit. On the way
some iterations are displayed and some are handed to a watcher, at the same interval. A watcher gets the
iteration itself and not a copy: what it writes to it is what the conditions, the next step and the
result see. `Method.minimize` is the run for a method that is ready to go, and `solve` gets it ready: it
checks the arrays of a program, computes the bounds on the eigenvalues that are not given, and fits the
momentum and the conditions to them.
-/

namespace RecedingHorizon.Gradient

variable {α V σ : Type} [Scalar α]

/-- How a run is limited, and how much of it is shown. -/
structure Settings (α : Type) where
  /-- The largest number of iterations. -/
  limit : Argument α := .whole 100
  /-- The interval at which iterations are displayed; none is, if it is zero. A watcher is handed
  iterations at the same interval, or all of them. -/
  interval : Argument α := .whole 0

/-- What a watcher makes of an iteration, if it does not fail. -/
abbrev Watcher (V σ : Type) := Iteration V σ → Except Fault (Iteration V σ)

namespace Settings

/-- Neither limit nor interval is negative. -/
def check (settings : Settings α) : Except Fault Unit := do
  if ← settings.limit.isBelow 0 then throw (.negativeLimit "max_iter" settings.limit.shown)
  if ← settings.interval.isBelow 0 then
    throw (.negativeLimit "display_interval" settings.interval.shown)

def isDisplayed (settings : Settings α) : Except Fault Bool := settings.interval.isAbove 0

/-- When an iteration is handed to the watcher, if there is one. -/
def watching (settings : Settings α) (watcher? : Option (Watcher V σ)) :
    Except Fault Pipeline.Period :=
  if watcher?.isNone then .ok .never
  else
    -- An interval of zero hands on every iteration, although it displays none.
    match settings.interval with
    | .whole 0 | .truth false => .ok (.every 1)
    | .real x => if x == 0 then .ok (.every 1) else Pipeline.Period.ofArgument (.real x)
    | interval => Pipeline.Period.ofArgument interval

/-- What is left of an iteration once it has been handed out: what the watcher makes of it, if it is
handed one with this number. The number itself cannot be changed. -/
def leave (settings : Settings α) (watcher? : Option (Watcher V σ)) (s : Iteration V σ) :
    Except Fault (Iteration V σ) := do
  match watcher? with
  | none => return s
  | some watch =>
    if (← settings.watching watcher?).hits s.count then return { ← watch s with count := s.count }
    else return s

end Settings

/-- What has been seen of a run, the latest iteration first. -/
structure Trace (V σ : Type) where
  last? : Option (Iteration V σ) := none
  displayed : List (Iteration V σ) := []
  watched : List (Iteration V σ) := []

namespace Trace

/-- The stage of a run that displays iterations. -/
def displayStage : Nat := 2

/-- The stage of a run that hands iterations to the watcher. -/
def watchStage : Nat := 3

/-- The trace after an event. -/
def note (trace : Trace V σ) : Pipeline.Event (Iteration V σ) → Trace V σ
  | .called stage s =>
    if stage = displayStage then { trace with displayed := s :: trace.displayed }
    else if stage = watchStage then { trace with watched := s :: trace.watched }
    else trace
  | .received s => { trace with last? := some s }
  | _ => trace

end Trace

/-- What a run ends with. -/
structure Outcome (V σ : Type) where
  point : V
  iterations : Nat
  status : Status
  /-- The iterations that are displayed, if there is a display. -/
  displayed? : Option (List (Iteration V σ))
  /-- The iterations that are handed to the watcher. -/
  watched : List (Iteration V σ)

variable [Space α V]

/-- The stages of a run around the sequence of its iterations, the outermost one first. The watcher is
handed an iteration before the conditions are tested for it. -/
def stages (conditions : List (Pipeline.Test (Iteration V σ))) (limit? : Option Nat)
    (isDisplayed : Bool) (settings : Settings α) (watcher? : Option (Watcher V σ)) :
    List (Pipeline.Stage (Iteration V σ)) :=
  let displaying := if isDisplayed then Pipeline.Period.ofArgument settings.interval else .ok .never
  let leave := settings.leave watcher?
  [.apply (settings.watching watcher?) fun s => (leave s).map fun _ => (),
    .apply displaying fun s => (conjugateResidual s).map fun _ => (),
    .limit limit?,
    .halt (conditions.map fun holds s => do holds (← leave s))]

/-- The run of a method from a starting point. -/
def Method.minimize (method : Method α V σ) (start : V)
    (conditions : List (Pipeline.Test (Iteration V σ))) (settings : Settings α)
    (watcher? : Option (Watcher V σ)) : Except Fault (Outcome V σ) := do
  let limit? ← Pipeline.readLimit settings.limit
  let isDisplayed ← settings.isDisplayed
  let stages := stages conditions limit? isDisplayed settings watcher?
  let leave := settings.leave watcher?
  -- One request more than the limit, which comes back empty.
  let run := Pipeline.run (method.source start leave) Trace.note (limit?.getD 0 + 1) stages none {}
  if let some f := run.fault? then throw f
  let trace := run.noted
  let displayed? := if isDisplayed then some trace.displayed.reverse else none
  let watched := trace.watched.reverse
  match trace.last? with
  | none =>
    return { point := start, iterations := 0, status := .maxIterations, displayed?, watched }
  | some s =>
    let s ← leave s
    let converged ← conditions.anyM fun holds => holds s
    let status := if converged then Status.optimal else .maxIterations
    return { point := s.xNext, iterations := s.count, status, displayed?, watched }

/-! ### Programs -/

/-- The gradient `H x + b` at a vector. -/
def gradientAt {n : Nat} (H : Mat α n n) (b : Vec α n) (x : Vec α n) : Except Fault (Vec α n) :=
  .ok (H.mulVec x + b)

/-- The gradient `H x + b` at an array. -/
def gradientOf (H b x : Tensor α) : Except Fault (Tensor α) := do
  Tensor.add (← Tensor.product H x) b

/-- The extreme eigenvalues of a Hessian; rounding may not take the smallest one below zero. -/
def eigenvalueBounds {n : Nat} (kit : Kernels α) (H : Mat α n n) : Except Fault (α × α) := do
  let values := (← kit.eigenvalues H).toList
  match values.getLast?, values.head? with
  | some largest, some smallest => return (largest, Scalar.orLarger smallest 0)
  | _, _ => throw .outOfRange

/-- The minimization of `½ x' H x + b' x` over a set, and how it is to be done. -/
structure Program (α σ : Type) where
  hessian : Tensor α
  linear : Tensor α
  projection : Projection α := .identity
  /-- The starting point, or the origin. -/
  start? : Option (Tensor α) := none
  /-- The bounds on the eigenvalues of the Hessian, or nothing if they are to be computed. -/
  largest : Argument α := .nothing
  smallest : Argument α := .nothing
  strategy : StepStrategy α σ
  /-- Any of them ends the run. -/
  conditions : List (Condition α)
  settings : Settings α := {}
  watcher? : Option (Watcher (Tensor α) σ) := none

/-- A run with what it used. -/
structure Solution (α V σ : Type) where
  outcome : Outcome V σ
  size : Nat
  momentum : Momentum α σ
  largest : α
  smallest : α

def readStart (n : Nat) (start? : Option (Tensor α)) : Except Fault (Vec α n) :=
  match start? with
  | none => .ok (Vec.zeros n)
  | some x =>
    match x.flatten.toVec? n with
    | some x => .ok x
    | none => .error (.wrongVectorShape "x0" [n] x.flatten.shape)

def solve (kit : Kernels α) (p : Program α σ) : Except Fault (Solution α (Tensor α) σ) := do
  let b := p.linear.flatten
  let n := p.linear.size
  let H ← p.hessian.matrixOfSize n n "H"
  let start ← readStart n p.start?
  p.settings.check
  -- The eigenvalues are only computed if one of the bounds is missing.
  let (largest, smallest) ←
    if p.largest.isGiven && p.smallest.isGiven then pure (p.largest, p.smallest)
    else do
      let (largest, smallest) ← eigenvalueBounds kit H
      pure (if p.largest.isGiven then p.largest else .real largest,
        if p.smallest.isGiven then p.smallest else .real smallest)
  let momentum ← p.strategy.forBounds largest smallest
  let largest ← largest.toScalar
  let smallest ← smallest.toScalar
  -- Every condition is told the size of the program and the bounds before the run begins.
  let conditions := p.conditions.map fun c => (c.forProgram n largest smallest).holds
  let method : Method α (Tensor α) σ :=
    { gradient := gradientOf p.hessian b, project := p.projection.apply, momentum, largest }
  let outcome ← method.minimize (.ofVec start) conditions p.settings p.watcher?
  return { outcome, size := n, momentum, largest, smallest }

end RecedingHorizon.Gradient
