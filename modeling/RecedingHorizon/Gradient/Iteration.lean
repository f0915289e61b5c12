import RecedingHorizon.Gradient.Space
import RecedingHorizon.Gradient.StepRule
import RecedingHorizon.Pipeline.Stage

/-!
# Iterations of the fast gradient method

To minimize `½ x' H x + b' x` over a set, each iteration takes a gradient step of length `1 / L` from
the momentum point `y`, projects it onto the set, and moves on along the last change by the factor of
the momentum. The iterations form an unending sequence that depends on the start alone; `nth` is its
definition, and `source` hands it out one by one. Whoever is handed an iteration may write to it before
the next one is requested, and the next step starts from what was left of it.
-/

namespace RecedingHorizon.Gradient

/-- What an iteration knows and finds. -/
structure Iteration (V σ : Type) where
  /-- The number of the iteration, from one on. -/
  count : Nat
  /-- The point before. -/
  x : V
  /-- The new point of the set. -/
  xNext : V
  /-- The point at which the gradient step starts. -/
  y : V
  /-- The point at which the next gradient step starts. -/
  yNext : V
  gradientAtY : V
  gradientAtXNext : V
  /-- The end of the gradient step, before the projection. -/
  trial : V
  /-- What the momentum remembers after the iteration. -/
  stepState : σ

/-- A gradient method: the gradient, the projection onto the set, and the length and momentum of its
steps. -/
structure Method (α V σ : Type) where
  gradient : V → Except Fault V
  project : V → Except Fault V
  momentum : Momentum α σ
  /-- The bound `L` on the eigenvalues of the Hessian. -/
  largest : α

namespace Method

variable {α V σ : Type} [Space α V]

/-- The iteration that goes on from points `x` and `y`. -/
def step (method : Method α V σ) (count : Nat) (x y : V) (state : σ) :
    Except Fault (Iteration V σ) := do
  let gradientAtY ← method.gradient y
  let trial ← Space.sub y (Space.divide gradientAtY method.largest)
  let xNext ← method.project trial
  let (factor, stepState) ← method.momentum.next state
  let yNext ← Space.add xNext (Space.scale factor (← Space.sub xNext x))
  let gradientAtXNext ← method.gradient xNext
  return { count, x, xNext, y, yNext, gradientAtY, gradientAtXNext, trial, stepState }

def first (method : Method α V σ) (start : V) : Except Fault (Iteration V σ) := do
  method.step 1 start start (← method.momentum.initialState)

theorem first_of_begun (method : Method α V σ) {state : σ}
    (begun : method.momentum.initialState = .ok state) (start : V) :
    method.first start = method.step 1 start start state := by
  rw [first, begun]
  rfl

def after (method : Method α V σ) (s : Iteration V σ) : Except Fault (Iteration V σ) :=
  method.step (s.count + 1) s.xNext s.yNext s.stepState

/-- Iteration `k + 1` of the sequence. -/
def nth (method : Method α V σ) (start : V) : (k : Nat) → Except Fault (Iteration V σ)
  | 0 => method.first start
  | k + 1 => do method.after (← nth method start k)

/-- The sequence as a source, which remembers the iteration that it handed out last, and goes on from
what is left of it. -/
def source (method : Method α V σ) (start : V)
    (leave : Iteration V σ → Except Fault (Iteration V σ)) :
    Pipeline.Source (Option (Iteration V σ)) (Iteration V σ) := fun last? => do
  let s ← match last? with
    | none => method.first start
    | some s => do method.after (← leave s)
  return some (s, some s)

/-- So many iterations after the one that was handed out last, if nobody writes to them. -/
def take (method : Method α V σ) (start : V) :
    (count : Nat) → Option (Iteration V σ) → Except Fault (List (Iteration V σ))
  | 0, _ => return []
  | count + 1, last? => do
    match ← method.source start .ok last? with
    | none => return []
    | some (s, last?) => return s :: (← take method start count last?)

end Method

end RecedingHorizon.Gradient
