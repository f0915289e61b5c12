import RecedingHorizon.Controller.Plan

/-!
# Closed loops

In a closed loop, a controller makes a plan for the state, its first input is applied, a disturbance
acts on the state that follows, and the next plan is made for what comes out. A run has as many steps
as were asked for, and each of them is a step from some state (`length_transitions`,
`transition_of_mem`), so that what holds of the input of one step holds of all inputs.
-/

namespace RecedingHorizon

/-- One step of a closed loop. -/
structure Transition (α σ : Type) (N n m : Nat) where
  plan : Plan α σ N n m
  input : Vec α m
  next : Vec α n

/-- A closed loop: the first state and all steps from there. -/
structure ClosedLoop (α σ : Type) (N n m : Nat) where
  start : Vec α n
  transitions : List (Transition α σ N n m)

variable {α σ : Type} [Scalar α] {N n m p : Nat}

namespace ClosedLoop

/-- All states, one more than there are steps. -/
def states (loop : ClosedLoop α σ N n m) : List (Vec α n) := loop.start :: loop.transitions.map (·.next)

def inputs (loop : ClosedLoop α σ N n m) : List (Vec α m) := loop.transitions.map (·.input)

def costs (loop : ClosedLoop α σ N n m) : List α := loop.transitions.map (·.plan.cost)

/-- What a user should know about the plans. -/
def notices (loop : ClosedLoop α σ N n m) : List Notice := loop.transitions.flatMap (·.plan.notices)

end ClosedLoop

/-- What acts on the state that follows a step. -/
abbrev Disturbance (α : Type) (n : Nat) := (step : Nat) → Vec α n → Except Fault (Vec α n)

/-- The disturbance that adds the row of a step: none at all, or one for each step. -/
def Disturbance.ofArgument (a : Argument α) : Disturbance α n := fun step x =>
  match a with
  | .nothing => .ok x
  | .array rows =>
    match rows.slices[step]? with
    | none => .error .outOfRange
    | some row => do
      match (← Tensor.add (.ofVec x) row).toVec? n with
      | some moved => return moved
      | none => throw .incompatibleShapes
  | _ => .error .wrongType

namespace Controller

def transition (c : Controller α σ n m p) (disturbance : Disturbance α n)
    (step : Nat) (x : Vec α n) : Except Fault (Transition α σ c.problem.horizon n m) := do
  let plan ← c.plan x (Vec.zeros _)
  let input := plan.control c.problem.horizon_pos
  return { plan, input, next := ← disturbance step (c.problem.system.next x input) }

/-- So many steps from a state, the first of which has the number `step`. -/
def transitions (c : Controller α σ n m p) (disturbance : Disturbance α n) :
    (count step : Nat) → Vec α n → Except Fault (List (Transition α σ c.problem.horizon n m))
  | 0, _, _ => return []
  | count + 1, step, x => do
    let first ← c.transition disturbance step x
    return first :: (← transitions c disturbance count (step + 1) first.next)

/-- A run with a step is that step and the run from the state that follows it. -/
theorem transitions_succ_eq_ok {c : Controller α σ n m p}
    {disturbance : Disturbance α n} {count step : Nat} {x : Vec α n}
    {run : List (Transition α σ c.problem.horizon n m)} :
    c.transitions disturbance (count + 1) step x = .ok run ↔
      ∃ first rest, c.transition disturbance step x = .ok first ∧
        c.transitions disturbance count (step + 1) first.next = .ok rest ∧
        run = first :: rest := by
  rw [transitions]
  cases current : c.transition disturbance step x with
  | error f => simp [bind, Except.bind]
  | ok first =>
    cases later : c.transitions disturbance count (step + 1) first.next with
    | error f => simp [later, bind, Except.bind]
    | ok rest => simp [later, bind, Except.bind, pure, Except.pure, eq_comm]

theorem length_transitions {c : Controller α σ n m p}
    {disturbance : Disturbance α n} {count step : Nat} {x : Vec α n}
    {run : List (Transition α σ c.problem.horizon n m)}
    (returned : c.transitions disturbance count step x = .ok run) : run.length = count := by
  induction count generalizing step x run with
  | zero =>
    cases returned
    rfl
  | succ count ih =>
    obtain ⟨first, rest, _, later, rfl⟩ := transitions_succ_eq_ok.mp returned
    simp [ih later]

theorem transition_of_mem {c : Controller α σ n m p}
    {disturbance : Disturbance α n} {count step : Nat} {x : Vec α n}
    {run : List (Transition α σ c.problem.horizon n m)}
    (returned : c.transitions disturbance count step x = .ok run)
    {t : Transition α σ c.problem.horizon n m} (member : t ∈ run) :
    ∃ step y, c.transition disturbance step y = .ok t := by
  induction count generalizing step x run with
  | zero =>
    cases returned
    cases member
  | succ count ih =>
    obtain ⟨first, rest, current, later, rfl⟩ := transitions_succ_eq_ok.mp returned
    rcases List.mem_cons.mp member with rfl | tail
    · exact ⟨step, x, current⟩
    · exact ih later tail

def simulate (c : Controller α σ n m p) (x : Tensor α) (steps : Argument α)
    (disturbance : Disturbance α n) : Except Fault (ClosedLoop α σ c.problem.horizon n m) := do
  let count ← steps.toLength
  match (← x.fitTo [n]).toVec? n with
  | some start => return { start, transitions := ← c.transitions disturbance count 0 start }
  | none => throw .incompatibleShapes

end Controller

end RecedingHorizon
