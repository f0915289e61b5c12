import RecedingHorizon.Pipeline.Stage

/-!
# Running a pipeline

A consumer requests items until none comes. What it makes of the events is up to a function `note`
that is folded over them in the order in which they happen; `log` keeps them all.
-/

namespace RecedingHorizon.Pipeline

variable {σ τ κ : Type}

/-- What is left of a run: what was noted, and why it ended early, if it did. -/
structure Run (κ : Type) where
  noted : κ
  fault? : Option Fault := none

/-- Requests at most `fuel` items. -/
def run (source : Source σ τ) (note : κ → Event τ → κ) :
    (fuel : Nat) → List (Stage τ) → σ → κ → Run κ
  | 0, _, _, noted => { noted }
  | fuel + 1, stages, s, noted =>
    let pulled := pull source stages s
    let noted := pulled.events.foldl note noted
    match pulled.outcome with
    | .error f => { noted, fault? := some f }
    | .ok none => { noted }
    | .ok (some (item, stages, s)) =>
      run source note fuel stages s (note noted (.received item))

/-- All events of a run, in their order. -/
def log (source : Source σ τ) (fuel : Nat) (stages : List (Stage τ)) (s : σ) :
    Run (List (Event τ)) :=
  let backwards := run source (fun earlier e => e :: earlier) fuel stages s []
  { backwards with noted := backwards.noted.reverse }

/-- The items that reach the consumer. -/
def received (events : List (Event τ)) : List τ :=
  events.filterMap fun
    | .received item => some item
    | _ => none

/-- The items that the source hands out. -/
def handedOut (events : List (Event τ)) : List τ :=
  events.filterMap fun
    | .pulled item => some item
    | _ => none

/-- The items on which a stage calls its observer. -/
def observed (stage : Nat) (events : List (Event τ)) : List τ :=
  events.filterMap fun
    | .called s item => if s = stage then some item else none
    | _ => none

/-- Noting every event in front of the earlier ones reverses their order. -/
theorem foldl_cons (events noted : List (Event τ)) :
    events.foldl (fun earlier e => e :: earlier) noted = events.reverse ++ noted := by
  induction events generalizing noted with
  | nil => rfl
  | cons e rest ih => simp [ih]

theorem run_append (source : Source σ τ) (fuel : Nat) (stages : List (Stage τ)) (s : σ)
    (noted : List (Event τ)) :
    (run source (fun earlier e => e :: earlier) fuel stages s noted).noted =
      (run source (fun earlier e => e :: earlier) fuel stages s []).noted ++ noted := by
  induction fuel generalizing stages s noted with
  | zero => rfl
  | succ fuel ih =>
    simp only [run, foldl_cons]
    match (pull source stages s).outcome with
    | .error f => simp
    | .ok none => simp
    | .ok (some (item, stages, s)) =>
      simp only [ih stages s (.received item :: _)]
      simp

/-- What any consumer notes is the fold of what the log holds. -/
theorem noted_eq_foldl (source : Source σ τ) (note : κ → Event τ → κ) (fuel : Nat)
    (stages : List (Stage τ)) (s : σ) (noted : κ) :
    (run source note fuel stages s noted).noted =
      (log source fuel stages s).noted.foldl note noted := by
  induction fuel generalizing stages s noted with
  | zero => rfl
  | succ fuel ih =>
    simp only [log, run, foldl_cons]
    match (pull source stages s).outcome with
    | .error f => simp
    | .ok none => simp
    | .ok (some (item, stages, s)) =>
      simp only [ih, log]
      rw [run_append source fuel stages s (.received item :: _)]
      simp

end RecedingHorizon.Pipeline
