import RecedingHorizon.Error

/-!
# Events of a pipeline

Items move through a pipeline one at a time, each on request, and what happens on the way can be
seen from outside: an item is pulled from the source, a test or an observer looks at it, a consumer
receives it. `Reported` is a computation together with these events; one that fails keeps the events
up to its failure, and a computation that follows another one reports after it.
-/

namespace RecedingHorizon.Pipeline

/-- Something that happens to an item. Stages are counted from the source on, the tests of a stage
in their order. -/
inductive Event (τ : Type) where
  | pulled (item : τ)
  | tested (stage test : Nat) (item : τ)
  | called (stage : Nat) (item : τ)
  | received (item : τ)
  deriving Repr, DecidableEq

/-- A computation that may fail, with what happened in its course. -/
structure Reported (τ α : Type) where
  events : List (Event τ)
  outcome : Except Fault α

namespace Reported

variable {τ α β : Type}

/-- One computation after another one. -/
def andThen (first : Reported τ α) (next : α → Reported τ β) : Reported τ β :=
  match first.outcome with
  | .error f => ⟨first.events, .error f⟩
  | .ok a => ⟨first.events ++ (next a).events, (next a).outcome⟩

instance : Monad (Reported τ) where
  pure a := ⟨[], .ok a⟩
  bind := andThen

/-- An event and nothing else. -/
def report (e : Event τ) : Reported τ Unit := ⟨[e], .ok ()⟩

def silent (outcome : Except Fault α) : Reported τ α := ⟨[], outcome⟩

@[simp] theorem pure_eq (a : α) : (pure a : Reported τ α) = ⟨[], .ok a⟩ := rfl

@[simp] theorem bind_ok (events : List (Event τ)) (a : α) (next : α → Reported τ β) :
    (⟨events, .ok a⟩ >>= next) = ⟨events ++ (next a).events, (next a).outcome⟩ := rfl

@[simp] theorem bind_error (events : List (Event τ)) (f : Fault) (next : α → Reported τ β) :
    (⟨events, .error f⟩ >>= next) = ⟨events, .error f⟩ := rfl

end Reported

end RecedingHorizon.Pipeline
