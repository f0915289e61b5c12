import RecedingHorizon.Argument.Basic
import RecedingHorizon.Pipeline.Event

/-!
# Stages of a pipeline

A pipeline is a source with stages around it. Nothing moves before the consumer requests an item:
then every stage, from the outermost one inwards, decides whether it requests one in turn, and the
item that comes from the source passes through them on the way back. A stage never changes an item;
it may end the pipeline or look at what passes.
-/

namespace RecedingHorizon.Pipeline

variable {σ τ : Type}

/-- Where items come from: the next one and the state after it, or nothing at the end. -/
abbrev Source (σ τ : Type) := σ → Except Fault (Option (τ × σ))

def ofList : Source (List τ) τ
  | [] => .ok none
  | item :: rest => .ok (some (item, rest))

/-- How often an observer is called. -/
inductive Period where
  /-- At every count that is a multiple of a length. -/
  | every (length : Rat)
  | never
  deriving Repr, DecidableEq

namespace Period

/-- The observer is called at a count: the count is a whole multiple of the length. -/
def hits : Period → Nat → Bool
  | every length, count => (count * length.den : Int) % length.num == 0
  | never, _ => false

/-- The period that an argument is: a number that is at least one. -/
def ofArgument {α : Type} [Scalar α] (a : Argument α) : Except Fault Period := do
  if ← a.isBelow 1 then throw (.periodTooSmall a.shown)
  match a with
  | .truth _ => return every 1
  | .whole n => return every n
  | .real x =>
    match Scalar.fraction? x with
    | some length => return every length
    | none => return never
  | _ => throw .wrongType

/-- An observer with a whole period is called at its multiples. -/
theorem hits_every (n count : Nat) : (every n).hits count = true ↔ n ∣ count := by
  simp only [hits, Rat.num_natCast, Rat.den_natCast, beq_iff_eq]
  rw [Int.natCast_one, Int.mul_one, ← Int.natCast_dvd_natCast, Int.dvd_iff_emod_eq_zero]

end Period

/-- The largest number of items that a limit can name, the largest index that a machine has. -/
def largestLimit : Nat := 0x7FFFFFFFFFFFFFFF

/-- The number of items that an argument lets through: a whole number that is not negative and not too
large, or everything if nothing is given. -/
def readLimit {α : Type} (a : Argument α) : Except Fault (Option Nat) :=
  match a with
  | .nothing => .ok none
  | .truth b => .ok (some (if b then 1 else 0))
  | .whole n =>
    if 0 ≤ n ∧ n ≤ largestLimit then .ok (some n.toNat) else .error .limitOutOfRange
  | _ => .error .limitOutOfRange

/-- A test of an item, which may fail. -/
abbrev Test (τ : Type) := τ → Except Fault Bool

/-- A stage and what it remembers. -/
inductive Stage (τ : Type) where
  /-- Ends after the first item that satisfies one of the tests. It remembers the item that passed
  last, which is tested when the next one is requested. -/
  | halting (tests : List (Test τ)) (last? : Option τ)
  | limiting (left? : Option Nat)
  /-- Hands an item to an observer at each period. It remembers how many items have passed. -/
  | observing (period : Except Fault Period) (observe : τ → Except Fault Unit) (count : Nat)

namespace Stage

/-- The stage that ends after an item that satisfies one of the tests. -/
def halt (tests : List (Test τ)) : Stage τ := halting tests none

def limit (count? : Option Nat) : Stage τ := limiting count?

def apply (period : Except Fault Period) (observe : τ → Except Fault Unit) : Stage τ :=
  observing period observe 0

/-- Whether an item satisfies one of the tests from number `next` on; tests are not evaluated after
the first that holds. -/
def anyHolds (stage : Nat) (item : τ) : (next : Nat) → List (Test τ) → Reported τ Bool
  | _, [] => return false
  | next, test :: rest => do
    Reported.report (.tested stage next item)
    if ← Reported.silent (test item) then return true
    anyHolds stage item (next + 1) rest

/-- Whether the stage requests another item. -/
def requests (stage : Nat) : Stage τ → Reported τ Bool
  | halting _ none => return true
  | halting tests (some item) => do return !(← anyHolds stage item 0 tests)
  | limiting left? => return left? != some 0
  | observing period _ _ => do
    let _ ← Reported.silent period
    return true

/-- The stage after an item has passed. -/
def pass (stage : Nat) (item : τ) : Stage τ → Reported τ (Stage τ)
  | halting tests _ => return halting tests (some item)
  | limiting left? => return limiting (left?.map (· - 1))
  | observing period observe count => do
    let hit ← Reported.silent (period.map (·.hits (count + 1)))
    if hit then
      Reported.report (.called stage item)
      Reported.silent (observe item)
    return observing period observe (count + 1)

end Stage

/-- The next item that comes out of the stages, the outermost one first, with the stages and the
source after it. -/
def pull (source : Source σ τ) :
    List (Stage τ) → σ → Reported τ (Option (τ × List (Stage τ) × σ))
  | [], s => do
    match ← Reported.silent (source s) with
    | none => return none
    | some (item, s) =>
      Reported.report (.pulled item)
      return some (item, [], s)
  | stage :: inner, s => do
    if ← stage.requests inner.length then
      match ← pull source inner s with
      | none => return none
      | some (item, inner, s) => return some (item, (← stage.pass inner.length item) :: inner, s)
    else return none

end RecedingHorizon.Pipeline
