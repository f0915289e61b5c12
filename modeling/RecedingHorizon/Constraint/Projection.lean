import RecedingHorizon.Constraint.Box
import RecedingHorizon.Tensor.Norm

/-!
# Projections

The nearest point of a set. For the whole space it is the point itself, and for a box it is found entry
by entry. For any other set it has to be given as a function; those for the points without negative
entries and for a ball around the origin are at hand.
-/

namespace RecedingHorizon

inductive Projection (α : Type) where
  | identity
  | box (b : Box α)
  | function (project : Tensor α → Except Fault (Tensor α))

namespace Projection

variable {α : Type} [Scalar α] {n : Nat}

/-- A point shortened to a radius, if it is longer. -/
def shorten (radius : α) (x : Tensor α) : Tensor α :=
  if x.norm ≤ radius then x else x.map (· * (radius / x.norm))

/-- The projection onto the points without negative entries. -/
def nonnegative : Projection α := function fun x => .ok (x.map (Scalar.maximum · 0))

def ball (radius : α) : Projection α := function fun x => .ok (shorten radius x)

def apply (p : Projection α) (x : Tensor α) : Except Fault (Tensor α) :=
  match p with
  | identity => .ok x
  | box b => b.project x
  | function project => project x

def applyVec (p : Projection α) (x : Vec α n) : Except Fault (Vec α n) := do
  match (← p.apply (.ofVec x)).toVec? n with
  | some y => return y
  | none => throw .incompatibleShapes

def name : Projection α → String
  | identity => "identity"
  | box _ => "BoxConstraints"
  | function _ => "function"

@[simp] theorem applyVec_identity (x : Vec α n) : (identity : Projection α).applyVec x = .ok x := by
  simp [applyVec, apply, bind, Except.bind, pure, Except.pure]

end Projection

end RecedingHorizon
