import RecedingHorizon.Blocks.Matrix

/-!
# Named block matrices that share their data

Transposing a matrix gives another view of the same data: what is written through one is seen
through the other. Copying separates them. A store keeps the data of every family once and knows
every name as a view, straight or transposed, of one family with its own partitions.
-/

namespace RecedingHorizon

/-- A name's way to look at the data of its family. -/
structure BlockView where
  family : Nat
  transposed : Bool

/-- Block matrices by name. Each family is kept as its first member. -/
structure BlockStore (β : Type) where
  families : List (BlockMatrix β)
  names : List (String × BlockView)

namespace BlockStore

variable {α β : Type}

def ofMatrix (name : String) (M : BlockMatrix β) : BlockStore β := ⟨[M], [(name, ⟨0, false⟩)]⟩

/-- A matrix as it is seen through a view. -/
def orient (transposed : Bool) (M : BlockMatrix β) : BlockMatrix β :=
  if transposed then M.transpose else M

/-- The view and the matrix behind a name. -/
def find (s : BlockStore β) (name : String) : Except Fault (BlockView × BlockMatrix β) :=
  match s.names.lookup name with
  | none => .error .unknownName
  | some view =>
    match s.families[view.family]? with
    | none => .error .unknownName
    | some M => .ok (view, orient view.transposed M)

def get (s : BlockStore β) (name : String) : Except Fault (BlockMatrix β) := do
  return (← s.find name).2

/-- The store in which a name stands for a view. -/
def bind (s : BlockStore β) (name : String) (view : BlockView) : BlockStore β :=
  { s with names := (name, view) :: s.names }

/-- Names the transpose of a matrix; both share their data. -/
def transpose (s : BlockStore β) (name new : String) : Except Fault (BlockStore β) := do
  let (view, _) ← s.find name
  return s.bind new { view with transposed := !view.transposed }

/-- Names a copy of a matrix, with data of its own. -/
def copy (s : BlockStore β) (name new : String) : Except Fault (BlockStore β) := do
  let (_, M) ← s.find name
  let s := { s with families := s.families ++ [M] }
  return s.bind new ⟨s.families.length - 1, false⟩

/-- Overwrites a block of a matrix and so of every matrix that shares its data. -/
def writeBlock [Scalar α] [EntryType α β] (s : BlockStore β) (name : String) (i j value : Argument α) :
    Except Fault (BlockStore β) := do
  let (view, M) ← s.find name
  let M ← M.writeBlock i j value
  return { s with families := s.families.set view.family (orient view.transposed M) }

end BlockStore

end RecedingHorizon
