import RecedingHorizon.Constraint.Polytope

/-!
# Boxes

The points between a lower and an upper bound in every entry, bounds included; an infinite bound
does not restrict its entry. Moving each entry into its interval takes a point to the nearest one
of the box. A box is also a polytope, with one row for every finite bound.
-/

namespace RecedingHorizon

/-- The box between two arrays of bounds. `size` is the number of entries it was declared with. -/
structure Box (α : Type) where
  lower : Tensor (Extended α)
  upper : Tensor (Extended α)
  size : Int

namespace Box

variable {α : Type} [Scalar α]

/-- The number of entries along the first axis. -/
def length (bounds : Tensor (Extended α)) : Except Fault Nat :=
  match bounds.shape with
  | [] => .error .wrongType
  | n :: _ => .ok n

/-- One side of a box: a number holds for every entry, so the number of entries has to be known. -/
def side (bound : Argument (Extended α)) (size : Option Int) :
    Except Fault (Tensor (Extended α)) :=
  if bound.isSingle then
    match size with
    | none => .error .boxNeedsSize
    | some n => do
      let value ← bound.toBounds
      if n < 0 then throw .negativeLength
      return value.replicate n.toNat
  else bound.toBounds

/-- The box between two bounds, if they are equally long and no lower one exceeds its upper one. -/
def between (lower upper : Tensor (Extended α)) (size : Int) : Except Fault (Box α) := do
  if (← length lower) ≠ (← length upper) then throw .boundLengths
  let crossed ← Tensor.combine (fun l u => Extended.lt u l) lower upper
  if crossed.anyEntry id then throw .boxCrosses
  return ⟨lower, upper, size⟩

/-- The box with the given bounds. Without a size, the lower bound has to be an array and its
length is taken. -/
def ofArguments (lower upper : Argument (Extended α)) (size : Option Int) :
    Except Fault (Box α) := do
  let low ← side lower size
  let n ← match size with
    | some n => pure n
    | none => do pure (← length low : Int)
  let high ← side upper (some n)
  between low high n

def unbounded (size : Int) : Except Fault (Box α) :=
  if size < 0 then .error .negativeLength
  else
    let n := size.toNat
    .ok ⟨.ofVec (Vector.replicate n .bottom), .ofVec (Vector.replicate n .top), size⟩

def isBounded (box : Box α) : Bool :=
  box.lower.anyEntry Extended.isFinite || box.upper.anyEntry Extended.isFinite

/-- Every entry lies between its bounds, up to a tolerance. -/
def isSatisfied (box : Box α) (x : Tensor α) (tolerance : α) : Except Fault Bool := do
  let slack := Extended.ofScalar tolerance
  let above ← Tensor.combine (fun x l => Extended.le (l - slack) (.ofScalar x)) x box.lower
  if !above.allEntries id then return false
  let below ← Tensor.combine (fun x u => Extended.le (.ofScalar x) (u + slack)) x box.upper
  return below.allEntries id

/-- The point with every entry moved into its interval. -/
def project (box : Box α) (x : Tensor α) : Except Fault (Tensor α) := do
  let raised ← Tensor.combine (fun x l => (Extended.ofScalar x).maximum l) x box.lower
  let moved ← Tensor.combine Extended.minimum raised box.upper
  return moved.map Extended.toScalar

/-- The largest distance by which an entry lies outside its interval. -/
def violation (box : Box α) (x : Tensor α) : Except Fault α := do
  let below ← Tensor.combine (fun l x => (l - Extended.ofScalar x).maximum 0) box.lower x
  let above ← Tensor.combine (fun x u => (Extended.ofScalar x - u).maximum 0) x box.upper
  let low ← below.largest Extended.maximum
  let high ← above.largest Extended.maximum
  return (low.orLarger high).toScalar

/-- An array of bounds repeated along its last axis. -/
def tile (count : Nat) (bounds : Tensor (Extended α)) : Tensor (Extended α) :=
  match bounds with
  | ⟨[_], entries⟩ => .ofList ((List.replicate count entries.toList).flatten)
  | other => other

/-- The box that holds in every one of `count` stages. -/
def «repeat» (box : Box α) (count : Int) : Except Fault (Box α) :=
  if count < 0 ∧ box.lower.size ≠ 0 then .error .negativeLength
  else do
    let lower := tile count.toNat box.lower
    between lower (tile count.toNat box.upper) (← length lower)

/-- The rows of the polytope that a box is: first the lower bounds with their signs changed, then
the upper ones, without those that are infinite. -/
def rows (n : Nat) (lower upper : List (Extended α)) : List (Vec α n × α) :=
  let axis (sign : α) (i : Nat) : Vec α n :=
    Vec.ofFn fun j => if j.val = i then sign else 0
  let side (sign : α) (bounds : List (Extended α)) : List (Vec α n × α) :=
    bounds.zipIdx.filterMap fun (bound, i) => bound.finite?.map fun b => (axis sign i, b)
  side (-1) (lower.map Extended.neg) ++ side 1 upper

def toPolytope (box : Box α) : Except Fault (SomePolytope α) := do
  if box.size < 0 then throw .negativeLength
  let n := box.size.toNat
  match box.lower, box.upper with
  | ⟨[l], lower⟩, ⟨[u], upper⟩ =>
    if l + u ≠ 2 * n then throw .outOfRange
    let rows := rows n lower.toList upper.toList
    return { polytope := ⟨⟨rows.toArray.toVector.map Prod.fst⟩, rows.toArray.toVector.map Prod.snd⟩ }
  | _, _ => throw .outOfRange

end Box

end RecedingHorizon
