import RecedingHorizon.Tensor.Product

/-!
# Lengths and inner products of arrays

The Euclidean length counts the entries of an array of any shape. The sum of magnitudes is defined
for vectors, and for matrices as the largest such sum over the columns. An inner product is a product
of arrays that is a single entry.
-/

namespace RecedingHorizon.Tensor

variable {α : Type} [Scalar α]

/-- The Euclidean length of all entries. -/
def norm (x : Tensor α) : α := Scalar.sqrt (x.toList.foldl (fun total t => total + t * t) 0)

/-- The sum of magnitudes. -/
def normOne : Tensor α → Except Fault α
  | ⟨[_], x⟩ => .ok (Vec.normOne x)
  | ⟨[_, n], rows⟩ =>
    let M : Mat α _ n := ⟨rows⟩
    largest Scalar.maximum (.ofList ((List.finRange n).map fun j => Vec.normOne (M.column j)))
  | _ => .error .incompatibleShapes

/-- The product of two arrays, which has to be a single entry. -/
def inner (x y : Tensor α) : Except Fault α := do
  match (← product x y).toList with
  | [value] => return value
  | _ => throw .wrongType

theorem inner_ofVec {n : Nat} (x y : Vec α n) : (ofVec x).inner (ofVec y) = .ok (Vec.dot x y) := by
  rw [inner, product_ofVec_ofVec]
  rfl

end RecedingHorizon.Tensor
