import RecedingHorizon.Tensor.Broadcast

/-!
# Products of arrays

The product of two arrays is the inner product of two vectors, the action of a matrix on a vector
from either side, or the product of two matrices; with more than two axes it is taken on the last
two for every index of the others. Scalars have no such product.
-/

namespace RecedingHorizon

namespace Tensor

variable {α : Type} [Add α] [Mul α] [Zero α]

/-- The product for every index of the leading axes. Operands have at least two axes. -/
def stackedProduct (x y : Tensor α) : Except Fault (Tensor α) :=
  match x.shape.reverse, y.shape.reverse with
  | k :: m :: lead, n :: l :: lead' =>
    if k ≠ l then .error .incompatibleShapes
    else
      -- The axes in front of the last two are repeated to a common shape.
      match commonReversed? lead lead' with
      | none => .error .incompatibleShapes
      | some common =>
        let shape := common.reverse
        let x? := x.stretch? (shape ++ [m, k])
        let y? := y.stretch? (shape ++ [k, n])
        match x?, y? with
        | some x, some y =>
          let cell (index : List Nat) : α :=
            let lead := index.take shape.length
            let i := index.getD shape.length 0
            let j := index.getD (shape.length + 1) 0
            Vec.sumOver k fun l =>
              (x.read (lead ++ [i, l.val])).getD 0 * (y.read (lead ++ [l.val, j])).getD 0
          .ok (ofFn (shape ++ [m, n]) cell)
        | _, _ => .error .incompatibleShapes
  | _, _ => .error .incompatibleShapes

/-- Drops the axis at a position counted from the back, if its length is one. -/
def dropAxis (t : Tensor α) (fromBack : Nat) : Tensor α :=
  let reversed := t.shape.reverse
  let shape := (reversed.eraseIdx fromBack).reverse
  ofFn shape fun index =>
    (t.read ((index.reverse.take fromBack ++ 0 :: index.reverse.drop fromBack).reverse)).getD 0

def product (x y : Tensor α) : Except Fault (Tensor α) :=
  match x, y with
  | ⟨[], _⟩, _ => .error .incompatibleShapes
  | _, ⟨[], _⟩ => .error .incompatibleShapes
  | ⟨[n], x⟩, ⟨[n'], y⟩ =>
    let x : Vec α n := x
    let y : Vec α n' := y
    if h : n' = n then .ok (scalar (Vec.dot x (h ▸ y))) else .error .incompatibleShapes
  | ⟨[m, n], x⟩, ⟨[n'], y⟩ =>
    let x : Mat α m n := ⟨x⟩
    let y : Vec α n' := y
    if h : n' = n then .ok (ofVec (x.mulVec (h ▸ y))) else .error .incompatibleShapes
  | ⟨[m], x⟩, ⟨[m', n], y⟩ =>
    let x : Vec α m := x
    let y : Mat α m' n := ⟨y⟩
    if h : m = m' then .ok (ofVec (Mat.vecMul (h ▸ x) y)) else .error .incompatibleShapes
  | ⟨[m, k], x⟩, ⟨[k', n], y⟩ =>
    let x : Mat α m k := ⟨x⟩
    let y : Mat α k' n := ⟨y⟩
    if h : k = k' then .ok (ofMat ((h ▸ x : Mat α m k') * y)) else .error .incompatibleShapes
  -- Beside more axes, a vector is a row on the left and a column on the right, and its axis is dropped
  -- again.
  | ⟨[n], x⟩, y => do
    let x : Vec α n := x
    let product ← stackedProduct (ofMat (Mat.ofRow x)) y
    return dropAxis product 1
  | x, ⟨[n], y⟩ => do
    let y : Vec α n := y
    let product ← stackedProduct x (ofMat (Mat.ofColumn y))
    return dropAxis product 0
  | x, y => stackedProduct x y

@[simp] theorem product_ofMat_ofVec {m n : Nat} (M : Mat α m n) (x : Vec α n) :
    product (ofMat M) (ofVec x) = .ok (ofVec (M.mulVec x)) := by
  simp [product, ofMat, ofVec]

@[simp] theorem product_ofMat_ofMat {m k n : Nat} (M : Mat α m k) (N : Mat α k n) :
    product (ofMat M) (ofMat N) = .ok (ofMat (M * N)) := by
  simp [product, ofMat]

@[simp] theorem product_ofVec_ofVec {n : Nat} (x y : Vec α n) :
    product (ofVec x) (ofVec y) = .ok (scalar (Vec.dot x y)) := by
  simp [product, ofVec]

end Tensor

end RecedingHorizon
