import RecedingHorizon.Tensor.Norm

/-!
# Points of an iteration

The iterates of a gradient method are vectors of one length. They may also be arrays whose shapes are
only known when they meet: then every operation checks them, and follows the rules of entrywise
operations and products of arrays. `Space` is what the method needs of either.
-/

namespace RecedingHorizon.Gradient

/-- Points with the operations of a gradient method. -/
class Space (α : outParam Type) (V : Type) where
  add : V → V → Except Fault V
  sub : V → V → Except Fault V
  scale : α → V → V
  divide : V → α → V
  inner : V → V → Except Fault α
  /-- The sum of the magnitudes of all entries. -/
  normOne : V → Except Fault α
  norm : V → α

variable {α : Type} [Scalar α] {n : Nat}

instance : Space α (Vec α n) where
  add x y := .ok (x + y)
  sub x y := .ok (x - y)
  scale c x := x.map (c * ·)
  divide x c := x.map (· / c)
  inner x y := .ok (Vec.dot x y)
  normOne x := .ok (Vec.normOne x)
  norm := Vec.norm

instance : Space α (Tensor α) where
  add := Tensor.add
  sub := Tensor.sub
  scale c x := x.map (c * ·)
  divide x c := x.map (· / c)
  inner := Tensor.inner
  normOne := Tensor.normOne
  norm := Tensor.norm

end RecedingHorizon.Gradient
