import RecedingHorizon.Scalar.Floating

/-!
# Reflections

The reflection that moves a vector onto the first axis. It is given by the vector `1, v₂, v₃, …`
normal to its plane and by a weight: the reflected vector is `x - weight * (v · x) * v`.
-/

namespace RecedingHorizon

/-- The length of the hypotenuse, without overflow. -/
def hypotenuse (x y : Float) : Float :=
  let large := max x.abs y.abs
  let small := min x.abs y.abs
  if small == 0.0 then large
  else
    let ratio := small / large
    large * Float.sqrt (1.0 + ratio * ratio)

/-- The magnitude of the first number with the sign of the second. -/
def withSign (x y : Float) : Float :=
  if (Decimal.Binary.ofFloat? y).any (·.negative) then -x.abs else x.abs

/-- A reflection: the first entry of the reflected vector, the weight, and the normal vector after
its leading one. -/
structure Reflection where
  first : Float
  weight : Float
  normal : List Float

/-- The reflection that moves the vector onto the first axis. -/
def Reflection.ofVector (first : Float) (rest : List Float) : Reflection :=
  let largest := rest.foldl (fun m x => max m x.abs) 0.0
  if largest == 0.0 then ⟨first, 0.0, rest⟩
  else
    let length := largest * Float.sqrt (rest.foldl (fun s x => s + (x / largest) * (x / largest)) 0.0)
    let image := -withSign (hypotenuse first length) first
    ⟨image, (image - first) / image, rest.map (· * (1.0 / (first - image)))⟩

end RecedingHorizon
