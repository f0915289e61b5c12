import RecedingHorizon.Argument.Basic

/-!
# What an array stores

All entries of an array have one type, which is settled when the array is made. What is written into the
array later is turned into entries of this type first, and may change on the way: an array of scalars
stores a scalar as it is, and an array of whole numbers only its whole part.
-/

namespace RecedingHorizon

/-- Entries of type `β`, in arrays whose arguments are given over scalars `α`. -/
class EntryType (α : outParam Type) (β : Type) where
  /-- An argument as an array of such entries. -/
  read : Argument α → Except Fault (Tensor β)

/-- A whole number as an entry, beside scalars `α`. -/
structure Whole (α : Type) where
  value : Int
  deriving Repr, DecidableEq

namespace EntryType

variable {α : Type} [Scalar α]

instance scalar : EntryType α α where
  read := Argument.toTensor

@[simp] theorem read_scalar (a : Argument α) : (read a : Except Fault (Tensor α)) = a.toTensor := rfl

/-- A number by itself needs a whole part that is a word of 64 bits, while the entries of an array are
cast to words. -/
instance whole : EntryType α (Whole α) where
  read
    | .array t => .ok (t.map fun x => ⟨Scalar.word x⟩)
    | a => do
      let n ← a.wholePart
      if Int64.minValue.toInt ≤ n ∧ n ≤ Int64.maxValue.toInt then return .scalar ⟨n⟩
      else throw .tooLarge

end EntryType

end RecedingHorizon
