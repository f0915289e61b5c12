import RecedingHorizon.Tensor.Broadcast
import RecedingHorizon.Scalar.Bounds
import RecedingHorizon.Text.Integer
import RecedingHorizon.Text.Quoted

/-!
# Arguments

Numbers, tables, names and omissions come in through the same places: a weight may be a scalar, a
matrix or missing, a horizon may be a whole number or a text. `Argument` is what was given, before
anything is known about it; the functions below read it as an array, as a number or as a count, and
say what is wrong with it otherwise. `Argument.shown` and `Argument.quotedText` are its texts in
messages.
-/

namespace RecedingHorizon

/-- What was given for a parameter. -/
inductive Argument (α : Type) where
  | nothing
  | truth (b : Bool)
  | whole (n : Int)
  | real (x : α)
  | text (s : String)
  | array (t : Tensor α)

namespace Argument

variable {α β : Type}

/-- The argument with `f` applied to its numbers. -/
def map (f : α → β) : Argument α → Argument β
  | nothing => nothing
  | truth b => truth b
  | whole n => whole n
  | real x => real (f x)
  | text s => text s
  | array t => array (t.map f)

def isGiven : Argument α → Bool
  | nothing => false
  | _ => true

/-- Something was given, and it is not an array. -/
def isSingle : Argument α → Bool
  | nothing | array _ => false
  | _ => true

/-- The argument as an array of numbers, given how whole numbers and missing values are written. -/
def entries (ofInt : Int → α) (missing : α) : Argument α → Except Fault (Tensor α)
  | nothing => .ok (.scalar missing)
  | truth b => .ok (.scalar (ofInt (if b then 1 else 0)))
  | whole n => .ok (.scalar (ofInt n))
  | real x => .ok (.scalar x)
  | text _ => .error .notNumeric
  | array t => .ok t

/-- The argument as an array of scalars; a missing number is undefined. -/
def toTensor [Scalar α] (a : Argument α) : Except Fault (Tensor α) :=
  a.entries Scalar.ofInt Scalar.undefined

def toBounds [Scalar α] (a : Argument (Extended α)) : Except Fault (Tensor (Extended α)) :=
  a.entries (fun n => .finite (Scalar.ofInt n)) .undefined

/-- The argument as one scalar: a number, or an array with one entry. -/
def toScalar [Scalar α] : Argument α → Except Fault α
  | nothing => .error .wrongType
  | truth b => .ok (if b then 1 else 0)
  | whole n => .ok (Scalar.ofInt n)
  | real x => .ok x
  | text _ => .error .notNumeric
  | array t =>
    match t.toList with
    | [x] => .ok x
    | _ => .error .wrongType

/-- The argument as a whole number; fractions are not accepted even if they are whole. -/
def toWhole : Argument α → Except Fault Int
  | truth b => .ok (if b then 1 else 0)
  | whole n => .ok n
  | _ => .error .wrongType

/-- The whole part of a scalar that has one. -/
def wholeOfScalar [Scalar α] (x : α) : Except Fault Int :=
  match Scalar.classify x with
  | .finite x => .ok (Scalar.wholePart x)
  | .undefined => .error .notNumeric
  | _ => .error .tooLarge

/-- The whole part of a number, which may be the only entry of an array, or the whole number that a text
stands for. -/
def wholePart [Scalar α] : Argument α → Except Fault Int
  | nothing => .error .wrongType
  | truth b => .ok (if b then 1 else 0)
  | whole n => .ok n
  | real x => wholeOfScalar x
  | text s =>
    match Integer.ofText? s with
    | some n => .ok n
    | none => .error .notNumeric
  | array t =>
    match t.toList with
    | [x] => wholeOfScalar x
    | _ => .error .wrongType

/-- The argument as an index; only whole numbers are. -/
def toIndex : Argument α → Except Fault Int
  | truth b => .ok (if b then 1 else 0)
  | whole n => .ok n
  | nothing => .error .wrongType
  | _ => .error .outOfRange

def toLength (a : Argument α) : Except Fault Nat := do
  let n ← a.toWhole
  if n < 0 then throw .negativeLength
  return n.toNat

theorem toLength_whole (n : Nat) : (whole n : Argument α).toLength = .ok n := by
  simp [toLength, toWhole, bind, Except.bind, pure, Except.pure]

def isBelow [Scalar α] (a : Argument α) (bound : Int) : Except Fault Bool :=
  match a with
  | truth b => .ok ((if b then 1 else 0 : Int) < bound)
  | whole n => .ok (n < bound)
  | real x => .ok (x < Scalar.ofInt bound)
  | _ => .error .wrongType

def isAbove [Scalar α] (a : Argument α) (bound : Int) : Except Fault Bool :=
  match a with
  | truth b => .ok (bound < (if b then 1 else 0 : Int))
  | whole n => .ok (bound < n)
  | real x => .ok (Scalar.ofInt bound < x)
  | _ => .error .wrongType

/-- The argument as a number; nothing else is accepted. -/
def toNumber [Scalar α] : Argument α → Except Fault α
  | truth b => .ok (if b then 1 else 0)
  | whole n => .ok (Scalar.ofInt n)
  | real x => .ok x
  | _ => .error .wrongType

def shown [Scalar α] : Argument α → String
  | nothing => "None"
  | truth b => if b then "True" else "False"
  | whole n => toString n
  | real x => Scalar.render x
  | text s => s
  | array ⟨[], cell⟩ =>
    let x : α := cell
    Scalar.render x
  | array t => shapeText t.shape

/-- The argument in a message, with quotation marks around a text. -/
def quotedText [Scalar α] : Argument α → String
  | text s => quoted s
  | a => a.shown

@[simp] theorem toTensor_array [Scalar α] (t : Tensor α) : (array t).toTensor = .ok t := rfl

@[simp] theorem toTensor_real [Scalar α] (x : α) : (real x).toTensor = .ok (.scalar x) := rfl

@[simp] theorem toBounds_array [Scalar α] (t : Tensor (Extended α)) :
    (array t).toBounds = .ok t := rfl

end Argument

end RecedingHorizon
