import RecedingHorizon.Argument.Basic
import RecedingHorizon.Numeric.Kernels
import RecedingHorizon.Tensor.Product

/-!
# Linear systems

A system in discrete time moves from the state `x` under the input `u` to `A x + B u` and shows the
output `C x + D u`. Without an output matrix the output is the state itself. The matrices `A` and
`B` have fixed sizes; of the feedthrough `D` only the number of columns is fixed, so an output may
be asked for that `C` and `D` cannot form together.
-/

namespace RecedingHorizon

/-- A linear system with `n` states and `m` inputs. -/
structure LinearSystem (α : Type) (n m : Nat) where
  /-- The state matrix `A`. -/
  dynamics : Mat α n n
  /-- The input matrix `B`. -/
  input : Mat α n m
  /-- The output matrix `C`, with any number of rows. -/
  output? : Option (Σ p, Mat α p n) := none
  /-- The feedthrough matrix `D`. -/
  feedthrough? : Option (Tensor α) := none
  /-- The time between two steps. -/
  interval : α

structure SomeSystem (α : Type) where
  {states : Nat}
  {inputs : Nat}
  system : LinearSystem α states inputs

namespace LinearSystem

variable {α : Type} {n m : Nat} [Scalar α]

/-! ### Construction -/

/-- The output matrix, if one is given: two axes, and one column for each state. -/
def readOutput (n : Nat) (c : Argument α) : Except Fault (Option (Σ p, Mat α p n)) := do
  if !c.isGiven then return none
  match ← c.toTensor with
  | ⟨[p, k], cells⟩ =>
    if h : k = n then
      let C : Mat α p k := ⟨cells⟩
      return some ⟨p, h ▸ C⟩
    else throw (.outputColumns n)
  | _ => throw (.outputColumns n)

/-- The feedthrough matrix, if one is given: a vector is one column, and the second axis has one
entry for each input. -/
def readFeedthrough (m : Nat) (d : Argument α) : Except Fault (Option (Tensor α)) := do
  if !d.isGiven then return none
  let t ← d.toTensor
  let t := match t with
    | ⟨[_], cells⟩ => Tensor.ofMat (Mat.ofColumn cells)
    | t => t
  match t.shape with
  | _ :: k :: _ => if k = m then return some t else throw (.feedthroughColumns m)
  | _ => throw .outOfRange

/-- The system with the given matrices, if they fit together. -/
def ofArguments (a b c d : Argument α) (interval : α) : Except Fault (SomeSystem α) := do
  let a ← a.toTensor
  let b ← b.toTensor
  match a with
  | ⟨[n, n'], cells⟩ =>
    let A : Mat α n n' := ⟨cells⟩
    -- A vector is a single column.
    let b : Tensor α := match b with
      | ⟨[_], cells⟩ => .ofMat (Mat.ofColumn cells)
      | b => b
    match b with
    | ⟨[k, m], cells⟩ =>
      let B : Mat α k m := ⟨cells⟩
      -- The state matrix has to be square before the rows of the input matrix are compared with it.
      if h : n' = n then
        if h' : k = n then
          let system : LinearSystem α n m :=
            { dynamics := h ▸ A
              input := h' ▸ B
              output? := ← readOutput n c
              feedthrough? := ← readFeedthrough m d
              interval }
          return { system }
        else throw (.inputRows k n)
      else throw (.notSquare "A" [n, n'])
    | b => throw (.notTwoDimensional "B" b.shape)
  | a => throw (.notTwoDimensional "A" a.shape)

/-- Why an entry of a part of the system cannot be overwritten: its matrices are fixed, and what is
not a matrix has no entries. -/
def writeFault (s : LinearSystem α n m) (part : String) : Fault :=
  let fixed (present : Bool) : Fault := if present then .readOnly else .wrongType
  match part with
  | "A" | "B" => .readOnly
  | "C" => fixed s.output?.isSome
  | "D" => fixed s.feedthrough?.isSome
  | _ => if partNames.contains part then .wrongType else .missingAttribute
where
  /-- The parts of a system that are not matrices. -/
  partNames : List String :=
    ["dt", "n_states", "n_inputs", "n_outputs", "step", "output", "simulate", "spectral_radius",
      "is_stable", "is_controllable", "prestabilized"]

/-! ### Running -/

def outputs (s : LinearSystem α n m) : Nat :=
  match s.output? with
  | some ⟨p, _⟩ => p
  | none => n

def next (s : LinearSystem α n m) (x : Vec α n) (u : Vec α m) : Vec α n :=
  s.dynamics.mulVec x + s.input.mulVec u

def nextOf (s : LinearSystem α n m) (x u : Tensor α) : Except Fault (Tensor α) := do
  let drift ← Tensor.product (.ofMat s.dynamics) x
  let push ← Tensor.product (.ofMat s.input) u
  Tensor.add drift push

/-- What is seen of an array of states and inputs. -/
def outputOf (s : LinearSystem α n m) (x u : Tensor α) : Except Fault (Tensor α) := do
  match s.output? with
  | none => return x
  | some ⟨_, C⟩ =>
    let y ← Tensor.product (.ofMat C) x
    match s.feedthrough? with
    | none => return y
    | some D => Tensor.add y (← Tensor.product D u)

/-- The states from `x` on, one more than there are inputs. -/
def trajectory (s : LinearSystem α n m) (x : Vec α n) : List (Vec α m) → List (Vec α n)
  | [] => [x]
  | u :: rest => x :: trajectory s (s.next x u) rest

/-- A list of numbers cut into vectors of length `m`, if they come out even. -/
def cutInputs? (m : Nat) (entries : List α) : Option (List (Vec α m)) :=
  if m = 0 ∨ entries.length % m ≠ 0 then none
  else
    let entries := entries.toArray
    some ((List.range (entries.size / m)).map fun k =>
      Vec.ofFn fun j => entries.getD (k * m + j) Scalar.undefined)

theorem cutInputs?_eq_some {N : Nat} (width : m ≠ 0) {entries : List α}
    (length : entries.length = N * m) :
    cutInputs? m entries = some ((List.range N).map fun k =>
      Vec.ofFn fun j => entries.toArray.getD (k * m + j) Scalar.undefined) := by
  have even : ¬(m = 0 ∨ entries.length % m ≠ 0) := by simp [width, length]
  have count : entries.toArray.size / m = N := by
    rw [List.size_toArray, length, Nat.mul_div_cancel N (Nat.pos_of_ne_zero width)]
  rw [cutInputs?, if_neg even]
  simp only [count]

/-- The states from an array on, under an array of inputs that is cut into one vector a step. -/
def simulate (s : LinearSystem α n m) (x u : Tensor α) :
    Except Fault (List (Vec α n)) := do
  match cutInputs? m u.toList with
  | none => throw .incompatibleShapes
  | some inputs =>
    match (← x.fitTo [n]).toVec? n with
    | some x => return s.trajectory x inputs
    | none => throw .incompatibleShapes

/-! ### Analysis -/

/-- The largest magnitude of an eigenvalue of the state matrix. -/
def spectralRadius (kit : Kernels α) (s : LinearSystem α n m) : Except Fault α :=
  kit.spectralRadius s.dynamics

/-- Every eigenvalue of the state matrix lies inside the unit circle. -/
def isStable (kit : Kernels α) (s : LinearSystem α n m) : Except Fault Bool := do
  return decide ((← s.spectralRadius kit) < 1)

/-- The matrices `B`, `A B`, …, `A ^ (count - 1) B` side by side. -/
def reachability (s : LinearSystem α n m) (count : Nat) : Mat α n (count * m) :=
  let blocks := (s.dynamics.powers s.input count).toArray
  Mat.ofFn fun i j =>
    let j := j.val
    if h : 0 < m then
      match blocks[j / m]? with
      | some block => block i ⟨j % m, Nat.mod_lt j h⟩
      | none => 0
    else 0

/-- Every state can be reached from the origin. A system without states has one block all the same. -/
def isControllable (kit : Kernels α) (s : LinearSystem α n m) : Except Fault Bool := do
  return (← kit.rank (s.reachability (max n 1))) == n

/-! ### Feedback -/

/-- The system under the feedback `u = v - K x`. -/
def closedLoop (s : LinearSystem α n m) (K : Mat α m n) : LinearSystem α n m :=
  { s with dynamics := s.dynamics - s.input * K }

/-- The system under the feedback with an array as gain. -/
def prestabilized (s : LinearSystem α n m) (gain : Argument α) :
    Except Fault (LinearSystem α n m) := do
  let K ← gain.toTensor
  match K.toMat? m n with
  | some K => return s.closedLoop K
  | none => throw (.wrongShape "K" [m, n] K.shape)

theorem prestabilized_ofMat (s : LinearSystem α n m) (K : Mat α m n) :
    s.prestabilized (.array (.ofMat K)) = .ok (s.closedLoop K) := by
  simp [prestabilized, bind, Except.bind, pure, Except.pure]

end LinearSystem

end RecedingHorizon
