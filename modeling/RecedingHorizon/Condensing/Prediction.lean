import RecedingHorizon.Linear.Stacked
import RecedingHorizon.System.Linear

/-!
# Predictions over a horizon

The states and inputs of a horizon are linear in the stack of the free variables and in the first
state. This file holds the matrices of these maps, given by their blocks: an input reaches a later
state through a power of the state matrix, and reaches a later input through that state and the
feedback.
-/

namespace RecedingHorizon.Prediction

variable {α : Type} [Scalar α] {n m k : Nat}

/-- The matrix `A ^ i * X`. -/
def propagate (A : Mat α n n) (X : Mat α n k) : Nat → Mat α n k
  | 0 => X
  | i + 1 => A * propagate A X i

/-- One more factor may also be taken into the start. -/
theorem propagate_mul (A : Mat α n n) (X : Mat α n k) (i : Nat) :
    propagate A (A * X) i = propagate A X (i + 1) := by
  induction i with
  | zero => rfl
  | succ i ih =>
    rw [propagate, ih]
    rfl

/-- The matrices `A ^ i * X` for `i < N`. -/
def table (A : Mat α n n) (X : Mat α n k) (N : Nat) : Vector (Mat α n k) N :=
  Vector.ofFn fun i => propagate A X i.val

theorem table_get (A : Mat α n n) (X : Mat α n k) (i : Fin N) :
    table A X N i = propagate A X i.val :=
  Vec.ofFn_get _ i

theorem map_table_get {β : Type} (f : Mat α n k → β) (A : Mat α n n) (X : Mat α n k) (i : Fin N) :
    ((table A X N).map f) i = f (propagate A X i.val) := by
  rw [← table_get]
  exact Vector.getElem_map ..

/-- The stage `i - j` of a horizon. -/
def lag {N : Nat} (i j : Fin N) : Fin N := ⟨i.val - j.val, by have := i.isLt; omega⟩

/-- The stage `i - 1 - j` of a horizon. -/
def lagBefore {N : Nat} (i j : Fin N) : Fin N := ⟨i.val - 1 - j.val, by have := i.isLt; omega⟩

/-! ### States -/

/-- The map from the inputs to the states `x₁, …, x_N`: block `(i, j)` is `A ^ (i - j) B` on and
below the diagonal. -/
def inputsToStates (s : LinearSystem α n m) (N : Nat) : Mat α (N * n) (N * m) :=
  let responses := table s.dynamics s.input N
  Mat.ofBlocks fun i j => if j ≤ i then responses (lag i j) else 0

theorem inputsToStates_eq (s : LinearSystem α n m) (N : Nat) :
    inputsToStates s N = Mat.ofBlocks fun i j =>
      if j ≤ i then propagate s.dynamics s.input (i.val - j.val) else 0 := by
  simp only [inputsToStates, table_get]
  rfl

/-- The map from the inputs to the states `x₀, …, x_{N-1}` that meet them: the same blocks, one
block row further down. -/
def inputsToPriorStates (s : LinearSystem α n m) (N : Nat) : Mat α (N * n) (N * m) :=
  let responses := table s.dynamics s.input N
  Mat.ofBlocks fun i j => if j < i then responses (lagBefore i j) else 0

theorem inputsToPriorStates_eq (s : LinearSystem α n m) (N : Nat) :
    inputsToPriorStates s N = Mat.ofBlocks fun i j =>
      if j < i then propagate s.dynamics s.input (i.val - 1 - j.val) else 0 := by
  simp only [inputsToPriorStates, table_get]
  rfl

/-- The map from the first state to the states `x₁, …, x_N`: block `i` is `A ^ (i + 1)`. -/
def initialToStates (s : LinearSystem α n m) (N : Nat) : Mat α (N * n) n :=
  let powers := table s.dynamics s.dynamics N
  Mat.ofBlockColumn fun i => powers i

/-- The map from the first state to the states `x₀, …, x_{N-1}`: block `i` is `A ^ i`. -/
def initialToPriorStates (s : LinearSystem α n m) (N : Nat) : Mat α (N * n) n :=
  let powers := table s.dynamics (Mat.identity n) N
  Mat.ofBlockColumn fun i => powers i

/-! ### Inputs under a feedback -/

/-- The map from free variables to inputs, given what stage `j` contributes to stage `j + 1 + d`. -/
def throughFeedback {N : Nat} (later : Fin N → Mat α m m) : Mat α (N * m) (N * m) :=
  Mat.ofBlocks fun i j =>
    if i = j then Mat.identity m else if j < i then later (lagBefore i j) else 0

/-- The map from the free variables `v` to the inputs `u = v - K x` from the origin, for a system
that is already the closed loop: identities on the diagonal and `-K A ^ (i - 1 - j) B` below it. -/
def freeToInputs (s : LinearSystem α n m) (K : Mat α m n) (N : Nat) : Mat α (N * m) (N * m) :=
  let reactions : Vector (Mat α m m) N := (table s.dynamics s.input N).map fun X => -K * X
  throughFeedback fun d => reactions d

theorem freeToInputs_eq (s : LinearSystem α n m) (K : Mat α m n) (N : Nat) :
    freeToInputs s K N = Mat.ofBlocks fun i j =>
      if i = j then Mat.identity m
      else if j < i then -K * propagate s.dynamics s.input (i.val - 1 - j.val) else 0 := by
  simp only [freeToInputs, throughFeedback, map_table_get]
  rfl

/-- The map from the first state to the inputs, for a system that is already the closed loop: block
`i` is `-K A ^ i`. -/
def initialToInputs (s : LinearSystem α n m) (K : Mat α k n) (N : Nat) : Mat α (N * k) n :=
  let reactions : Vector (Mat α k n) N :=
    (table s.dynamics (Mat.identity n) N).map fun X => -K * X
  Mat.ofBlockColumn fun i => reactions i

end RecedingHorizon.Prediction
