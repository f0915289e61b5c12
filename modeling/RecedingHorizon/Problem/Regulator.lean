import RecedingHorizon.Argument.Basic
import RecedingHorizon.Numeric.Kernels

/-!
# The linear-quadratic regulator

Without constraints and over an infinite horizon the best input is a fixed multiple `-K x` of the
state. `feedback` is the gain that minimizes one stage cost together with a quadratic cost `X` of
the next state, and `gain` takes for `X` the solution of the Riccati equation.
-/

namespace RecedingHorizon.Regulator

variable {α : Type} [Scalar α] {n m : Nat}

/-- The matrix `R + B' X B` of the cost of an input. -/
def inputCost (B : Mat α n m) (R : Mat α m m) (X : Mat α n n) : Mat α m m :=
  R + B.transpose * X * B

/-- The matrix `B' X A + S'` that couples the input to the state. -/
def coupling (A : Mat α n n) (B : Mat α n m) (S : Mat α n m) (X : Mat α n n) : Mat α m n :=
  B.transpose * X * A + S.transpose

/-- The gain `(R + B' X B)⁻¹ (B' X A + S')`. -/
def feedback (kit : Kernels α) (A : Mat α n n) (B : Mat α n m) (R : Mat α m m) (S : Mat α n m)
    (X : Mat α n n) : Except Fault (Mat α m n) :=
  kit.solve (inputCost B R X) (coupling A B S X)

/-- The gain for an infinite horizon. -/
def gain (kit : Kernels α) (A : Mat α n n) (B : Mat α n m) (Q : Mat α n n) (R : Mat α m m)
    (S : Mat α n m) : Except Fault (Mat α m n) :=
  match kit.riccati A B Q R S with
  | some X => feedback kit A B R S X
  | none => .error .riccatiUnsolved

/-- The gain for arrays, which have to be matrices that fit together. Without a cross weight it is
zero. -/
def gainOf (kit : Kernels α) (a b q r : Tensor α) (s? : Option (Tensor α)) :
    Except Fault (Tensor α) := do
  match b with
  | ⟨[n, m], cells⟩ =>
    let B : Mat α n m := ⟨cells⟩
    let s := s?.getD (.ofMat (0 : Mat α n m))
    match a.toMat? n n, q.toMat? n n, r.toMat? m m, s.toMat? n m with
    | some A, some Q, some R, some S => return .ofMat (← gain kit A B Q R S)
    | _, _, _, _ => throw .riccatiUnsolved
  | _ => throw .riccatiUnsolved

end RecedingHorizon.Regulator
