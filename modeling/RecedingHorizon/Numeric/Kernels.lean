import RecedingHorizon.Linear.Complex
import RecedingHorizon.Linear.Matrix
import RecedingHorizon.Error

/-!
# Numerical methods

Eigenvalues, matrix equations and auxiliary programs are found by methods that stop at working
accuracy. The library takes them as one record, so that everything built on top of them can be
reasoned about from what the methods promise, in exact arithmetic as well as in floating point. Each
field says what its answer is meant to be; the floating-point record is in
`RecedingHorizon.Numeric.Floating`.
-/

namespace RecedingHorizon

/-- The methods that the library relies on. -/
structure Kernels (α : Type) where
  /-- The eigenvalues of the symmetric matrix with the given lower triangle, in increasing order. -/
  eigenvalues : {n : Nat} → Mat α n n → Except Fault (Vec α n)
  /-- The eigenvalues of the Hermitian matrix with the given lower triangle, in increasing order. -/
  hermitianEigenvalues : {n : Nat} → Mat (Complex α) n n → Except Fault (Vec α n)
  /-- The largest magnitude of an eigenvalue. -/
  spectralRadius : {n : Nat} → Mat α n n → Except Fault α
  /-- The dimension of the span of the columns. -/
  rank : {m n : Nat} → Mat α m n → Except Fault Nat
  /-- The ratio of the largest to the smallest singular value. -/
  conditionNumber : {m n : Nat} → Mat α m n → Except Fault α
  /-- The solution `X` of `M X = Y`. -/
  solve : {n k : Nat} → Mat α n n → Mat α n k → Except Fault (Mat α n k)
  /-- The solution `X` of `M X = Y` in complex numbers. -/
  solveComplex : {n k : Nat} → Mat (Complex α) n n → Mat (Complex α) n k →
    Except Fault (Mat (Complex α) n k)
  /-- The stabilizing solution `X` of
  `X = A' X A - (A' X B + S) (R + B' X B)⁻¹ (B' X A + S') + Q`, for given `A`, `B`, `Q`, `R`, `S`. -/
  riccati : {n m : Nat} → Mat α n n → Mat α n m → Mat α n n → Mat α m m → Mat α n m →
    Option (Mat α n n)
  /-- The solution `X` of `X = A X A' + Q`, for given `A` and `Q`. -/
  lyapunov : {n : Nat} → Mat α n n → Mat α n n → Option (Mat α n n)
  /-- The non-negative vector `u` for which `M u` is nearest to `y`. -/
  nonnegativeLeastSquares : {m n : Nat} → Mat α m n → Vec α m → Except Fault (Vec α n)
  /-- The shortest vector `x` for which `M x` is nearest to `y`. -/
  leastSquares : {m n : Nat} → Mat α m n → Vec α m → Except Fault (Vec α n)
  /-- A minimizer of `½ x' P x + q' x` subject to `G x ≤ g`. -/
  quadraticProgram : {m n : Nat} → Mat α n n → Vec α n → Mat α m n → Vec α m →
    Except Fault (Vec α n)
  /-- A zero of a function between two points, unless it has one strict sign at both. -/
  rootBetween : (α → α) → α → α → Option α

end RecedingHorizon
