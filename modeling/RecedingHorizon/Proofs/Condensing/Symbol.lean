import RecedingHorizon.Proofs.Condensing.Toeplitz
import RecedingHorizon.Proofs.Exact.Circle

/-!
# The symbol of the Hessian

The symbol is a Hermitian matrix function on the unit circle. If the closed loop is stable and the
terminal weight solves its Lyapunov equation, the symbol is what one free variable costs in the steady
state of a frequency (`symbolAt_eq`), and its averages with the powers of `z` are the blocks of the
quadratic term, for every horizon (`average_symbolAt`).
-/

namespace RecedingHorizon

open Matrix Metric Real

variable {n m p : Nat}

/-- Linear equations in complex numbers are solved exactly. -/
def Kernels.SolvesComplex (kit : Kernels ℝ) : Prop :=
  ∀ {n k : Nat} (M : Mat (Complex ℝ) n n) (Y : Mat (Complex ℝ) n k), IsUnit M.toComplexMatrix →
    ∃ X, kit.solveComplex M Y = .ok X ∧ M * X = Y

namespace ConstrainedLqr

variable (problem : ConstrainedLqr ℝ n m p)

/-- The response `(z - A)⁻¹ B` of the closed loop. -/
noncomputable def response (z : ℂ) : Matrix (Fin n) (Fin m) ℂ :=
  Circle.resolvent problem.closedLoop.dynamics.overComplex z * problem.system.input.overComplex

/-- The symbol `p* Q p - R K q - q* K' R + R`, with `q = (z - A)⁻¹ B` and `p = z q`. -/
noncomputable def symbolAt (z : ℂ) : Matrix (Fin m) (Fin m) ℂ :=
  (z • problem.response z)ᴴ * problem.controlledStateWeight.overComplex * (z • problem.response z) -
      (problem.inputWeight * problem.gain).overComplex * problem.response z -
      ((problem.inputWeight * problem.gain).overComplex * problem.response z)ᴴ +
    problem.inputWeight.overComplex

/-- Every eigenvalue of the closed loop lies inside the unit circle. -/
def IsStable : Prop := Circle.IsStable problem.closedLoop.dynamics.overComplex

variable {problem} {kit : Kernels ℝ} {z : ℂ}

/-- On the circle the symbol is computed exactly, if linear equations are solved exactly. -/
theorem symbol_eq_ok (solves : kit.SolvesComplex) (stable : problem.IsStable) {z : Complex ℝ}
    (onCircle : z.value ∈ sphere (0 : ℂ) 1) :
    ∃ M, problem.symbol kit z = .ok M ∧ M.toComplexMatrix = problem.symbolAt z.value := by
  have shifted : (Mat.scale z (Mat.identity n) -
      toComplex problem.closedLoop.dynamics).toComplexMatrix =
      z.value • (1 : Matrix (Fin n) (Fin n) ℂ) - problem.closedLoop.dynamics.overComplex := by
    simp
  have unit := stable.isUnit_sub (mem_sphere_zero_iff_norm.mp onCircle).ge
  rw [← shifted] at unit
  obtain ⟨q, solved, equation⟩ := solves _ (toComplex problem.closedLoop.input) unit
  -- The solution is the inverse times the right side.
  have response : q.toComplexMatrix = problem.response z.value := by
    have product := congrArg Mat.toComplexMatrix equation
    rw [Mat.toComplexMatrix_mul, Mat.toComplexMatrix_toComplex] at product
    have inverse := congrArg ((Mat.scale z (Mat.identity n) -
      toComplex problem.closedLoop.dynamics).toComplexMatrix⁻¹ * ·) product
    simp only [Matrix.nonsing_inv_mul_cancel_left _ _ ((Matrix.isUnit_iff_isUnit_det _).mp unit)]
      at inverse
    rw [inverse, shifted]
    rfl
  simp only [symbol, solved, bind, Except.bind]
  refine ⟨_, rfl, ?_⟩
  simp only [Mat.toComplexMatrix_add, Mat.toComplexMatrix_sub, Mat.toComplexMatrix_mul,
    Mat.toComplexMatrix_adjoint, Mat.toComplexMatrix_scale, Mat.toComplexMatrix_toComplex, response]
  rfl

/-! ### Frequencies -/

theorem IsStable.smul_response (stable : problem.IsStable) (onCircle : z ∈ sphere (0 : ℂ) 1) :
    z • problem.response z = problem.system.input.overComplex +
      problem.closedLoop.dynamics.overComplex * problem.response z := by
  rw [response, ← Matrix.smul_mul, stable.smul_resolvent onCircle, Matrix.add_mul, Matrix.one_mul,
    Matrix.mul_assoc]

/-- What a weight `P - A' P A` costs at the next states of a frequency only depends on its input and
on its state there. -/
theorem weighted_response {A P : Matrix (Fin n) (Fin n) ℂ} {B G : Matrix (Fin n) (Fin m) ℂ}
    (onCircle : z ∈ sphere (0 : ℂ) 1) (moved : z • G = B + A * G) :
    (z • G)ᴴ * (P - Aᴴ * P * A) * (z • G) =
      Bᴴ * P * A * G + Gᴴ * Aᴴ * P * B + Bᴴ * P * B := by
  rw [Matrix.mul_sub, Matrix.sub_mul, Circle.conjTranspose_smul_mul_smul onCircle (Aᴴ * P * A),
    moved, Matrix.conjTranspose_add, Matrix.conjTranspose_mul]
  simp only [Matrix.add_mul, Matrix.mul_add, Matrix.mul_assoc]
  abel

/-- The terminal weight leaves the state weight behind when it is moved back by one stage. -/
theorem HasLyapunovWeight.controlledStateWeight_overComplex (lyapunov : problem.HasLyapunovWeight) :
    problem.controlledStateWeight.overComplex = problem.terminalWeight.overComplex -
      problem.closedLoop.dynamics.overComplexᴴ * problem.terminalWeight.overComplex *
        problem.closedLoop.dynamics.overComplex := by
  have equation := congrArg Mat.overComplex lyapunov
  simp only [Mat.overComplex_add, Mat.overComplex_mul, Mat.overComplex_transpose] at equation
  exact eq_sub_of_add_eq' equation.symm

/-- Without a cross weight, a free variable is coupled to the state through the terminal weight and the
gain. -/
theorem freeCoupling_overComplex (cross : problem.crossWeight = 0)
    (input : problem.inputWeight.transpose = problem.inputWeight) :
    problem.freeCoupling.overComplex =
      problem.system.input.overComplexᴴ * problem.terminalWeight.overComplex *
        problem.closedLoop.dynamics.overComplex -
        (problem.inputWeight * problem.gain).overComplex := by
  have free : problem.controlledCrossWeight = -(problem.gain.transpose * problem.inputWeight) := by
    apply Mat.toMatrix_inj.mp
    rw [controlledCrossWeight, controlledCross, cross, Mat.toMatrix_sub, Mat.toMatrix_zero,
      zero_sub, Mat.toMatrix_neg]
  have mirrored : (problem.gain.transpose * problem.inputWeight).overComplexᴴ =
      (problem.inputWeight * problem.gain).overComplex := by
    rw [← Mat.overComplex_transpose]
    congr 1
    apply Mat.toMatrix_inj.mp
    simp only [Mat.toMatrix_transpose, Mat.toMatrix_mul, Matrix.transpose_mul,
      Matrix.transpose_transpose, (Mat.isSymm_of_transpose_eq input).eq]
  rw [freeCoupling, Regulator.coupling, Mat.overComplex_add, Mat.overComplex_mul,
    Mat.overComplex_mul, Mat.overComplex_transpose, Mat.overComplex_transpose, free,
    Mat.overComplex_neg, Matrix.conjTranspose_neg, mirrored, sub_eq_add_neg]

/-- The symbol is the cost of a free variable and its coupling to the state that it causes. -/
theorem HasLyapunovWeight.symbolAt_eq (lyapunov : problem.HasLyapunovWeight)
    (stable : problem.IsStable) (cross : problem.crossWeight = 0)
    (input : problem.inputWeight.transpose = problem.inputWeight)
    (terminal : problem.terminalWeight.transpose = problem.terminalWeight)
    (onCircle : z ∈ sphere (0 : ℂ) 1) :
    problem.symbolAt z = problem.freeCost.overComplex +
      (problem.freeCoupling.overComplex * problem.response z +
        (problem.freeCoupling.overComplex * problem.response z)ᴴ) := by
  have hermitian := Mat.isHermitian_overComplex terminal
  rw [symbolAt, lyapunov.controlledStateWeight_overComplex,
    weighted_response onCircle (stable.smul_response onCircle), freeCoupling_overComplex cross input]
  simp only [freeCost, Regulator.inputCost, Mat.overComplex_add, Mat.overComplex_mul,
    Mat.overComplex_transpose, Matrix.sub_mul, Matrix.conjTranspose_sub, Matrix.conjTranspose_mul,
    Matrix.conjTranspose_conjTranspose, hermitian.eq, Matrix.mul_assoc]
  abel

/-! ### Averages -/

theorem IsStable.continuous_response (stable : problem.IsStable) :
    Continuous fun z : sphere (0 : ℂ) 1 => problem.response z := by
  have resolvent : Continuous fun z : sphere (0 : ℂ) 1 =>
      Circle.resolvent problem.closedLoop.dynamics.overComplex z :=
    continuous_matrix fun k l =>
      continuousOn_iff_continuous_domRestrict.mp (stable.continuousOn_resolvent k l)
  exact resolvent.matrix_mul continuous_const

theorem IsStable.continuous_symbolAt (stable : problem.IsStable) :
    Continuous fun z : sphere (0 : ℂ) 1 => problem.symbolAt z := by
  have response := stable.continuous_response
  have next : Continuous fun z : sphere (0 : ℂ) 1 => (z : ℂ) • problem.response z :=
    continuous_subtype_val.smul response
  have cross := Continuous.matrix_mul
    (continuous_const (y := (problem.inputWeight * problem.gain).overComplex)) response
  exact ((((next.matrix_conjTranspose.matrix_mul continuous_const).matrix_mul next).sub cross).sub
    cross.matrix_conjTranspose).add continuous_const

/-- A combination of the entries of the resolvent has the combination of their averages. -/
theorem IsStable.average_mul_response (stable : problem.IsStable) {l : Nat}
    (F : Matrix (Fin l) (Fin n) ℂ) {g : ℂ → ℂ} (continuous : ContinuousOn g (sphere 0 1))
    {M : Matrix (Fin n) (Fin n) ℂ}
    (averages : ∀ i j, circleAverage (fun z =>
      g z * Circle.resolvent problem.closedLoop.dynamics.overComplex z i j) 0 1 = M i j)
    (a : Fin l) (b : Fin m) :
    circleAverage (fun z => g z * (F * problem.response z) a b) 0 1 =
      (F * M * problem.system.input.overComplex) a b := by
  have form (R : Matrix (Fin n) (Fin n) ℂ) : (F * R * problem.system.input.overComplex) a b =
      F a ⬝ᵥ R *ᵥ fun j => problem.system.input.overComplex j b := by
    rw [Matrix.mul_assoc]
    rfl
  have products (z : ℂ) : g z * (F * problem.response z) a b =
      F a ⬝ᵥ (g z • Circle.resolvent problem.closedLoop.dynamics.overComplex z) *ᵥ
        fun j => problem.system.input.overComplex j b := by
    rw [response, ← Matrix.mul_assoc, form, Matrix.smul_mulVec, dotProduct_smul, smul_eq_mul]
  simp only [products, form]
  exact Circle.average_form
    (fun i j => continuous.fun_mul (stable.continuousOn_resolvent i j)) averages _ _

/-- The averages of a combination of the response with the powers of `z` are what it makes of the
response to an impulse. -/
theorem IsStable.average_response (stable : problem.IsStable) {l : Nat}
    (F : Matrix (Fin l) (Fin n) ℂ) (k : ℤ) (a : Fin l) (b : Fin m) :
    circleAverage (fun z => z ^ k * (F * problem.response z) a b) 0 1 =
      if 0 < k then (F * problem.closedLoop.dynamics.overComplex ^ (k - 1).toNat *
        problem.system.input.overComplex) a b else 0 := by
  have continuous := Circle.continuousOn_zpow k
  -- Only a positive power meets a term of the series of the resolvent in powers of the dynamics.
  split
  · next positive =>
    obtain ⟨d, rfl⟩ : ∃ d : ℕ, k = d + 1 := ⟨(k - 1).toNat, by omega⟩
    have exponent : ((d : ℤ) + 1 - 1).toNat = d := by omega
    rw [exponent]
    refine stable.average_mul_response F continuous (fun i j => ?_) a b
    exact Circle.average_resolvent stable d i j
  · next nonpos =>
    obtain ⟨d, rfl⟩ : ∃ d : ℕ, k = -d := ⟨(-k).toNat, by omega⟩
    have none := stable.average_mul_response F (M := 0) continuous (fun i j => by
      simpa using Circle.average_resolvent_neg stable d i j) a b
    rwa [Matrix.mul_zero, Matrix.zero_mul] at none

theorem overComplex_lagCoupling (d : Nat) :
    (problem.lagCoupling d).overComplex = problem.freeCoupling.overComplex *
      problem.closedLoop.dynamics.overComplex ^ d * problem.system.input.overComplex := by
  have power : (Prediction.propagate problem.closedLoop.dynamics problem.system.input d).overComplex =
      problem.closedLoop.dynamics.overComplex ^ d * problem.system.input.overComplex := by
    rw [Mat.overComplex, Prediction.toMatrix_propagate, Matrix.map_mul, Matrix.map_pow]
    rfl
  rw [lagCoupling, Mat.overComplex_mul, power, Matrix.mul_assoc]

/-- The coupling of a free variable to the state that it causes. -/
noncomputable def coupledResponse (problem : ConstrainedLqr ℝ n m p) (z : ℂ) :
    Matrix (Fin m) (Fin m) ℂ :=
  problem.freeCoupling.overComplex * problem.response z

theorem IsStable.continuousOn_coupledResponse (stable : problem.IsStable) (k : ℤ) (a b : Fin m) :
    ContinuousOn (fun z => z ^ k * problem.coupledResponse z a b) (sphere 0 1) := by
  refine (Circle.continuousOn_zpow k).mul ?_
  rw [continuousOn_iff_continuous_domRestrict]
  exact (continuous_const.matrix_mul stable.continuous_response).matrix_elem a b

/-- On the circle an entry of the symbol has three terms, and the last one is the conjugate of the
second. -/
theorem HasLyapunovWeight.zpow_mul_symbolAt (lyapunov : problem.HasLyapunovWeight)
    (stable : problem.IsStable) (cross : problem.crossWeight = 0)
    (input : problem.inputWeight.transpose = problem.inputWeight)
    (terminal : problem.terminalWeight.transpose = problem.terminalWeight) (k : ℤ) (a b : Fin m)
    (onCircle : z ∈ sphere (0 : ℂ) 1) :
    z ^ k * problem.symbolAt z a b =
      problem.freeCost.overComplex a b * z ^ k +
        (z ^ k * problem.coupledResponse z a b + star (z ^ (-k) * problem.coupledResponse z b a)) := by
  have opposite : star (z ^ (-k)) = z ^ k := by
    rw [Circle.star_zpow onCircle, neg_neg]
  simp only [lyapunov.symbolAt_eq stable cross input terminal onCircle, coupledResponse,
    Matrix.add_apply, Matrix.conjTranspose_apply, star_mul', opposite]
  ring

/-- The averages of the symbol with the powers of `z` are the blocks of the quadratic term. -/
theorem HasLyapunovWeight.average_symbolAt (lyapunov : problem.HasLyapunovWeight)
    (stable : problem.IsStable) (cross : problem.crossWeight = 0)
    (input : problem.inputWeight.transpose = problem.inputWeight)
    (terminal : problem.terminalWeight.transpose = problem.terminalWeight) (i j : Nat)
    (a b : Fin m) :
    circleAverage (fun z => z ^ ((i : ℤ) - j) * problem.symbolAt z a b) 0 1 =
      (problem.distanceBlock i j).overComplex a b := by
  have terms : Set.EqOn (fun z => z ^ ((i : ℤ) - j) * problem.symbolAt z a b)
      (fun z => problem.freeCost.overComplex a b * z ^ ((i : ℤ) - j) +
        (z ^ ((i : ℤ) - j) * problem.coupledResponse z a b +
          star (z ^ (-((i : ℤ) - j)) * problem.coupledResponse z b a)))
      (sphere 0 |(1 : ℝ)|) := by
    intro z onCircle
    rw [abs_one] at onCircle
    exact lyapunov.zpow_mul_symbolAt stable cross input terminal _ a b onCircle
  have continuous := stable.continuousOn_coupledResponse
  have constant : ContinuousOn (fun z : ℂ => problem.freeCost.overComplex a b * z ^ ((i : ℤ) - j))
      (sphere 0 1) :=
    continuousOn_const.mul (Circle.continuousOn_zpow _)
  have conjugate := (continuous (-((i : ℤ) - j)) b a).star
  rw [circleAverage_congr_sphere terms,
    circleAverage_fun_add (constant.circleIntegrable zero_le_one)
      (((continuous _ a b).fun_add conjugate).circleIntegrable zero_le_one),
    circleAverage_fun_add ((continuous _ a b).circleIntegrable zero_le_one)
      (conjugate.circleIntegrable zero_le_one),
    Circle.average_const_mul, Circle.average_zpow, Circle.average_star (continuous _ b a), neg_sub]
  simp only [coupledResponse, stable.average_response]
  -- Only one of the three averages is there, according to the order of the stages.
  rcases lt_trichotomy i j with before | same | after
  · have exponent : ((j : ℤ) - i - 1).toNat = j - 1 - i := by omega
    rw [if_neg (by omega), if_neg (by omega), if_pos (by omega), exponent,
      ← overComplex_lagCoupling, distanceBlock, if_neg (by omega), if_neg (by omega),
      Mat.overComplex_transpose, Matrix.conjTranspose_apply, mul_zero, zero_add, zero_add]
  · rw [if_pos (by omega), if_neg (by omega), if_neg (by omega), distanceBlock, if_pos same,
      star_zero, add_zero, add_zero, mul_one]
  · have exponent : ((i : ℤ) - j - 1).toNat = i - 1 - j := by omega
    rw [if_neg (by omega), if_pos (by omega), if_neg (by omega), exponent,
      ← overComplex_lagCoupling, distanceBlock, if_neg (by omega), if_pos after, star_zero, mul_zero,
      zero_add, add_zero]

end ConstrainedLqr

end RecedingHorizon
