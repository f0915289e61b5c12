import RecedingHorizon.Condensing.Prediction
import RecedingHorizon.Proofs.Exact.Stacked
import RecedingHorizon.System.Rollout

/-!
# Predictions and rollouts

In exact arithmetic the state of a stage is the free motion of the first state plus the responses to
all earlier inputs (`get_stateAt`). Read block row by block row, the prediction matrices of the
closed loop list exactly these terms, so they send the free variables and the first state to the
states and inputs of the rollout (`stack_later_states`, `stack_prior_states`, `stack_inputs`).
-/

namespace RecedingHorizon

open Matrix

variable {N n m k : Nat}

namespace Vec

theorem partAt_val (v : Vec ℝ (N * m)) (s : Fin N) : v.partAt s.val = v.part s := dif_pos s.isLt

theorem partAt_stack (parts : Fin N → Vec ℝ m) (s : Fin N) :
    (stack parts).partAt s.val = parts s := by
  rw [partAt_val, part_stack]

theorem partAt_zeros (j : Nat) : (zeros (N * m) : Vec ℝ (N * m)).partAt j = zeros m := by
  unfold partAt
  split
  · exact part_zeros _
  · rfl

end Vec

namespace LinearSystem

variable (s : LinearSystem ℝ n m) (K : Mat ℝ m n)

theorem get_applied (x : Vec ℝ n) (v : Vec ℝ m) :
    (applied K x v).get = v.get - K.toMatrix *ᵥ x.get := by
  simp [applied]

theorem applied_zero (x : Vec ℝ n) (v : Vec ℝ m) : applied 0 x v = v := by
  apply Vec.get_inj.mp
  simp [get_applied]

/-- Under the feedback the state moves with the closed loop. -/
theorem get_next_applied (x : Vec ℝ n) (v : Vec ℝ m) :
    (s.next x (applied K x v)).get =
      (s.closedLoop K).dynamics.toMatrix *ᵥ x.get + s.input.toMatrix *ᵥ v.get := by
  simp only [next, closedLoop, Vec.get_add, Mat.get_mulVec, get_applied, Mat.toMatrix_sub,
    Mat.toMatrix_mul, sub_mulVec, mulVec_sub, mulVec_mulVec]
  abel

/-- What the inputs before stage `k` contribute to its state. -/
noncomputable def response (v : Nat → Vec ℝ m) (k : Nat) : Fin n → ℝ :=
  ∑ j ∈ Finset.range k, (s.dynamics.toMatrix ^ (k - 1 - j) * s.input.toMatrix) *ᵥ (v j).get

theorem response_succ (v : Nat → Vec ℝ m) (k : Nat) :
    s.response v (k + 1) =
      s.dynamics.toMatrix *ᵥ s.response v k + s.input.toMatrix *ᵥ (v k).get := by
  -- The response to an earlier input takes one more step, the latest input none.
  have earlier (j : Nat) (before : j ∈ Finset.range k) :
      (s.dynamics.toMatrix ^ (k + 1 - 1 - j) * s.input.toMatrix) *ᵥ (v j).get =
        s.dynamics.toMatrix *ᵥ
          (s.dynamics.toMatrix ^ (k - 1 - j) * s.input.toMatrix) *ᵥ (v j).get := by
    have later : k + 1 - 1 - j = k - 1 - j + 1 := by
      have := Finset.mem_range.mp before
      omega
    rw [later, pow_succ', Matrix.mul_assoc, ← mulVec_mulVec]
  rw [response, Finset.sum_range_succ, Finset.sum_congr rfl earlier, response, mulVec_sum]
  simp

/-- The state of a stage is the free motion of the first state plus the responses to the inputs. -/
theorem get_stateAt (x : Vec ℝ n) (v : Nat → Vec ℝ m) (k : Nat) :
    (s.stateAt K x v k).get =
      (s.closedLoop K).dynamics.toMatrix ^ k *ᵥ x.get + (s.closedLoop K).response v k := by
  induction k with
  | zero => simp [response]
  | succ k ih =>
    rw [stateAt_succ, inputAt, get_next_applied, ih, response_succ, pow_succ', mulVec_add,
      mulVec_mulVec, add_assoc]
    rfl

/-- Without a gain the feedback leaves the system as it is. -/
theorem closedLoop_zero : s.closedLoop 0 = s := by
  have dynamics : s.dynamics - s.input * (0 : Mat ℝ m n) = s.dynamics := by
    apply Mat.toMatrix_inj.mp
    simp
  rw [closedLoop, dynamics]

/-- The state of a stage depends on the free variables before it only. -/
theorem stateAt_congr {v w : Nat → Vec ℝ m} {k : Nat} (x : Vec ℝ n)
    (same : ∀ j < k, v j = w j) : s.stateAt K x v k = s.stateAt K x w k := by
  induction k with
  | zero => rfl
  | succ k ih =>
    have state := ih fun j before => same j (Nat.lt_succ_of_lt before)
    rw [stateAt, stateAt, state, same k (Nat.lt_succ_self k)]

/-- Applied without the feedback, the inputs of a rollout lead to the same states. -/
theorem stateAt_inputAt (x : Vec ℝ n) (v : Nat → Vec ℝ m) (k : Nat) :
    s.stateAt 0 x (s.inputAt K x v) k = s.stateAt K x v k := by
  induction k with
  | zero => rfl
  | succ k ih => rw [stateAt, applied_zero, ih, stateAt_succ]

/-- The inputs of a horizon, applied as a stack. -/
theorem stateAt_stack_inputs (x : Vec ℝ n) (v : Nat → Vec ℝ m) {k : Nat} (inside : k ≤ N) :
    s.stateAt 0 x (Vec.stack fun i : Fin N => s.inputAt K x v i.val).partAt k =
      s.stateAt K x v k := by
  rw [← s.stateAt_inputAt K x v k]
  apply stateAt_congr
  intro j before
  exact Vec.partAt_stack _ (⟨j, before.trans_le inside⟩ : Fin N)

end LinearSystem

namespace Prediction

variable (s : LinearSystem ℝ n m)

theorem toMatrix_propagate (A : Mat ℝ n n) (X : Mat ℝ n k) (i : Nat) :
    (propagate A X i).toMatrix = A.toMatrix ^ i * X.toMatrix := by
  induction i with
  | zero => simp [propagate]
  | succ i ih => rw [propagate, Mat.toMatrix_mul, ih, pow_succ', Matrix.mul_assoc]

/-- A block row that ends before column `c` only reads the parts before `c`. -/
theorem get_part_mulVec_of_row {blocks : Fin N → Fin N → Mat ℝ k m} {i : Fin N} {c : Nat}
    (inside : c ≤ N) (f : Nat → Matrix (Fin k) (Fin m) ℝ)
    (row : ∀ j, (blocks i j).toMatrix = if j.val < c then f j.val else 0) (v : Vec ℝ (N * m)) :
    (((Mat.ofBlocks blocks).mulVec v).part i).get =
      ∑ j ∈ Finset.range c, f j *ᵥ (v.partAt j).get := by
  -- The blocks behind the column vanish, so the sum over a whole row is a sum over its start.
  have term (j : Fin N) : (blocks i j).toMatrix *ᵥ (v.part j).get =
      if j.val < c then f j.val *ᵥ (v.partAt j.val).get else 0 := by
    rw [row, ← Vec.partAt_val]
    split
    · rfl
    · exact zero_mulVec _
  have columns : (Finset.range N).filter (· < c) = Finset.range c := by
    ext j
    simp only [Finset.mem_filter, Finset.mem_range]
    omega
  rw [Mat.get_part_mulVec_ofBlocks, Finset.sum_congr rfl fun j _ => term j,
    Fin.sum_univ_eq_sum_range (fun j => if j < c then f j *ᵥ (v.partAt j).get else 0),
    ← Finset.sum_filter, columns]

theorem get_part_inputsToPriorStates (v : Vec ℝ (N * m)) (i : Fin N) :
    (((inputsToPriorStates s N).mulVec v).part i).get = s.response v.partAt i.val := by
  rw [inputsToPriorStates_eq, LinearSystem.response]
  refine get_part_mulVec_of_row i.isLt.le
    (fun j => s.dynamics.toMatrix ^ (i.val - 1 - j) * s.input.toMatrix) (fun j => ?_) v
  by_cases before : j < i
  · rw [if_pos before, if_pos (Fin.lt_def.mp before), toMatrix_propagate]
  · rw [if_neg before, if_neg (mt Fin.lt_def.mpr before), Mat.toMatrix_zero]

theorem get_part_inputsToStates (v : Vec ℝ (N * m)) (i : Fin N) :
    (((inputsToStates s N).mulVec v).part i).get = s.response v.partAt (i.val + 1) := by
  rw [inputsToStates_eq, LinearSystem.response]
  refine get_part_mulVec_of_row i.isLt
    (fun j => s.dynamics.toMatrix ^ (i.val + 1 - 1 - j) * s.input.toMatrix) (fun j => ?_) v
  by_cases upTo : j ≤ i
  · rw [if_pos upTo, if_pos (Nat.lt_succ_of_le upTo), toMatrix_propagate, Nat.add_sub_cancel]
  · rw [if_neg upTo, if_neg (mt Nat.le_of_lt_succ upTo), Mat.toMatrix_zero]

theorem get_part_initialToPriorStates (x : Vec ℝ n) (i : Fin N) :
    (((initialToPriorStates s N).mulVec x).part i).get =
      s.dynamics.toMatrix ^ i.val *ᵥ x.get := by
  rw [initialToPriorStates, Mat.part_mulVec_ofBlockColumn, table_get, Mat.get_mulVec,
    toMatrix_propagate, Mat.toMatrix_identity, Matrix.mul_one]

theorem get_part_initialToStates (x : Vec ℝ n) (i : Fin N) :
    (((initialToStates s N).mulVec x).part i).get =
      s.dynamics.toMatrix ^ (i.val + 1) *ᵥ x.get := by
  rw [initialToStates, Mat.part_mulVec_ofBlockColumn, table_get, Mat.get_mulVec,
    toMatrix_propagate, pow_succ]

/-- The map from free variables to inputs subtracts the feedback of the prior states. -/
theorem get_part_freeToInputs (K : Mat ℝ m n) (v : Vec ℝ (N * m)) (i : Fin N) :
    (((freeToInputs s K N).mulVec v).part i).get =
      (v.part i).get - K.toMatrix *ᵥ (((inputsToPriorStates s N).mulVec v).part i).get := by
  have block (j : Fin N) :
      (if i = j then Mat.identity m
        else if j < i then -K * propagate s.dynamics s.input (i.val - 1 - j.val)
        else 0).toMatrix *ᵥ (v.part j).get =
      (if i = j then (v.part j).get else 0) - K.toMatrix *ᵥ
        (if j < i then propagate s.dynamics s.input (i.val - 1 - j.val) else 0).toMatrix *ᵥ
          (v.part j).get := by
    -- The identity on the diagonal, the feedback below it, nothing above it.
    rcases eq_or_ne i j with rfl | other
    · simp
    · by_cases before : j < i <;> simp [other, before, neg_mulVec]
  rw [freeToInputs_eq, inputsToPriorStates_eq, Mat.get_part_mulVec_ofBlocks,
    Mat.get_part_mulVec_ofBlocks, mulVec_sum, Finset.sum_congr rfl fun j _ => block j,
    Finset.sum_sub_distrib, Finset.sum_ite_eq, if_pos (Finset.mem_univ i)]

theorem get_part_initialToInputs (K : Mat ℝ m n) (x : Vec ℝ n) (i : Fin N) :
    (((initialToInputs s K N).mulVec x).part i).get =
      -(K.toMatrix *ᵥ (((initialToPriorStates s N).mulVec x).part i).get) := by
  rw [initialToInputs, Mat.part_mulVec_ofBlockColumn, map_table_get, Mat.get_mulVec,
    get_part_initialToPriorStates, Mat.toMatrix_mul, Mat.toMatrix_neg, toMatrix_propagate,
    Mat.toMatrix_identity, Matrix.mul_one, Matrix.neg_mul, neg_mulVec, mulVec_mulVec]

end Prediction

namespace LinearSystem

variable (s : LinearSystem ℝ n m) (K : Mat ℝ m n) (x : Vec ℝ n) (v : Vec ℝ (N * m))

open Prediction

/-- The states `x₁, …, x_N` of the rollout are the predicted ones. -/
theorem stack_later_states :
    Vec.stack (fun i : Fin N => s.stateAt K x v.partAt (i.val + 1)) =
      (inputsToStates (s.closedLoop K) N).mulVec v +
        (initialToStates (s.closedLoop K) N).mulVec x := by
  apply Vec.ext_part
  intro i
  apply Vec.get_inj.mp
  rw [Vec.part_stack, Vec.part_add, Vec.get_add, get_part_inputsToStates, get_part_initialToStates,
    get_stateAt, add_comm]

/-- The states `x₀, …, x_{N-1}` of the rollout are the predicted ones. -/
theorem stack_prior_states :
    Vec.stack (fun i : Fin N => s.stateAt K x v.partAt i.val) =
      (inputsToPriorStates (s.closedLoop K) N).mulVec v +
        (initialToPriorStates (s.closedLoop K) N).mulVec x := by
  apply Vec.ext_part
  intro i
  apply Vec.get_inj.mp
  rw [Vec.part_stack, Vec.part_add, Vec.get_add, get_part_inputsToPriorStates,
    get_part_initialToPriorStates, get_stateAt, add_comm]

/-- The inputs `u₀, …, u_{N-1}` of the rollout are the predicted ones. -/
theorem stack_inputs :
    Vec.stack (fun i : Fin N => s.inputAt K x v.partAt i.val) =
      (freeToInputs (s.closedLoop K) K N).mulVec v +
        (initialToInputs (s.closedLoop K) K N).mulVec x := by
  apply Vec.ext_part
  intro i
  -- The map to the inputs is read off the prior states, as the inputs of the rollout are.
  have state := congrArg (fun y => (Vec.part y i).get) (s.stack_prior_states K x v)
  simp only [Vec.part_stack, Vec.part_add, Vec.get_add] at state
  apply Vec.get_inj.mp
  rw [Vec.part_stack, Vec.part_add, Vec.get_add, get_part_freeToInputs, get_part_initialToInputs,
    inputAt, get_applied, Vec.partAt_val, state, mulVec_add]
  abel

end LinearSystem

end RecedingHorizon
