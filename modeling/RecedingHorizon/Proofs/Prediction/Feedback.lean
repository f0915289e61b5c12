import RecedingHorizon.Proofs.Prediction.Trajectory

/-!
# Undoing a feedback

The opposite gain takes a feedback back (`closedLoop_closedLoop_neg`). So the inputs of a rollout,
taken as the free variables of the closed loop under the opposite gain, give the free variables again
(`stack_inputs_undone`), and the other way round (`stack_inputs_redone`). The maps from free variables
to inputs in both directions are inverse matrices.
-/

namespace RecedingHorizon

open Matrix

variable {N n m : Nat}

namespace LinearSystem

variable (s : LinearSystem ℝ n m) (K : Mat ℝ m n) (x : Vec ℝ n)

theorem closedLoop_closedLoop_neg : (s.closedLoop K).closedLoop (-K) = s := by
  have dynamics : s.dynamics - s.input * K - s.input * -K = s.dynamics := by
    apply Mat.toMatrix_inj.mp
    simp
  simp only [closedLoop, dynamics]

theorem neg_neg_gain : -(-K) = K := by
  apply Mat.toMatrix_inj.mp
  simp

theorem applied_neg_applied (v : Vec ℝ m) : applied (-K) x (applied K x v) = v := by
  apply Vec.get_inj.mp
  simp only [get_applied, Mat.toMatrix_neg, neg_mulVec]
  abel

/-- Under the opposite gain, the closed loop moves as the system itself. -/
theorem next_closedLoop (u : Vec ℝ m) :
    (s.closedLoop K).next x (applied (-K) x u) = s.next x u := by
  apply Vec.get_inj.mp
  rw [get_next_applied, closedLoop_closedLoop_neg]
  simp [next, closedLoop]

theorem stateAt_closedLoop (u : Nat → Vec ℝ m) (k : Nat) :
    (s.closedLoop K).stateAt (-K) x u k = s.stateAt 0 x u k := by
  induction k with
  | zero => rfl
  | succ k ih => rw [stateAt, stateAt, ih, next_closedLoop, applied_zero]

/-- The inputs of a rollout are taken back to its free variables. -/
theorem stack_inputs_undone (v : Vec ℝ (N * m)) :
    Vec.stack (fun i : Fin N => (s.closedLoop K).inputAt (-K) x
      (Vec.stack fun i : Fin N => s.inputAt K x v.partAt i.val).partAt i.val) = v := by
  apply Vec.ext_part
  intro i
  have state := s.stateAt_stack_inputs K x v.partAt i.isLt.le
  rw [Vec.part_stack, inputAt, stateAt_closedLoop, state, Vec.partAt_stack, inputAt,
    applied_neg_applied, Vec.partAt_val]

/-- In the other direction, the free variables that are made from inputs lead to these inputs. -/
theorem stack_inputs_redone (u : Vec ℝ (N * m)) :
    Vec.stack (fun i : Fin N => s.inputAt K x
      (Vec.stack fun i : Fin N => (s.closedLoop K).inputAt (-K) x u.partAt i.val).partAt i.val) =
      u := by
  -- The same statement for the closed loop and the opposite gain, whose closed loop is the system.
  have undone := (s.closedLoop K).stack_inputs_undone (-K) x u
  rwa [closedLoop_closedLoop_neg, neg_neg_gain] at undone

end LinearSystem

namespace Prediction

variable (s : LinearSystem ℝ n m) (K : Mat ℝ m n)

/-- From the origin, the inputs are the free variables under the map between them. -/
theorem freeToInputs_mulVec (v : Vec ℝ (N * m)) :
    (freeToInputs (s.closedLoop K) K N).mulVec v =
      Vec.stack fun i : Fin N => s.inputAt K (Vec.zeros n) v.partAt i.val := by
  rw [s.stack_inputs]
  apply Vec.get_inj.mp
  simp

/-- The map back to the free variables belongs to the system itself and the opposite gain. -/
theorem freeToInputs_neg_mul :
    freeToInputs s (-K) N * freeToInputs (s.closedLoop K) K N = Mat.identity (N * m) := by
  have back := freeToInputs_mulVec (N := N) (s.closedLoop K) (-K)
  rw [s.closedLoop_closedLoop_neg K] at back
  apply Mat.toMatrix_inj.mp
  -- A matrix is determined by its products; from the origin these are inputs of rollouts.
  apply Matrix.ext_iff_mulVec.mpr
  intro v
  have undone := congrArg Vector.get (s.stack_inputs_undone K (Vec.zeros n) (Vec.ofFn v))
  rw [← back, ← freeToInputs_mulVec s K, Mat.get_mulVec, Mat.get_mulVec, Vec.get_ofFn] at undone
  rw [Mat.toMatrix_mul, ← mulVec_mulVec, undone, Mat.toMatrix_identity, one_mulVec]

theorem freeToInputs_mul_neg :
    freeToInputs (s.closedLoop K) K N * freeToInputs s (-K) N = Mat.identity (N * m) := by
  have inverse := freeToInputs_neg_mul (N := N) (s.closedLoop K) (-K)
  rwa [LinearSystem.closedLoop_closedLoop_neg, LinearSystem.neg_neg_gain] at inverse

end Prediction

end RecedingHorizon
