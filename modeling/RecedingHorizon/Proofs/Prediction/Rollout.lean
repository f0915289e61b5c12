import RecedingHorizon.Condensing.Blocks
import RecedingHorizon.Problem.Specification
import RecedingHorizon.Proofs.Prediction.Trajectory

/-!
# Rollouts, predictions and simulations

The predictions are asked for with a whole number as horizon and an array as gain. On the arguments
that they are meant for they return the matrices of the closed loop (`statesOf_whole`,
`initialOf_whole`, `inputsOf_ofMat`, `initialInputsOf_ofMat`). A simulation cuts a flat list into one
input for every stage and applies them in turn, so it lists the states of a rollout without a gain
(`simulate_of_entries`), unless the system has no inputs: nothing then tells the number of stages, and
the simulation fails.
-/

namespace RecedingHorizon

open Matrix

variable {N n m : Nat} (s : LinearSystem ℝ n m) (K : Mat ℝ m n)

namespace Prediction

/-! ### Predictions of arguments -/

theorem statesOf_whole (positive : 1 ≤ N) :
    statesOf s (.whole N) = .ok (.square (inputsToStates s N)) := by
  rw [statesOf, requireHorizon_whole positive, Argument.toLength_whole]
  rfl

theorem initialOf_whole (positive : 1 ≤ N) (includeInitial : Bool) :
    initialOf s (.whole N) includeInitial =
      .ok (.column (if includeInitial then initialToPriorStates s N else initialToStates s N)) := by
  rw [initialOf, requireHorizon_whole positive, Argument.toLength_whole]
  rfl

theorem initialInputsOf_ofMat (positive : 1 ≤ N) :
    initialInputsOf s (.ofMat K) (.whole N) = .ok (.column (initialToInputs s K N)) := by
  unfold initialInputsOf Tensor.ofMat
  rw [requireHorizon_whole positive, Argument.toLength_whole]
  simp [bind, Except.bind, pure, Except.pure]

/-- A gain that is a matrix fits into the blocks as it stands. -/
theorem reactionOf_ofMat (d : Nat) :
    reactionOf s (.ofMat K) d = .ok (-K * propagate s.dynamics s.input d) := by
  have fits := Tensor.fitTo_shape (.ofMat (-K * propagate s.dynamics s.input d))
  rw [Tensor.shape_ofMat] at fits
  rw [reactionOf, Tensor.map_ofMat, Tensor.product_ofMat_ofMat]
  change ((Tensor.ofMat (-K * propagate s.dynamics s.input d)).fitTo [m, m] >>= _) = _
  rw [fits]
  simp [bind, Except.bind, pure, Except.pure]

/-- The last reaction is never read: a free variable reaches at most `N - 1` later inputs. -/
theorem throughFeedback_reactions :
    (throughFeedback fun d : Fin N =>
      ((List.range (N - 1)).map fun d => -K * propagate s.dynamics s.input d).toArray.getD
        d.val 0) = freeToInputs s K N := by
  rw [freeToInputs_eq, throughFeedback]
  congr 1
  funext i j
  -- Below the diagonal the lag is at most `N - 2`, and elsewhere no reaction is read.
  by_cases before : j < i
  · have listed : i.val - 1 - j.val < N - 1 := by
      have := i.isLt
      have := Fin.lt_def.mp before
      omega
    simp [before, lagBefore, listed]
  · simp only [if_neg before]

theorem inputsOf_ofMat (positive : 1 ≤ N) :
    inputsOf s (.ofMat K) (.whole N) = .ok (.square (freeToInputs s K N)) := by
  have each : reactionOf s (.ofMat K) =
      fun d => pure (-K * propagate s.dynamics s.input d) := funext (reactionOf_ofMat s K)
  rw [inputsOf, requireHorizon_whole positive, Argument.toLength_whole]
  change ((List.range (N - 1)).mapM (reactionOf s (.ofMat K)) >>= _) = _
  rw [each, List.mapM_pure]
  exact congrArg (fun M => Except.ok (BlockMatrix.square M)) (throughFeedback_reactions s K)

end Prediction

namespace LinearSystem

/-! ### Simulations -/

/-- A rollout goes on from its second state with the remaining free variables. -/
theorem stateAt_succ_eq_tail (x : Vec ℝ n) (v : Nat → Vec ℝ m) (k : Nat) :
    s.stateAt K x v (k + 1) =
      s.stateAt K (s.next x (applied K x (v 0))) (fun j => v (j + 1)) k := by
  induction k with
  | zero => rfl
  | succ k ih => rw [stateAt, ih, stateAt]

/-- The trajectory of a sequence of inputs lists the states of a rollout without a gain. -/
theorem trajectory_map_range (x : Vec ℝ n) (v : Nat → Vec ℝ m) (N : Nat) :
    s.trajectory x ((List.range N).map v) = (List.range (N + 1)).map (s.stateAt 0 x v) := by
  -- The list is consumed from its front, the rollout grows at its end.
  induction N generalizing x v with
  | zero => rfl
  | succ N ih =>
    have tail (k : Nat) :
        s.stateAt 0 (s.next x (v 0)) (v ∘ Nat.succ) k = s.stateAt 0 x v (k + 1) := by
      rw [stateAt_succ_eq_tail, applied_zero]
      rfl
    rw [List.range_succ_eq_map, List.map_cons, trajectory, List.map_map, ih,
      List.range_succ_eq_map (n := N + 1), List.map_cons, List.map_map]
    exact congrArg (x :: ·) (List.map_congr_left fun k _ => tail k)

theorem cutInputs?_zero (entries : List ℝ) : cutInputs? 0 entries = none := if_pos (.inl rfl)

/-- The entries of a stack are cut into its parts. -/
theorem cutInputs?_toList (width : m ≠ 0) (v : Vec ℝ (N * m)) :
    cutInputs? m v.toList = some ((List.range N).map v.partAt) := by
  rw [cutInputs?_eq_some width v.length_toList]
  refine congrArg some (List.map_congr_left fun k listed => ?_)
  have stage : k < N := List.mem_range.mp listed
  rw [Vec.partAt, dif_pos stage]
  apply Vec.ext
  intro j
  have place : k * m + j.val < N * m := (Stacked.index ⟨k, stage⟩ j).isLt
  rw [Vec.part_get, Vec.ofFn_get]
  simp [place, Stacked.index, Vector.get]

theorem toList_rollout_states (x : Vec ℝ n) (v : Vec ℝ (N * m)) :
    (s.rollout K x v).states.rows.toList = (List.range (N + 1)).map (s.stateAt K x v.partAt) := by
  apply List.ext_getElem
  · simp
  · intro k listed _
    simp [rollout]

theorem simulate_of_entries (x : Vec ℝ n) (v : Vec ℝ (N * m)) (u : Tensor ℝ)
    (entries : u.toList = v.toList) :
    s.simulate (.ofVec x) u =
      if m = 0 then .error .incompatibleShapes else .ok (s.rollout 0 x v).states.rows.toList := by
  rw [simulate, entries]
  split_ifs with width
  · -- Parts of no entries cannot be counted.
    subst width
    rw [cutInputs?_zero]
    rfl
  · have fits := Tensor.fitTo_shape (Tensor.ofVec x)
    rw [Tensor.shape_ofVec] at fits
    rw [cutInputs?_toList width, toList_rollout_states, ← trajectory_map_range]
    simp [fits, bind, Except.bind, pure, Except.pure]

open Prediction

/-- The predictions of the closed loop, applied to the free variables and the first state, are the
rollout: its states with and without the first one, and its inputs. Without a gain the rollout is the
simulation of the free variables, which fails exactly for a system without inputs. -/
theorem rollout_eq_predictions (positive : 1 ≤ N) (x : Vec ℝ n) (v : Vec ℝ (N * m)) :
    let closed := s.closedLoop K
    let run := s.rollout K x v
    s.prestabilized (.array (.ofMat K)) = .ok closed ∧
    (∃ Γ Φ,
      statesOf closed (.whole N) = .ok (.square (k := n) (l := m) Γ) ∧
      initialOf closed (.whole N) false = .ok (.column (N := N) Φ) ∧
      Vec.stack (fun k => run.states.row k.succ) = Γ.mulVec v + Φ.mulVec x) ∧
    Vec.stack (fun k => run.states.row k.castSucc) =
      (inputsToPriorStates closed N).mulVec v + (initialToPriorStates closed N).mulVec x ∧
    (∃ Γ Φ,
      inputsOf closed (.ofMat K) (.whole N) = .ok (.square (k := m) (l := m) Γ) ∧
      initialInputsOf closed (.ofMat K) (.whole N) = .ok (.column (N := N) Φ) ∧
      Vec.stack run.inputs.row = Γ.mulVec v + Φ.mulVec x) ∧
    ∀ u : Tensor ℝ, u.toList = v.toList →
      s.simulate (.ofVec x) u =
        if m = 0 then .error .incompatibleShapes
        else .ok (s.rollout 0 x v).states.rows.toList := by
  intro closed run
  have laterRows : (fun k : Fin N => run.states.row k.succ) =
      fun k => s.stateAt K x v.partAt (k.val + 1) :=
    funext fun k => s.row_rollout_states K x v k.succ
  have priorRows : (fun k : Fin N => run.states.row k.castSucc) =
      fun k => s.stateAt K x v.partAt k.val :=
    funext fun k => s.row_rollout_states K x v k.castSucc
  have inputRows : run.inputs.row = fun k => s.inputAt K x v.partAt k.val :=
    funext fun k => s.row_rollout_inputs K x v k
  refine ⟨s.prestabilized_ofMat K, ⟨_, _, statesOf_whole closed positive,
    initialOf_whole closed positive false, ?_⟩, ?_, ⟨_, _, inputsOf_ofMat closed K positive,
    initialInputsOf_ofMat closed K positive, ?_⟩, ?_⟩
  · rw [laterRows]
    exact s.stack_later_states K x v
  · rw [priorRows]
    exact s.stack_prior_states K x v
  · rw [inputRows]
    exact s.stack_inputs K x v
  · intro u entries
    exact s.simulate_of_entries x v u entries

/-- A scalar system over two stages: the simulation of the inputs `1` and `2`. -/
theorem rollout_eq_predictions_two_stages :
    let s : LinearSystem ℝ 1 1 :=
      { dynamics := Mat.ofFn fun _ _ => 3, input := Mat.identity 1, interval := 1 }
    let x : Vec ℝ 1 := Vec.ofFn fun _ => 5
    let v : Vec ℝ (2 * 1) := Vec.ofFn fun i => i.val + 1
    1 ≤ 2 ∧ (Tensor.ofVec v).toList = v.toList ∧
      s.simulate (.ofVec x) (.ofVec v) = .ok (s.rollout 0 x v).states.rows.toList := by
  intro s x v
  have positive : 1 ≤ 2 := by decide
  have entries : (Tensor.ofVec v).toList = v.toList := Tensor.toList_ofVec v
  obtain ⟨-, -, -, -, simulated⟩ := s.rollout_eq_predictions (Mat.ofFn fun _ _ => 2) positive x v
  exact ⟨positive, entries, simulated (.ofVec v) entries⟩

end LinearSystem

end RecedingHorizon
