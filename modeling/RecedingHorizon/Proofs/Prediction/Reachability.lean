import Mathlib.LinearAlgebra.Matrix.Rank
import RecedingHorizon.Proofs.Exact.Kernels
import RecedingHorizon.Proofs.Prediction.Feedback
import RecedingHorizon.Proofs.Prediction.Rollout

/-!
# Reachable states

A state can be reached from the origin in `N` steps if some inputs lead there. The states that can be
reached are the values of the reachability matrix (`reaches_iff`), so that all of them can be if and only
if the matrix has full rank. Feedback does not change which states these are: the inputs that lead to a
state lead there under the feedback as well, once what it takes away is added (`Reaches.closedLoop`).
-/

namespace RecedingHorizon

open Matrix

/-- The rank of a matrix is the number of its rows if and only if the matrix reaches every vector. -/
theorem rank_eq_iff_surjective {n k : Nat} (M : Matrix (Fin n) (Fin k) ℝ) :
    M.rank = n ↔ ∀ y, ∃ x, M *ᵥ x = y := by
  have whole : Module.finrank ℝ (Fin n → ℝ) = n := Module.finrank_fin_fun ℝ
  have onto : (∀ y, ∃ x, M *ᵥ x = y) ↔ M.mulVecLin.range = ⊤ :=
    (LinearMap.range_eq_top (f := M.mulVecLin)).symm
  rw [onto, Matrix.rank]
  constructor
  · intro full
    exact Submodule.eq_top_of_finrank_eq (full.trans whole.symm)
  · intro top
    rw [top, finrank_top, whole]

namespace Kernels

/-- Ranks are exact. A matrix without entries need not have one. -/
def FindsRanks (kit : Kernels ℝ) : Prop :=
  ∀ (m n : Nat) (M : Mat ℝ m n), (0 < m → 0 < n → ∃ r, kit.rank M = .ok r) ∧
    ∀ r, kit.rank M = .ok r → r = M.toMatrix.rank

/-- Methods that find ranks. -/
noncomputable def rankFinding : Kernels ℝ :=
  { (unable : Kernels ℝ) with
    rank := fun {m n} M => if 0 < m ∧ 0 < n then .ok M.toMatrix.rank else .error .emptyReduction }

theorem findsRanks_rankFinding : rankFinding.FindsRanks := by
  intro m n M
  refine ⟨fun rows columns => ⟨_, if_pos ⟨rows, columns⟩⟩, fun r found => ?_⟩
  change (if 0 < m ∧ 0 < n then _ else _) = _ at found
  split at found
  · exact (Except.ok.inj found).symm
  · cases found

end Kernels

variable {N n m : Nat}

theorem Mat.getElem?_powers {k : Nat} (A : Mat ℝ n n) (X : Mat ℝ n k) {count i : Nat} (inside : i < count) :
    (A.powers X count)[i]? = some (Prediction.propagate A X i) := by
  induction count generalizing X i with
  | zero => cases inside
  | succ count ih =>
    cases i with
    | zero => rfl
    | succ i =>
      rw [powers, List.getElem?_cons_succ, ih _ (Nat.lt_of_succ_lt_succ inside),
        Prediction.propagate_mul]

/-- A matrix is listed row by row. -/
theorem Mat.toList_eq_stack (M : Mat ℝ N m) : M.toList = (Vec.stack M.row).toList := by
  have entries (i : Fin N) (j : Fin m) : (Vec.stack M.row).get (Stacked.index i j) = (M.rows i).get j := by
    rw [Vec.stack_get, Stacked.stage_index, Stacked.position_index]
    rfl
  have rows : (fun i : Fin N => (M.rows i).toList) =
      fun i => List.ofFn fun j : Fin m => (Vec.stack M.row).get (Stacked.index i j) := by
    funext i
    rw [Vec.toList_eq_ofFn]
    exact congrArg List.ofFn (funext fun j => (entries i j).symm)
  rw [toList, Vec.toList_eq_ofFn M.rows, List.flatMap, List.map_ofFn, Vec.toList_eq_ofFn (Vec.stack M.row),
    List.ofFn_mul]
  exact congrArg (fun parts => (List.ofFn parts).flatten) rows

namespace LinearSystem

variable (s : LinearSystem ℝ n m) (K : Mat ℝ m n)

/-- Some inputs lead from the origin to a state. -/
def Reaches (N : Nat) (x : Vec ℝ n) : Prop := ∃ u : Nat → Vec ℝ m, s.stateAt 0 (Vec.zeros n) u N = x

theorem reachability_entry (i : Fin n) (t : Fin N) (p : Fin m) :
    s.reachability N i (Stacked.index t p) = Prediction.propagate s.dynamics s.input t.val i p := by
  have stage : (Stacked.index t p).val / m = t.val := congrArg Fin.val (Stacked.stage_index t p)
  have position : (Stacked.index t p).val % m = p.val := congrArg Fin.val (Stacked.position_index t p)
  rw [reachability, Mat.ofFn_entry, dif_pos (Stacked.width_pos (Stacked.index t p))]
  simp only [List.getElem?_toArray, stage, Mat.getElem?_powers _ _ t.isLt, position]

/-- The reachability matrix adds up what the parts of a stack become after their number of steps. -/
theorem reachability_mulVec (w : Vec ℝ (N * m)) :
    (s.reachability N).toMatrix *ᵥ w.get =
      ∑ t : Fin N, (s.dynamics.toMatrix ^ t.val * s.input.toMatrix) *ᵥ (w.part t).get := by
  funext i
  rw [Finset.sum_apply]
  simp only [Matrix.mulVec, dotProduct, Stacked.sum_places, Mat.toMatrix_apply, reachability_entry,
    ← Prediction.toMatrix_propagate, Vec.part, Vec.get_ofFn]

theorem get_stateAt_zeros (u : Nat → Vec ℝ m) (k : Nat) :
    (s.stateAt 0 (Vec.zeros n) u k).get = s.response u k := by
  rw [get_stateAt, closedLoop_zero]
  simp

/-- The response to inputs is the reachability matrix applied to them in reverse order. -/
theorem response_eq_reachability_mulVec (u : Nat → Vec ℝ m) :
    s.response u N =
      (s.reachability N).toMatrix *ᵥ (Vec.stack fun t : Fin N => u (N - 1 - t.val)).get := by
  rw [reachability_mulVec, response, ← Finset.sum_range_reflect, Finset.sum_range]
  refine Finset.sum_congr rfl fun t _ => ?_
  have back : N - 1 - (N - 1 - t.val) = t.val := by omega
  rw [Vec.part_stack, back]

theorem reaches_iff (x : Vec ℝ n) :
    s.Reaches N x ↔ ∃ w, (s.reachability N).toMatrix *ᵥ w = x.get := by
  constructor
  · rintro ⟨u, rfl⟩
    exact ⟨_, (s.response_eq_reachability_mulVec u).symm.trans (s.get_stateAt_zeros u N).symm⟩
  · rintro ⟨w, same⟩
    -- The last part of the stack is applied first.
    let parts : Nat → Vec ℝ m := fun j => (Vec.ofFn w : Vec ℝ (N * m)).partAt (N - 1 - j)
    refine ⟨parts, Vec.get_inj.mp ?_⟩
    have reversed : (Vec.stack fun t : Fin N => parts (N - 1 - t.val)) = Vec.ofFn w := by
      apply Vec.ext_part
      intro t
      have back : N - 1 - (N - 1 - t.val) = t.val := by omega
      rw [Vec.part_stack]
      simp only [parts, back, Vec.partAt_val]
    rw [get_stateAt_zeros, response_eq_reachability_mulVec, reversed, Vec.get_ofFn, same]

/-- What a system can reach, it can also reach under a feedback. -/
theorem Reaches.closedLoop {s : LinearSystem ℝ n m} {x : Vec ℝ n} (reaches : s.Reaches N x) :
    (s.closedLoop K).Reaches N x := by
  obtain ⟨u, rfl⟩ := reaches
  -- The inputs are applied together with what the feedback takes away.
  refine ⟨(s.closedLoop K).inputAt (-K) (Vec.zeros n) u, ?_⟩
  rw [stateAt_inputAt, stateAt_closedLoop]

theorem reaches_closedLoop_iff (x : Vec ℝ n) : (s.closedLoop K).Reaches N x ↔ s.Reaches N x := by
  constructor
  · intro reaches
    have back := reaches.closedLoop (-K)
    rwa [closedLoop_closedLoop_neg] at back
  · exact Reaches.closedLoop K

theorem rank_reachability_iff :
    (s.reachability N).toMatrix.rank = n ↔ ∀ x, s.Reaches N x := by
  simp only [rank_eq_iff_surjective, reaches_iff]
  constructor
  · intro onto x
    exact onto x.get
  · intro onto y
    obtain ⟨w, same⟩ := onto (Vec.ofFn y)
    exact ⟨w, same.trans (Vec.get_ofFn y)⟩

theorem simulate_ofMat (x : Vec ℝ n) (u : Mat ℝ N m) :
    s.simulate (.ofVec x) (.ofMat u) =
      if m = 0 then .error .incompatibleShapes
      else .ok (s.rollout 0 x (Vec.stack u.row)).states.rows.toList :=
  s.simulate_of_entries x (Vec.stack u.row) (.ofMat u)
    ((Tensor.toList_ofMat u).trans u.toList_eq_stack)

/-- A simulation from the origin ends in a state for some inputs if and only if the state is reached. -/
theorem exists_simulate_getLast?_iff (width : m ≠ 0) (x : Vec ℝ n) :
    (∃ (u : Mat ℝ N m) (states : List (Vec ℝ n)),
      s.simulate (.ofVec (Vec.zeros n)) (.ofMat u) = .ok states ∧ states.getLast? = some x) ↔
      s.Reaches N x := by
  simp only [simulate_ofMat, if_neg width]
  have last (u : Mat ℝ N m) :
      (s.rollout 0 (Vec.zeros n) (Vec.stack u.row)).states.rows.toList.getLast? =
        some (s.stateAt 0 (Vec.zeros n) (Vec.stack u.row).partAt N) := by
    rw [toList_rollout_states, List.getLast?_map, List.getLast?_range]
    simp
  constructor
  · rintro ⟨u, states, same, ends⟩
    rw [← Except.ok.inj same, last, Option.some_inj] at ends
    exact ⟨_, ends⟩
  · rintro ⟨u, rfl⟩
    -- Inputs after the last step do not matter.
    let inputs : Mat ℝ N m := ⟨Vector.ofFn fun t => u t.val⟩
    refine ⟨inputs, _, rfl, ?_⟩
    rw [last]
    refine congrArg some (s.stateAt_congr 0 (Vec.zeros n) fun j before => ?_)
    rw [Vec.partAt_stack inputs.row ⟨j, before⟩]
    exact Vec.ofFn_get _ _

/-! ### Controllability -/

section

variable {kit : Kernels ℝ} (exact : kit.FindsRanks) (positive : 1 ≤ n)

include exact positive

theorem isControllable_eq (width : m ≠ 0) :
    s.isControllable kit = .ok ((s.reachability n).toMatrix.rank == n) := by
  obtain ⟨found, correct⟩ := exact n (n * m) (s.reachability n)
  obtain ⟨r, answer⟩ := found positive (Nat.mul_pos positive (Nat.pos_of_ne_zero width))
  rw [isControllable, Nat.max_eq_left positive, answer, ← correct r answer]
  rfl

theorem isControllable_eq_true_iff_reaches (width : m ≠ 0) :
    s.isControllable kit = .ok true ↔ ∀ x, s.Reaches n x := by
  rw [s.isControllable_eq exact positive width, Except.ok.injEq, beq_iff_eq, rank_reachability_iff]

/-- A system without inputs does not pass the test. -/
theorem isControllable_ne_true (s : LinearSystem ℝ n 0) : s.isControllable kit ≠ .ok true := by
  intro passed
  rw [isControllable, Nat.max_eq_left positive] at passed
  obtain ⟨r, answer, full⟩ := bind_eq_ok passed
  have rank : r = (s.reachability n).toMatrix.rank := (exact n (n * 0) _).2 r answer
  have bound := Matrix.rank_le_width (s.reachability n).toMatrix
  have same : r = n := by simpa [pure, Except.pure] using full
  omega

theorem isControllable_closedLoop :
    (s.closedLoop K).isControllable kit = s.isControllable kit := by
  rcases Nat.eq_zero_or_pos m with rfl | width
  · -- Nothing can be fed back.
    obtain rfl : K = 0 := Mat.ext fun i => i.elim0
    rw [closedLoop_zero]
  · have same : ((s.closedLoop K).reachability n).toMatrix.rank = n ↔
        (s.reachability n).toMatrix.rank = n := by
      simp only [rank_reachability_iff, reaches_closedLoop_iff]
    rw [isControllable_eq _ exact positive width.ne', isControllable_eq _ exact positive width.ne']
    refine congrArg Except.ok (Bool.eq_iff_iff.mpr ?_)
    rw [beq_iff_eq, beq_iff_eq, same]

end

/-- A system passes the test of controllability if and only if, from the origin, its simulation over as
many steps as it has states can end in any state. The test has an answer if there are inputs, and feedback
does not change it. -/
theorem isControllable_iff_simulations_reach {kit : Kernels ℝ} (exact : kit.FindsRanks)
    (s : LinearSystem ℝ n m) (positive : 1 ≤ n) :
    (0 < m → ∃ verdict, s.isControllable kit = .ok verdict) ∧
    (s.isControllable kit = .ok true ↔ ∀ x : Vec ℝ n, ∃ (u : Mat ℝ n m) (states : List (Vec ℝ n)),
      s.simulate (.ofVec (Vec.zeros n)) (.ofMat u) = .ok states ∧ states.getLast? = some x) ∧
    ∀ K : Mat ℝ m n, ∃ closed, s.prestabilized (.array (.ofMat K)) = .ok closed ∧
      closed.isControllable kit = s.isControllable kit := by
  refine ⟨fun width => ⟨_, s.isControllable_eq exact positive width.ne'⟩, ?_, fun K => ?_⟩
  · rcases Nat.eq_zero_or_pos m with rfl | width
    · -- Without inputs the test is not passed, and no simulation has a result.
      refine iff_of_false (isControllable_ne_true exact positive s) fun ends => ?_
      obtain ⟨u, states, simulated, -⟩ := ends (Vec.zeros n)
      rw [simulate_ofMat, if_pos rfl] at simulated
      cases simulated
    · rw [s.isControllable_eq_true_iff_reaches exact positive width.ne']
      exact forall_congr' fun x => (s.exists_simulate_getLast?_iff width.ne' x).symm
  · exact ⟨_, s.prestabilized_ofMat K, s.isControllable_closedLoop K exact positive⟩

/-- The double integrator reaches every state in two steps, and so it does under a feedback. -/
theorem isControllable_iff_simulations_reach_doubleIntegrator :
    let s : LinearSystem ℝ 2 1 :=
      { dynamics := Mat.ofFn fun i j => if i ≤ j then 1 else 0
        input := Mat.ofFn fun i _ => i.val
        interval := 1 }
    let K : Mat ℝ 1 2 := Mat.ofFn fun _ _ => 1
    Kernels.rankFinding.FindsRanks ∧ 1 ≤ 2 ∧ s.isControllable Kernels.rankFinding = .ok true ∧
      (s.closedLoop K).isControllable Kernels.rankFinding = .ok true := by
  intro s K
  have exact := Kernels.findsRanks_rankFinding
  have positive : 1 ≤ 2 := by decide
  obtain ⟨-, reaching, feedback⟩ := isControllable_iff_simulations_reach exact s positive
  have passed : s.isControllable Kernels.rankFinding = .ok true := by
    refine reaching.mpr fun x => (s.exists_simulate_getLast?_iff Nat.one_ne_zero x).mpr ?_
    -- The first input sets the position, and the second one corrects the velocity.
    refine ⟨fun k => Vec.ofFn fun _ => if k = 0 then x 0 else x 1 - x 0, Vec.get_inj.mp ?_⟩
    rw [get_stateAt_zeros, response, Finset.sum_range_succ, Finset.sum_range_one]
    funext i
    fin_cases i <;> simp [s, Matrix.mulVec, dotProduct, Fin.sum_univ_two, Matrix.mul_apply]
  obtain ⟨closed, made, same⟩ := feedback K
  rw [prestabilized_ofMat, Except.ok.injEq] at made
  subst made
  exact ⟨exact, positive, passed, same.trans passed⟩

end LinearSystem

end RecedingHorizon
