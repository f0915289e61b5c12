import RecedingHorizon.Proofs.Gradient.Stopping
import RecedingHorizon.Proofs.Gradient.Tests

/-!
# Starts that are never left

A projected gradient step stays where it starts exactly at a point of the set at which the objective is
smallest (`project_trialPoint_iff`). Momentum only continues a change, so that no strategy moves the
iterations away from there (`restsAt_of_reaches`), and the first of them passes the gradient test, with
or without strict convexity: a run with one of the standard tests ends at once where it started
(`solveBy_at_minimizer`).
-/

namespace RecedingHorizon.Gradient

open Matrix Method

variable {σ : Type} {n : Nat} {H : Mat ℝ n n} {b : Vec ℝ n} {L : ℝ} {X : Set (Vec ℝ n)}

/-! ### Points that a projected gradient step does not leave -/

/-- A point of a set at which the objective is smallest. -/
structure IsMinimizer (H : Mat ℝ n n) (b : Vec ℝ n) (X : Set (Vec ℝ n)) (x : Vec ℝ n) : Prop where
  mem : x ∈ X
  objective_le : ∀ z ∈ X, objective H b x ≤ objective H b z

/-- No direction from a minimizer into a convex set descends. -/
theorem IsMinimizer.slope_nonneg (semidefinite : H.toMatrix.PosSemidef) (convex : IsConvex X)
    {x z : Vec ℝ n} (minimal : IsMinimizer H b X x) (inside : z ∈ X) :
    0 ≤ Vec.dot (H.mulVec x + b) (z - x) := by
  refine neg_nonpos.mp (nonpos_of_forall_le_mul (dot_mulVec_nonneg semidefinite (z - x)) ?_)
  -- The objective on the segment from `x` to `z`, which is nowhere smaller than at `x`.
  intro s nonneg atMost
  obtain ⟨w, member, read⟩ := convex.exists_between minimal.mem inside nonneg atMost
  have moved : w - x = (z - x).map (s * ·) := by
    apply Vec.get_inj.mp
    rw [Vec.get_sub, Vec.get_scale, Vec.get_sub, read, add_sub_cancel_left]
  have around := objective_eq_around (b := b) (transpose_eq_of_posSemidef semidefinite) w x
  rw [moved, Mat.mulVec_scale, Vec.dot_scale_right, Vec.dot_scale_right, Vec.dot_scale_left] at around
  have smallest := minimal.objective_le w member
  linarith

/-- A projected gradient step ends where it starts exactly at the minimizers. -/
theorem isNearest_trialPoint_iff (semidefinite : H.toMatrix.PosSemidef) (above : 0 < L)
    (convex : IsConvex X) {x : Vec ℝ n} :
    IsNearest X (trialPoint H b L x) x ↔ IsMinimizer H b X x := by
  -- From `x` the step goes against the gradient.
  have against (z : Vec ℝ n) : L * Vec.dot (trialPoint H b L x - x) (z - x) =
      -Vec.dot (H.mulVec x + b) (z - x) := by
    rw [dot_trialPoint_sub above, Vec.dot_sub_left x x, sub_self, mul_zero, zero_sub]
  constructor
  · intro nearest
    refine ⟨nearest.mem, fun z inside => ?_⟩
    have obtuse := nearest.dot_le_zero convex inside
    have descent := mul_nonpos_of_nonneg_of_nonpos above.le obtuse
    have tangent := tangent_le_objective (b := b) semidefinite z x
    rw [against] at descent
    linarith
  · intro minimal
    refine ⟨minimal.mem, fun z inside => (Vec.norm_le_norm_iff _ _).mpr ?_⟩
    have slope := minimal.slope_nonneg semidefinite convex inside
    have obtuse : Vec.dot (trialPoint H b L x - x) (z - x) ≤ 0 := by
      refine nonpos_of_mul_nonpos_right ?_ above
      rw [against]
      exact neg_nonpos.mpr slope
    have square := Vec.dot_self_nonneg (z - x)
    simp only [Vec.dot_sub_left, Vec.dot_sub_right, Vec.dot_comm x (trialPoint H b L x),
      Vec.dot_comm z (trialPoint H b L x), Vec.dot_comm z x] at obtuse square ⊢
    linarith

theorem project_trialPoint_iff (semidefinite : H.toMatrix.PosSemidef) (above : 0 < L)
    (convex : IsConvex X) {project : Vec ℝ n → Except Fault (Vec ℝ n)} (projects : Projects project X)
    {x : Vec ℝ n} : project (trialPoint H b L x) = .ok x ↔ IsMinimizer H b X x := by
  constructor
  · intro stays
    exact (isNearest_trialPoint_iff semidefinite above convex).mp (projects.isNearest stays)
  · intro minimal
    obtain ⟨p, answered, nearest⟩ := projects (trialPoint H b L x)
    have stays := (isNearest_trialPoint_iff semidefinite above convex).mpr minimal
    rw [answered, nearest.eq_of_isConvex convex stays]

/-! ### Iterations under any momentum -/

/-- An iteration that is at one point from its beginning to its end. -/
structure Iteration.RestsAt {V σ : Type} (s : Iteration V σ) (point : V) : Prop where
  x : s.x = point
  xNext : s.xNext = point
  y : s.y = point
  yNext : s.yNext = point

/-- The iterations that a method reaches from a start when every step may have a momentum of its own, and
start from anything that this remembers. -/
inductive Reaches {α V σ : Type} [Space α V] (method : Method α V σ) (start : V) :
    Iteration V σ → Prop
  | first {momentum : Momentum α σ} {state : σ} {s : Iteration V σ} :
      { method with momentum }.step 1 start start state = .ok s → Reaches method start s
  | after {momentum : Momentum α σ} {state : σ} {s t : Iteration V σ} :
      Reaches method start s →
      { method with momentum }.step (s.count + 1) s.xNext s.yNext state = .ok t →
      Reaches method start t

theorem reaches_of_nth {α V σ : Type} [Space α V] {method : Method α V σ} {start : V} {k : Nat}
    {s : Iteration V σ} (reached : method.nth start k = .ok s) : Reaches method start s := by
  induction k generalizing s with
  | zero =>
    obtain ⟨state, -, stepped⟩ := bind_eq_ok reached
    exact .first stepped
  | succ k ih =>
    obtain ⟨before, earlier, stepped⟩ := bind_eq_ok reached
    exact .after (ih earlier) stepped

section

variable {project : Vec ℝ n → Except Fault (Vec ℝ n)} {momentum : Momentum ℝ σ}
  {count : Nat} {state : σ} {x : Vec ℝ n} {s : Iteration (Vec ℝ n) σ}

/-- A step that starts at rest ends where it starts exactly at the minimizers. -/
theorem xNext_eq_iff_of_step (semidefinite : H.toMatrix.PosSemidef) (above : 0 < L)
    (convex : IsConvex X) (projects : Projects project X)
    (stepped : (onVectors H b project momentum L).step count x x state = .ok s) :
    s.xNext = x ↔ IsMinimizer H b X x := by
  obtain ⟨p, factor, state', projected, -, rfl⟩ := step_eq_ok.mp stepped
  rw [← project_trialPoint_iff semidefinite above convex projects]
  exact ⟨fun stays => projected.trans (congrArg _ stays), fun stays =>
    Except.ok.inj (projected.symm.trans stays)⟩

/-- A step that starts at rest and does not move has no momentum either. -/
theorem restsAt_of_step (stepped : (onVectors H b project momentum L).step count x x state = .ok s)
    (stays : s.xNext = x) : s.RestsAt x := by
  obtain ⟨p, factor, state', -, -, rfl⟩ := step_eq_ok.mp stepped
  obtain rfl : p = x := stays
  refine ⟨rfl, rfl, rfl, ?_⟩
  apply Vec.get_inj.mp
  rw [Vec.get_add, Vec.get_scale, Vec.get_sub, sub_self, smul_zero, add_zero]

end

section

variable {project : Tensor ℝ → Except Fault (Tensor ℝ)} {momentum : Momentum ℝ σ}
  {count : Nat} {state : σ} {x : Vec ℝ n} {t : Iteration (Tensor ℝ) σ}

theorem projectsVectors_of_projects (projects : Projects (forVectors project) X) :
    ProjectsVectors n project := by
  intro x
  obtain ⟨p, answered, -⟩ := projects x
  exact ⟨p, forVectors_eq_ok.mp answered⟩

theorem xNext_eq_iff_of_step_onArrays (semidefinite : H.toMatrix.PosSemidef) (above : 0 < L)
    (convex : IsConvex X) (projects : Projects (forVectors project) X)
    (stepped : (onArrays H b project momentum L).step count (.ofVec x) (.ofVec x) state = .ok t) :
    t.xNext = .ofVec x ↔ IsMinimizer H b X x := by
  obtain ⟨s, onVectors, rfl⟩ :=
    exists_vectors_of_step (projectsVectors_of_projects projects) stepped
  rw [← xNext_eq_iff_of_step semidefinite above convex projects onVectors]
  constructor
  · intro same
    have read := congrArg (fun t : Tensor ℝ => t.toVec? n) same
    simpa [Iteration.toArrays] using read
  · exact congrArg Tensor.ofVec

theorem restsAt_of_step_onArrays (semidefinite : H.toMatrix.PosSemidef) (above : 0 < L)
    (convex : IsConvex X) (projects : Projects (forVectors project) X)
    (minimal : IsMinimizer H b X x)
    (stepped : (onArrays H b project momentum L).step count (.ofVec x) (.ofVec x) state = .ok t) :
    t.RestsAt (.ofVec x) := by
  obtain ⟨s, onVectors, rfl⟩ :=
    exists_vectors_of_step (projectsVectors_of_projects projects) stepped
  obtain ⟨x_eq, xNext_eq, y_eq, yNext_eq⟩ := restsAt_of_step onVectors
    ((xNext_eq_iff_of_step semidefinite above convex projects onVectors).mpr minimal)
  exact ⟨congrArg _ x_eq, congrArg _ xNext_eq, congrArg _ y_eq, congrArg _ yNext_eq⟩

/-- Whatever the momentum is, no iteration leaves a minimizer. -/
theorem restsAt_of_reaches (semidefinite : H.toMatrix.PosSemidef) (above : 0 < L)
    (convex : IsConvex X) (projects : Projects (forVectors project) X)
    (minimal : IsMinimizer H b X x)
    (reached : Reaches (onArrays H b project momentum L) (.ofVec x) t) : t.RestsAt (.ofVec x) := by
  induction reached with
  | first stepped =>
    exact restsAt_of_step_onArrays semidefinite above convex projects minimal stepped
  | after _ stepped ih =>
    rw [ih.xNext, ih.yNext] at stepped
    exact restsAt_of_step_onArrays semidefinite above convex projects minimal stepped

end

/-! ### Runs -/

section

variable {V : Type} [Space ℝ V] {s : Iteration V σ} {change : V}

/-- The gradient test holds for a step that does not move, if the tolerance is positive. -/
theorem holds_of_still {test : GradientTest ℝ} (moved : Space.sub s.y s.xNext = .ok change)
    (still : Space.norm (Space.scale test.largest change) = 0) :
    test.holds s = test.tolerance.threshold.map fun bound => decide (0 < bound) := by
  simp only [GradientTest.holds, GradientTest.value_of_still moved still, bind, Except.bind]
  rfl

/-- The standard test asks the gradient test first. -/
theorem holds_best_eq (eps eps' μ : ℝ) (isScaled : Bool) (size : Int) :
    ((Condition.best eps eps' isScaled).forProgram size L μ).holds s = (do
      if ← (⟨⟨eps, isScaled, size⟩, L, μ⟩ : GradientTest ℝ).holds s then return true
      else (⟨eps', isScaled, size⟩ : Tolerance ℝ).holdsConjugate s) :=
  rfl

theorem holds_best_of_still {eps eps' μ : ℝ} {isScaled : Bool} {size : Int} (accuracy : 0 < eps)
    (sized : 0 < size) (moved : Space.sub s.y s.xNext = .ok change)
    (still : Space.norm (Space.scale L change) = 0) :
    ((Condition.best eps eps' isScaled).forProgram size L μ).holds s = .ok true := by
  have held : (⟨⟨eps, isScaled, size⟩, L, μ⟩ : GradientTest ℝ).holds s = .ok true := by
    rw [holds_of_still moved still]
    cases isScaled with
    | false => exact congrArg Except.ok (decide_eq_true accuracy)
    | true =>
      rw [threshold_eq sized]
      exact congrArg Except.ok (decide_eq_true (div_pos accuracy (Int.cast_pos.mpr sized)))
  rw [holds_best_eq, held]
  rfl

end

section

variable {x : Vec ℝ n} {eps eps' μ : ℝ} {isScaled : Bool} {size : Int}

theorem holds_best_of_restsAt {s : Iteration (Vec ℝ n) σ} (rests : s.RestsAt x) (accuracy : 0 < eps)
    (sized : 0 < size) :
    ((Condition.best eps eps' isScaled).forProgram size L μ).holds s = .ok true := by
  refine holds_best_of_still accuracy sized ?_ (norm_scale_sub_self L x)
  rw [rests.y, rests.xNext]
  rfl

theorem holds_best_of_restsAt_arrays {t : Iteration (Tensor ℝ) σ} (rests : t.RestsAt (.ofVec x))
    (accuracy : 0 < eps) (sized : 0 < size) :
    ((Condition.best eps eps' isScaled).forProgram size L μ).holds t = .ok true := by
  have still : Space.norm (Space.scale L (Tensor.ofVec (x - x))) = 0 :=
    (Tensor.norm_ofVec _).trans (norm_scale_sub_self L x)
  refine holds_best_of_still accuracy sized ?_ still
  rw [rests.y, rests.xNext]
  exact Tensor.sub_ofVec x x

end

/-- A run stops at the first iteration if that passes. -/
theorem stopIndex_eq_one {V : Type} {limit : Nat} (limited : 1 ≤ limit)
    {test : Pipeline.Test (Iteration V σ)} {s : Nat → Iteration V σ} (held : test (s 1) = .ok true) :
    stopIndex limit (Passes [test] s) = 1 := by
  refine stopIndex_eq limited (fun i positive before => by omega) (.inr ⟨le_rfl, ?_⟩)
  exact ⟨test, List.mem_singleton_self test, held⟩

/-- A run whose first iteration passes ends with it, if the watcher does not write to it. -/
theorem minimize_of_first {V : Type} [Space ℝ V] {method : Method ℝ V σ} {start : V}
    {s : Iteration V σ} {test : Pipeline.Test (Iteration V σ)} {limit : Nat} (limited : 1 ≤ limit)
    (countable : limit ≤ Pipeline.largestLimit) (interval : Nat) {watcher? : Option (Watcher V σ)}
    (unchanged : ∀ watch, watcher? = some watch → watch s = .ok s)
    (stepped : method.first start = .ok s) (held : test s = .ok true)
    (measured : ∃ residual, conjugateResidual s = .ok residual) :
    ∃ outcome, method.minimize start [test] (.ofWhole limit interval) watcher? = .ok outcome ∧
      outcome.point = s.xNext ∧ outcome.iterations = 1 ∧ outcome.status = .optimal := by
  obtain ⟨returned, -⟩ := minimize_stops countable interval (s := fun _ => s)
    (stopIndex_eq_one limited held)
    (fun j before => by
      obtain rfl : j = 0 := Nat.lt_one_iff.mp before
      exact stepped)
    (fun watch own _ _ _ => unchanged watch own)
    (fun j _ test member => by
      obtain rfl := List.mem_singleton.mp member
      exact ⟨true, held⟩)
    (fun _ _ _ => measured)
  exact ⟨_, returned, rfl, rfl, if_pos ⟨le_rfl, _, List.mem_singleton_self _, held⟩⟩

/-- A momentum has a first factor. -/
def Momentum.Begins (momentum : Momentum ℝ σ) : Prop :=
  ∃ state answer, momentum.initialState = .ok state ∧ momentum.next state = .ok answer

theorem StepRule.begins_constant (kit : Kernels ℝ) (factor : ℝ) :
    ((constant factor).momentum kit).Begins :=
  ⟨_, _, rfl, rfl⟩

/-- A momentum that begins lets every start have a first iteration. -/
theorem exists_first {project : Vec ℝ n → Except Fault (Vec ℝ n)} {momentum : Momentum ℝ σ}
    (projects : Projects project X) (begins : momentum.Begins) (start : Vec ℝ n) :
    ∃ s, (onVectors H b project momentum L).first start = .ok s := by
  obtain ⟨state, ⟨factor, state'⟩, begun, advanced⟩ := begins
  obtain ⟨p, projected, -⟩ := projects (trialPoint H b L start)
  exact ⟨_, (first_of_begun (onVectors H b project momentum L) begun start).trans
    (step_eq_ok.mpr ⟨p, factor, state', projected, advanced, rfl⟩)⟩

theorem exists_first_onArrays {project : Tensor ℝ → Except Fault (Tensor ℝ)}
    {momentum : Momentum ℝ σ} (projects : Projects (forVectors project) X)
    (begins : momentum.Begins) (start : Vec ℝ n) : ∃ s : Iteration (Vec ℝ n) σ,
      (onArrays H b project momentum L).first (.ofVec start) = .ok s.toArrays := by
  obtain ⟨s, first⟩ := exists_first projects begins start
  exact ⟨s, nth_onArrays (k := 0) first⟩

/-- What a program needs for a first iteration with a Hessian, a linear term and a start: these are its own,
and its strategy accepts the bounds on the eigenvalues, `L` being the upper one, with a momentum that
begins. -/
structure Program.Starts (kit : Kernels ℝ) (p : Program ℝ σ) (H : Mat ℝ n n) (b start : Vec ℝ n)
    (L : ℝ) : Prop where
  hessian : p.hessian = .ofMat H
  linear : p.linear.flatten = .ofVec b
  start : readStart n p.start? = .ok start
  momentum : ∃ largest smallest μ momentum, p.bounds kit H = .ok (largest, smallest) ∧
    largest.toScalar = .ok L ∧ smallest.toScalar = .ok μ ∧
    p.strategy.forBounds largest smallest = .ok momentum ∧ momentum.Begins

theorem Program.Starts.size_eq {kit : Kernels ℝ} {p : Program ℝ σ} {start : Vec ℝ n}
    (starts : p.Starts kit H b start L) : n = p.linear.size := by
  obtain ⟨v, flat⟩ := p.linear.exists_flatten_eq
  have shapes := congrArg Tensor.shape (starts.linear.symm.trans flat)
  exact List.singleton_inj.mp shapes

/-- The run of such a program is the run of the method on arrays. -/
theorem Program.Starts.solveBy_eq {kit : Kernels ℝ} {p : Program ℝ σ} {start : Vec ℝ n}
    (starts : p.Starts kit H b start L) (checked : p.settings.check = .ok ()) :
    ∃ momentum μ, momentum.Begins ∧ ∀ project stopping, solveBy kit p project stopping =
      ((onArrays H b project momentum L).minimize (.ofVec start) (stopping.tests n L μ) p.settings
        p.watcher?).map fun outcome =>
          { outcome, size := n, momentum, largest := L, smallest := μ } := by
  obtain rfl := starts.size_eq
  obtain ⟨largest, smallest, μ, momentum, bounded, upper, lower, ready, begins⟩ := starts.momentum
  have conforms : p.hessian.matrixOfSize p.linear.size p.linear.size "H" = .ok H := by
    rw [starts.hessian]
    exact Tensor.matrixOfSize_ofMat _ _
  refine ⟨momentum, μ, begins, fun project stopping => ?_⟩
  rw [Gradient.solveBy_eq conforms starts.start checked bounded ready upper lower, starts.hessian,
    starts.linear]

theorem tests_of_single {p : Program ℝ σ} {condition : Condition ℝ}
    (conditions : p.conditions = [condition]) (n : Nat) (L μ : ℝ) :
    p.stopping.tests n L μ = [(condition.forProgram n L μ).holds] := by
  rw [Program.stopping, conditions]
  rfl

section

variable {kit : Kernels ℝ} {p : Program ℝ σ} {start : Vec ℝ n}
  {project : Tensor ℝ → Except Fault (Tensor ℝ)} {eps eps' : ℝ}

/-- A run that starts at a minimizer ends there after one iteration. -/
theorem solveBy_at_minimizer (starts : p.Starts kit H b start L) (semidefinite : H.toMatrix.PosSemidef)
    (above : 0 < L) (convex : IsConvex X) (projects : Projects (forVectors project) X)
    (minimal : IsMinimizer H b X start) (sized : 0 < n) {limit interval : Nat}
    (settings : p.settings = .ofWhole limit interval) (limited : 1 ≤ limit)
    (countable : limit ≤ Pipeline.largestLimit)
    (unchanged : ∀ watch, p.watcher? = some watch → ∀ s, watch s = .ok s)
    {isScaled : Bool} (accuracy : 0 < eps) (conditions : p.conditions = [.best eps eps' isScaled]) :
    ∃ solution, solveBy kit p project p.stopping = .ok solution ∧
      solution.outcome.point = .ofVec start ∧ solution.outcome.iterations = 1 ∧
      solution.outcome.status = .optimal := by
  obtain ⟨momentum, μ, begins, solved⟩ := starts.solveBy_eq (settings ▸ check_ofWhole _ _)
  obtain ⟨s, reached⟩ := exists_first_onArrays (H := H) (b := b) (L := L) projects begins start
  -- The first step does not move, which the gradient test accepts with any positive tolerance.
  have rests := restsAt_of_reaches semidefinite above convex projects minimal
    (reaches_of_nth (k := 0) reached)
  have held : ((Condition.best eps eps' isScaled).forProgram n L μ).holds s.toArrays = .ok true :=
    holds_best_of_restsAt_arrays rests accuracy (Int.natCast_pos.mpr sized)
  obtain ⟨outcome, returned, point, iterations, status⟩ := minimize_of_first limited countable interval
    (fun watch own => unchanged watch own _) reached held
    (exists_conjugateResidual (k := 0) (projectsVectors_of_projects projects) reached)
  rw [← settings, ← tests_of_single conditions] at returned
  refine ⟨⟨outcome, n, momentum, L, μ⟩, ?_, point.trans rests.xNext, iterations, status⟩
  rw [solved, returned]
  rfl

/-- Without variables there is no share of the tolerance, and a run fails after its first iteration. -/
theorem solveBy_eq_error {b start : Vec ℝ 0} {H : Mat ℝ 0 0} {X : Set (Vec ℝ 0)}
    (starts : p.Starts kit H b start L) (projects : Projects (forVectors project) X)
    (settings : p.settings = { limit := .whole 1 }) (unwatched : p.watcher? = none)
    (conditions : p.conditions = [.best eps eps' true]) :
    solveBy kit p project p.stopping = .error .divisionByZero := by
  have checked : p.settings.check = .ok () := by
    rw [settings]
    exact check_ofWhole 1 0
  obtain ⟨momentum, μ, begins, solved⟩ := starts.solveBy_eq checked
  obtain ⟨s, reached⟩ := exists_first_onArrays (H := H) (b := b) (L := L) projects begins start
  -- Without variables no step moves, and the tolerance cannot be shared among none.
  have failed : ((Condition.best eps eps' true).forProgram (0 : Nat) L μ).holds s.toArrays =
      .error .divisionByZero := by
    have same : s.y = s.xNext := Vec.ext fun i => i.elim0
    have still : Space.norm (Space.scale L (Tensor.ofVec (s.y - s.xNext))) = 0 := by
      rw [same]
      exact (Tensor.norm_ofVec _).trans (norm_scale_sub_self L _)
    have unshared : (⟨eps, true, (0 : Nat)⟩ : Tolerance ℝ).threshold = .error .divisionByZero :=
      if_pos ((Scalar.beq_real _ _).mpr Int.cast_zero)
    have undecided : (⟨⟨eps, true, (0 : Nat)⟩, L, μ⟩ : GradientTest ℝ).holds s.toArrays =
        .error .divisionByZero := by
      rw [holds_of_still (Tensor.sub_ofVec s.y s.xNext) still, unshared]
      rfl
    rw [holds_best_eq, undecided]
    rfl
  rw [solved, settings, unwatched, tests_of_single conditions, minimize_eq_of_first reached rfl]
  simp only [List.anyM, failed, bind, Except.bind, Except.map]

/-- There is no run under a limit that is too large. -/
theorem solveBy_eq_error_of_limit (starts : p.Starts kit H b start L) {limit interval : Nat}
    (settings : p.settings = .ofWhole limit interval) (beyond : Pipeline.largestLimit < limit)
    (stopping : Stopping ℝ σ) : solveBy kit p project stopping = .error .limitOutOfRange := by
  obtain ⟨momentum, μ, -, solved⟩ := starts.solveBy_eq (settings ▸ check_ofWhole _ _)
  rw [solved, settings, minimize_eq_error beyond interval]
  rfl

end

end RecedingHorizon.Gradient
