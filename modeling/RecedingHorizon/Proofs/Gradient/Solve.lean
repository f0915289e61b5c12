import RecedingHorizon.Proofs.Gradient.Steps

/-!
# Runs with any projection and any tests

A program names its conditions. What is said about its run holds for any function in place of its
projection and for any criteria in place of the conditions, also for criteria that are fitted to the
number of variables and to the bounds of the eigenvalues: `solveBy` is the run with these, and `solve` is
one case of it (`solve_eq_solveBy`). When vectors are projected to vectors, the iterations
on arrays are iterations on vectors (`exists_vectors`), so that everything that is computed from them
exists (`exists_conjugateResidual`).
-/

namespace RecedingHorizon.Gradient

variable {α σ : Type} [Scalar α]

/-- The bounds on the eigenvalues: those that are given, and those of the Hessian otherwise. -/
def Program.bounds {n : Nat} (kit : Kernels α) (p : Program α σ) (H : Mat α n n) :
    Except Fault (Argument α × Argument α) :=
  if p.largest.isGiven && p.smallest.isGiven then pure (p.largest, p.smallest)
  else do
    let (largest, smallest) ← eigenvalueBounds kit H
    pure (if p.largest.isGiven then p.largest else .real largest,
      if p.smallest.isGiven then p.smallest else .real smallest)

/-- A stopping condition of any kind: the test that it is for so many variables, with bounds `L` and
`μ` on the eigenvalues. -/
abbrev Criterion (α σ : Type) := Nat → α → α → Pipeline.Test (Iteration (Tensor α) σ)

/-- What may be given as stopping conditions: nothing, one of them, or several. -/
inductive Stopping (α σ : Type) where
  | nothing
  | single (criterion : Criterion α σ)
  | several (criteria : List (Criterion α σ))

/-- The criteria that are given, of which any one ends a run. -/
def Stopping.criteria : Stopping α σ → List (Criterion α σ)
  | nothing => []
  | single criterion => [criterion]
  | several criteria => criteria

/-- The tests of a run with so many variables and such bounds. -/
def Stopping.tests (stopping : Stopping α σ) (n : Nat) (L μ : α) :
    List (Pipeline.Test (Iteration (Tensor α) σ)) :=
  stopping.criteria.map fun criterion => criterion n L μ

/-- The conditions of a program. -/
def Program.stopping (p : Program α σ) : Stopping α σ :=
  .several (p.conditions.map fun c n L μ => (c.forProgram n L μ).holds)

/-- The run of a program with any function as its projection and any stopping conditions. -/
def solveBy (kit : Kernels α) (p : Program α σ) (project : Tensor α → Except Fault (Tensor α))
    (stopping : Stopping α σ) : Except Fault (Solution α (Tensor α) σ) := do
  let b := p.linear.flatten
  let n := p.linear.size
  let H ← p.hessian.matrixOfSize n n "H"
  let start ← readStart n p.start?
  p.settings.check
  let (largest, smallest) ← p.bounds kit H
  let momentum ← p.strategy.forBounds largest smallest
  let largest ← largest.toScalar
  let smallest ← smallest.toScalar
  let method : Method α (Tensor α) σ :=
    { gradient := gradientOf p.hessian b, project, momentum, largest }
  let outcome ← method.minimize (.ofVec start) (stopping.tests n largest smallest) p.settings p.watcher?
  return { outcome, size := n, momentum, largest, smallest }

theorem solve_eq_solveBy (kit : Kernels α) (p : Program α σ) :
    solve kit p = solveBy kit p p.projection.apply p.stopping := by
  have fitted (n : Nat) (L μ : α) :
      p.stopping.tests n L μ = p.conditions.map fun c => (c.forProgram n L μ).holds :=
    List.map_map
  unfold solve solveBy Program.bounds
  simp only [fitted]
  refine bind_congr fun H => bind_congr fun start => bind_congr fun _ => ?_
  -- Only the order of the two branches and of what follows them differs.
  split
  · rfl
  · cases eigenvalueBounds kit H <;> rfl

/-- The run of a program whose data are fine is the run of its method. -/
theorem solveBy_eq {kit : Kernels α} {p : Program α σ} {H : Mat α p.linear.size p.linear.size}
    (conforms : p.hessian.matrixOfSize p.linear.size p.linear.size "H" = .ok H)
    {start : Vec α p.linear.size} (started : readStart p.linear.size p.start? = .ok start)
    (checked : p.settings.check = .ok ()) {largest smallest : Argument α}
    (bounded : p.bounds kit H = .ok (largest, smallest)) {momentum : Momentum α σ}
    (ready : p.strategy.forBounds largest smallest = .ok momentum) {L μ : α}
    (above : largest.toScalar = .ok L) (below : smallest.toScalar = .ok μ)
    (project : Tensor α → Except Fault (Tensor α)) (stopping : Stopping α σ) :
    solveBy kit p project stopping =
      (Method.minimize
        { gradient := gradientOf p.hessian p.linear.flatten, project, momentum, largest := L }
        (.ofVec start) (stopping.tests p.linear.size L μ) p.settings p.watcher?).map fun outcome =>
          { outcome, size := p.linear.size, momentum, largest := L, smallest := μ } := by
  simp only [solveBy, conforms, started, checked, bounded, ready, above, below, bind, Except.bind]
  rfl

section Vectors

open Method

variable {n : Nat} {H : Mat α n n} {b : Vec α n} {momentum : Momentum α σ} {largest : α}
  {project : Tensor α → Except Fault (Tensor α)}

/-- Vectors are projected to vectors. -/
def ProjectsVectors (n : Nat) (project : Tensor α → Except Fault (Tensor α)) : Prop :=
  ∀ x : Vec α n, ∃ p : Vec α n, project (.ofVec x) = .ok (.ofVec p)

theorem exists_vectors_of_step (projects : ProjectsVectors n project) {count : Nat} {x y : Vec α n}
    {state : σ} {t : Iteration (Tensor α) σ}
    (stepped : (onArrays H b project momentum largest).step count (.ofVec x) (.ofVec y) state =
      .ok t) :
    ∃ s, (onVectors H b (forVectors project) momentum largest).step count x y state = .ok s ∧
      t = s.toArrays := by
  obtain ⟨p, projected⟩ := projects (y - (H.mulVec y + b).map (· / largest))
  -- A momentum without a factor would not have allowed the step on arrays either.
  cases advanced : momentum.next state with
  | error f =>
    have trial : Tensor.sub (.ofVec y) ((Tensor.ofVec (H.mulVec y + b)).map (· / largest)) =
        .ok (.ofVec (y - (H.mulVec y + b).map (· / largest))) :=
      Tensor.sub_ofVec _ _
    simp only [step, gradientOf_ofMat_ofVec, Space.sub, Space.divide, bind, Except.bind, trial,
      projected, advanced] at stepped
    cases stepped
  | ok answer =>
    obtain ⟨factor, state'⟩ := answer
    obtain ⟨s, vectors⟩ : ∃ s, (onVectors H b (forVectors project) momentum largest).step count x y
        state = .ok s :=
      ⟨_, step_eq_ok.mpr ⟨p, factor, state', forVectors_eq_ok.mpr projected, advanced, rfl⟩⟩
    exact ⟨s, vectors, Except.ok.inj (stepped.symm.trans (step_onArrays vectors))⟩

/-- The iterations on arrays are iterations on vectors. -/
theorem exists_vectors (projects : ProjectsVectors n project) {start : Vec α n} {k : Nat}
    {t : Iteration (Tensor α) σ}
    (reached : (onArrays H b project momentum largest).nth (.ofVec start) k = .ok t) :
    ∃ s, (onVectors H b (forVectors project) momentum largest).nth start k = .ok s ∧
      t = s.toArrays := by
  induction k generalizing t with
  | zero =>
    obtain ⟨state, begun, stepped⟩ := bind_eq_ok reached
    obtain ⟨s, vectors, same⟩ := exists_vectors_of_step projects stepped
    exact ⟨s, (first_of_begun (onVectors H b (forVectors project) momentum largest) begun _).trans
      vectors, same⟩
  | succ k ih =>
    obtain ⟨_, before, stepped⟩ := bind_eq_ok reached
    obtain ⟨earlier, vectors, rfl⟩ := ih before
    obtain ⟨s, later, same⟩ := exists_vectors_of_step projects stepped
    refine ⟨s, ?_, same⟩
    simp only [nth, vectors]
    exact later

/-- Under a momentum that always has a factor the sequence of the iterations has no end. -/
theorem exists_nth_of_total (projects : ProjectsVectors n project)
    (total : ∀ state, ∃ answer, momentum.next state = .ok answer)
    {initial : σ} (begun : momentum.initialState = .ok initial) (start : Vec α n) (k : Nat) :
    ∃ s, (onVectors H b (forVectors project) momentum largest).nth start k = .ok s := by
  have step (count : Nat) (x y : Vec α n) (state : σ) :
      ∃ s, (onVectors H b (forVectors project) momentum largest).step count x y state = .ok s := by
    obtain ⟨p, projected⟩ := projects (y - (H.mulVec y + b).map (· / largest))
    obtain ⟨⟨factor, state'⟩, advanced⟩ := total state
    exact ⟨_, step_eq_ok.mpr ⟨p, factor, state', forVectors_eq_ok.mpr projected, advanced, rfl⟩⟩
  induction k with
  | zero =>
    rw [nth, first_of_begun (onVectors H b (forVectors project) momentum largest) begun]
    exact step _ _ _ _
  | succ k ih =>
    obtain ⟨earlier, before⟩ := ih
    simp only [nth, before]
    exact step _ _ _ _

/-- The conjugate estimate of every iteration exists. -/
theorem exists_conjugateResidual (projects : ProjectsVectors n project) {start : Vec α n} {k : Nat}
    {t : Iteration (Tensor α) σ}
    (reached : (onArrays H b project momentum largest).nth (.ofVec start) k = .ok t) :
    ∃ residual, conjugateResidual t = .ok residual := by
  obtain ⟨s, -, rfl⟩ := exists_vectors projects reached
  refine ⟨Scalar.abs (Vec.dot s.xNext s.gradientAtXNext + Vec.normOne s.gradientAtXNext), ?_⟩
  simp only [conjugateResidual, Iteration.toArrays, Space.inner, Tensor.inner_ofVec]
  rfl

end Vectors

end RecedingHorizon.Gradient
