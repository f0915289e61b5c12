import RecedingHorizon.Gradient.Minimization
import RecedingHorizon.Proofs.Constraint.Nearest

/-!
# Steps on vectors and on arrays

On vectors every operation of a step succeeds except the projection and the momentum, so an iteration
is determined by what these two answer (`step_eq_ok`). On arrays every operation checks shapes; if
the data of a program have the shapes of vectors and matrices, no check fails, and the iterations are
those on vectors (`nth_onArrays`).
-/

namespace RecedingHorizon.Gradient

variable {α σ : Type} [Scalar α] {n : Nat}

namespace Method

/-- The method for `½ x' H x + b' x` on vectors. -/
abbrev onVectors (H : Mat α n n) (b : Vec α n) (project : Vec α n → Except Fault (Vec α n))
    (momentum : Momentum α σ) (largest : α) : Method α (Vec α n) σ :=
  { gradient := gradientAt H b, project, momentum, largest }

/-- The method for `½ x' H x + b' x` on arrays. -/
abbrev onArrays (H : Mat α n n) (b : Vec α n) (project : Tensor α → Except Fault (Tensor α))
    (momentum : Momentum α σ) (largest : α) : Method α (Tensor α) σ :=
  { gradient := gradientOf (.ofMat H) (.ofVec b), project, momentum, largest }

variable {H : Mat α n n} {b : Vec α n} {momentum : Momentum α σ} {largest : α}

section Vectors

variable {project : Vec α n → Except Fault (Vec α n)}

theorem step_eq_ok {count : Nat} {x y : Vec α n} {state : σ}
    {s : Iteration (Vec α n) σ} :
    (onVectors H b project momentum largest).step count x y state = .ok s ↔
      ∃ p factor state',
        project (y - (H.mulVec y + b).map (· / largest)) = .ok p ∧
        momentum.next state = .ok (factor, state') ∧
        s = { count, x, xNext := p, y, yNext := p + (p - x).map (factor * ·)
              gradientAtY := H.mulVec y + b, gradientAtXNext := H.mulVec p + b
              trial := y - (H.mulVec y + b).map (· / largest), stepState := state' } := by
  simp only [step, gradientAt, Space.sub, Space.divide, Space.add, Space.scale, bind, Except.bind]
  cases project (y - (H.mulVec y + b).map (· / largest)) with
  | error f => simp
  | ok p =>
    cases momentum.next state with
    | error f => simp
    | ok advanced =>
      obtain ⟨factor, state'⟩ := advanced
      simp [pure, Except.pure, and_assoc, eq_comm]

/-- Every iteration is a step from its own momentum point. -/
theorem projected_of_nth {start : Vec α n} {k : Nat} {s : Iteration (Vec α n) σ}
    (reached : (onVectors H b project momentum largest).nth start k = .ok s) :
    project (s.y - (H.mulVec s.y + b).map (· / largest)) = .ok s.xNext ∧
      s.gradientAtXNext = H.mulVec s.xNext + b := by
  -- The first iteration and the later ones are steps that differ in where they start.
  have stepped : ∃ count x y state,
      (onVectors H b project momentum largest).step count x y state = .ok s := by
    cases k with
    | zero =>
      obtain ⟨state, -, stepped⟩ := bind_eq_ok reached
      exact ⟨_, _, _, _, stepped⟩
    | succ k =>
      obtain ⟨before, -, stepped⟩ := bind_eq_ok reached
      exact ⟨_, _, _, _, stepped⟩
  obtain ⟨count, x, y, state, stepped⟩ := stepped
  obtain ⟨p, factor, state', projected, -, rfl⟩ := step_eq_ok.mp stepped
  exact ⟨projected, rfl⟩

end Vectors

end Method

theorem gradientOf_ofMat_ofVec (H : Mat α n n) (b x : Vec α n) :
    gradientOf (.ofMat H) (.ofVec b) (.ofVec x) = .ok (.ofVec (H.mulVec x + b)) := by
  rw [gradientOf, Tensor.product_ofMat_ofVec]
  exact Tensor.add_ofVec _ _

/-- The iteration with its vectors as arrays. -/
def Iteration.toArrays (s : Iteration (Vec α n) σ) : Iteration (Tensor α) σ where
  count := s.count
  x := .ofVec s.x
  xNext := .ofVec s.xNext
  y := .ofVec s.y
  yNext := .ofVec s.yNext
  gradientAtY := .ofVec s.gradientAtY
  gradientAtXNext := .ofVec s.gradientAtXNext
  trial := .ofVec s.trial
  stepState := s.stepState

namespace Method

variable {H : Mat α n n} {b : Vec α n} {momentum : Momentum α σ} {largest : α}
variable {project : Tensor α → Except Fault (Tensor α)}

theorem step_onArrays {count : Nat} {x y : Vec α n} {state : σ}
    {s : Iteration (Vec α n) σ}
    (stepped : (onVectors H b (forVectors project) momentum largest).step count x y state = .ok s) :
    (onArrays H b project momentum largest).step count (.ofVec x) (.ofVec y) state =
      .ok s.toArrays := by
  obtain ⟨p, factor, state', projected, advanced, rfl⟩ := step_eq_ok.mp stepped
  -- All arrays have the shape of `x`, so that none of the four operations refuses.
  have trial : Tensor.sub (.ofVec y) ((Tensor.ofVec (H.mulVec y + b)).map (· / largest)) =
      .ok (.ofVec (y - (H.mulVec y + b).map (· / largest))) :=
    Tensor.sub_ofVec _ _
  have change : Tensor.sub (.ofVec p) (.ofVec x) = .ok (.ofVec (p - x)) := Tensor.sub_ofVec _ _
  have moved : Tensor.add (.ofVec p) ((Tensor.ofVec (p - x)).map (factor * ·)) =
      .ok (.ofVec (p + (p - x).map (factor * ·))) :=
    Tensor.add_ofVec _ _
  simp only [step, gradientOf_ofMat_ofVec, Space.sub, Space.divide, Space.add, Space.scale, bind,
    Except.bind, trial, forVectors_eq_ok.mp projected, advanced, change, moved]
  rfl

/-- The iterations on arrays are those on vectors. -/
theorem nth_onArrays {start : Vec α n} {k : Nat} {s : Iteration (Vec α n) σ}
    (reached : (onVectors H b (forVectors project) momentum largest).nth start k = .ok s) :
    (onArrays H b project momentum largest).nth (.ofVec start) k = .ok s.toArrays := by
  induction k generalizing s with
  | zero =>
    obtain ⟨state, begun, stepped⟩ := bind_eq_ok reached
    exact (first_of_begun (onArrays H b project momentum largest) begun _).trans
      (step_onArrays stepped)
  | succ k ih =>
    obtain ⟨earlier, before, stepped⟩ := bind_eq_ok reached
    simp only [nth, ih before]
    exact step_onArrays stepped

end Method

end RecedingHorizon.Gradient
