import RecedingHorizon.Controller.Setup
import RecedingHorizon.Proofs.Constraint.Stages

/-!
# Projections onto input bounds

Without a projection of its own, a controller projects onto the box of the input bounds in every
stage. The points of that box are the stacks whose parts all lie within the bounds
(`boundedInputs_eq`), and if no bound is finite, the identity is the projection
(`projects_inputProjection`).
-/

namespace RecedingHorizon

variable {n m : Nat}

namespace Box

/-- A box with a point but without finite bounds is the whole space. -/
theorem region_eq_univ {bounds : Bounds ℝ m}
    (nonempty : (region bounds.lower bounds.upper).Nonempty) (free : bounds.isActive = false) :
    region bounds.lower bounds.upper = Set.univ := by
  obtain ⟨x, inside⟩ := nonempty
  simp only [Bounds.isActive, Bool.or_eq_false_iff, List.any_eq_false, Vector.mem_toList_iff,
    Vector.mem_iff_getElem] at free
  -- A bound that is not finite is open on its side, as the other kinds would leave out `x` too.
  refine Set.eq_univ_of_forall fun z i => ?_
  obtain ⟨above, below⟩ := inside i
  have lower := free.1 (bounds.lower i) ⟨i, i.isLt, rfl⟩
  have upper := free.2 (bounds.upper i) ⟨i, i.isLt, rfl⟩
  constructor
  · match bound : bounds.lower i with
    | .bottom => rfl
    | .finite a => exact absurd (congrArg Extended.isFinite bound) lower
    | .undefined | .top =>
      rw [bound] at above
      cases above
  · match bound : bounds.upper i with
    | .top => rfl
    | .finite a => exact absurd (congrArg Extended.isFinite bound) upper
    | .undefined | .bottom =>
      rw [bound] at below
      cases below

end Box

namespace ConstrainedLqr

variable {p : Nat}

/-- The free variables whose parts lie within the input bounds. -/
def boundedInputs (problem : ConstrainedLqr ℝ n m p) : Set (Vec ℝ (problem.horizon * m)) :=
  {v | ∀ k, v.part k ∈ Box.region problem.inputBounds.lower problem.inputBounds.upper}

theorem boundedInputs_eq (problem : ConstrainedLqr ℝ n m p) :
    problem.boundedInputs = Box.region
      (Vec.stack fun _ : Fin problem.horizon => problem.inputBounds.lower)
      (Vec.stack fun _ : Fin problem.horizon => problem.inputBounds.upper) :=
  Set.ext fun _ => Box.mem_region_stack.symm

theorem isConvex_boundedInputs (problem : ConstrainedLqr ℝ n m p) :
    IsConvex problem.boundedInputs := by
  rw [boundedInputs_eq]
  exact Box.isConvex_region

/-- The projection that is chosen without a given one is onto the input bounds of all stages. -/
theorem projects_inputProjection {problem : ConstrainedLqr ℝ n m p} {projection : Projection ℝ}
    (chosen : problem.inputProjection = .ok projection)
    (nonempty : problem.boundedInputs.Nonempty) :
    Projects projection.applyVec problem.boundedInputs := by
  rw [inputProjection] at chosen
  rw [Projection.applyVec_eq]
  cases active : problem.inputBounds.isActive with
  | false =>
    -- Nothing is bounded: the set is the whole space, because it has a point.
    simp only [active, Bool.not_false, if_true, pure, Except.pure, Except.ok.injEq] at chosen
    have stage : (Box.region problem.inputBounds.lower problem.inputBounds.upper).Nonempty := by
      obtain ⟨v, inside⟩ := nonempty
      exact ⟨_, inside ⟨0, problem.horizon_pos⟩⟩
    have whole : problem.boundedInputs = Set.univ := Set.eq_univ_of_forall fun v k => by
      rw [Box.region_eq_univ stage active]
      exact Set.mem_univ _
    rw [← chosen, whole]
    exact Projection.projects_identity
  | true =>
    simp only [active, Bool.not_true, Bool.false_eq_true, if_false] at chosen
    split at chosen
    · cases chosen
    obtain ⟨stage, first, chosen⟩ := bind_eq_ok chosen
    obtain ⟨box, repeated, chosen⟩ := bind_eq_ok chosen
    cases chosen
    obtain rfl := Box.between_eq_ok first
    obtain ⟨size, rfl⟩ := Box.repeat_eq_ok repeated
    rw [boundedInputs_eq] at nonempty ⊢
    exact Box.projects_region nonempty

/-- Bounds that do not cross have a projection, unless they are finite and there is a feedback. -/
theorem exists_inputProjection {problem : ConstrainedLqr ℝ n m p}
    (plain : problem.isPrestabilized = false)
    (uncrossed : ∀ i, Extended.lt (problem.inputBounds.upper i) (problem.inputBounds.lower i) = false) :
    ∃ projection, problem.inputProjection = .ok projection := by
  rw [inputProjection, plain]
  split
  · exact ⟨_, rfl⟩
  · have stage := Box.between_ofVec _ _ uncrossed m
    have stages := Box.repeat_ofVec (N := problem.horizon) uncrossed m
    simp only [stage, stages, bind, Except.bind]
    exact ⟨_, rfl⟩

end ConstrainedLqr

end RecedingHorizon
