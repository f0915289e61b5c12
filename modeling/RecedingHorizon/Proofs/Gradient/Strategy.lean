import RecedingHorizon.Proofs.Exact.Kernels
import RecedingHorizon.Proofs.Gradient.Convergence
import RecedingHorizon.Proofs.Gradient.Solve
import RecedingHorizon.Proofs.Pipeline.Image

/-!
# The two momentum rules

Started from its own initial state, the recurrence stays there: the square root of `μ / L` is the only
root that it can move to, and the factor at it is the constant one (`next_recurrence`). Its iterations
differ from those of the constant rule in nothing but the state that they remember
(`nth_withState`), and neither do the runs with any conditions and any watcher that do not look at that
state (`minimize_withState`).
-/

namespace RecedingHorizon.Gradient

open Pipeline

section

variable {α V σ : Type}

/-- The iteration with something else remembered. -/
def Iteration.withState (state : σ) (s : Iteration V σ) : Iteration V σ :=
  { s with stepState := state }

/-- The trace of iterations that remember something else. -/
def Trace.withState (state : σ) (trace : Trace V σ) : Trace V σ where
  last? := trace.last?.map (.withState state)
  displayed := trace.displayed.map (.withState state)
  watched := trace.watched.map (.withState state)

/-- The same outcome, with what is remembered changed in the iterations that are displayed and
watched. -/
def Outcome.withState (state : σ) (outcome : Outcome V σ) : Outcome V σ :=
  { outcome with
    displayed? := outcome.displayed?.map (·.map (.withState state))
    watched := outcome.watched.map (.withState state) }

theorem Trace.note_withState (state : σ) (trace : Trace V σ) (e : Event (Iteration V σ)) :
    (trace.withState state).note (e.image (.withState state)) =
      (trace.note e).withState state := by
  cases e with
  | pulled s => rfl
  | tested stage test s => rfl
  | received s => rfl
  | called stage s =>
    simp only [Event.image, Trace.note]
    split
    · rfl
    · split <;> rfl

/-- A test does not look at what the momentum remembers. -/
def IgnoresState (test : Test (Iteration V σ)) : Prop :=
  ∀ (state : σ) (s : Iteration V σ), test (s.withState state) = test s

/-- A watcher does not look at what the momentum remembers, and does not write to it. -/
def Watcher.IgnoresState (watch : Watcher V σ) : Prop :=
  ∀ (state : σ) (s : Iteration V σ), watch (s.withState state) = (watch s).map (.withState state)

theorem anyM_withState {tests : List (Test (Iteration V σ))}
    (ignored : ∀ test ∈ tests, IgnoresState test) (state : σ) (s : Iteration V σ) :
    (tests.anyM fun test => test (s.withState state)) = tests.anyM fun test => test s := by
  induction tests with
  | nil => rfl
  | cons test rest ih =>
    rw [List.forall_mem_cons] at ignored
    simp only [List.anyM_cons, ignored.1 state s, ih ignored.2]

/-- From its initial state, which it keeps, one momentum has the factors of another one. -/
structure Momentum.Matches (momentum other : Momentum α σ) (state : σ) : Prop where
  initial : momentum.initialState = .ok state
  started : ∃ initial, other.initialState = .ok initial
  next : ∀ remembered, momentum.next state =
    (other.next remembered).map fun answer => (answer.1, state)

section

variable [Space α V] {momentum other : Momentum α σ} {state : σ}
  (gradient project : V → Except Fault V) (largest : α)

theorem step_withState (same : momentum.Matches other state) (count : Nat) (x y : V)
    (remembered : σ) :
    ({ gradient, project, momentum, largest } : Method α V σ).step count x y state =
      (({ gradient, project, momentum := other, largest } : Method α V σ).step count x y
        remembered).map (.withState state) := by
  change _ = Iteration.withState state <$> _
  have next : momentum.next state = (fun answer => (answer.1, state)) <$> other.next remembered :=
    same.next remembered
  simp only [Method.step, next, map_bind, bind_map_left]
  rfl

theorem first_withState (same : momentum.Matches other state) (start : V) :
    ({ gradient, project, momentum, largest } : Method α V σ).first start =
      (({ gradient, project, momentum := other, largest } : Method α V σ).first start).map
        (.withState state) := by
  obtain ⟨initial, begun⟩ := same.started
  rw [Method.first_of_begun _ same.initial,
    Method.first_of_begun { gradient, project, momentum := other, largest } begun]
  exact step_withState gradient project largest same 1 start start initial

theorem after_withState (same : momentum.Matches other state) (s : Iteration V σ) :
    ({ gradient, project, momentum, largest } : Method α V σ).after (s.withState state) =
      (({ gradient, project, momentum := other, largest } : Method α V σ).after s).map
        (.withState state) :=
  step_withState gradient project largest same (s.count + 1) s.xNext s.yNext s.stepState

/-- The iterations under the two differ in what they remember and in nothing else. -/
theorem nth_withState (same : momentum.Matches other state) (start : V) (k : Nat) :
    ({ gradient, project, momentum, largest } : Method α V σ).nth start k =
      (({ gradient, project, momentum := other, largest } : Method α V σ).nth start k).map
        (.withState state) := by
  induction k with
  | zero => exact first_withState gradient project largest same start
  | succ k ih =>
    rw [Method.nth, Method.nth, ih]
    cases ({ gradient, project, momentum := other, largest } : Method α V σ).nth start k with
    | error f => rfl
    | ok s => exact after_withState gradient project largest same s

theorem source_withState (same : momentum.Matches other state) (start : V)
    {leave : Iteration V σ → Except Fault (Iteration V σ)}
    (left : ∀ s, leave (s.withState state) = (leave s).map (.withState state))
    (last? : Option (Iteration V σ)) :
    ({ gradient, project, momentum, largest } : Method α V σ).source start leave
        (last?.map (.withState state)) =
      (({ gradient, project, momentum := other, largest } : Method α V σ).source start leave
        last?).map (.map (.map (.withState state) (.map (.withState state)))) := by
  cases last? with
  | none =>
    simp only [Option.map_none, Method.source, first_withState gradient project largest same]
    cases ({ gradient, project, momentum := other, largest } : Method α V σ).first start <;> rfl
  | some s =>
    simp only [Option.map_some, Method.source, left, bind, Except.bind]
    cases leave s with
    | error f => rfl
    | ok s =>
      simp only [Except.map, after_withState gradient project largest same]
      cases ({ gradient, project, momentum := other, largest } : Method α V σ).after s <;> rfl

end

variable [Scalar α]

theorem Settings.leave_withState (settings : Settings α) {watcher? : Option (Watcher V σ)}
    (passive : ∀ watch, watcher? = some watch → watch.IgnoresState) (state : σ)
    (s : Iteration V σ) :
    settings.leave watcher? (s.withState state) =
      (settings.leave watcher? s).map (.withState state) := by
  cases watcher? with
  | none => rfl
  | some watch =>
    have ignored := passive watch rfl state s
    simp only [leave]
    cases settings.watching (some watch) with
    | error f => rfl
    | ok period =>
      change (if period.hits s.count = true then _ else _) = _
      split
      · next hit =>
        simp only [ignored, hit, bind, Except.bind, if_true]
        cases watch s <;> rfl
      · next missed => simp only [missed, bind, Except.bind]; rfl

variable [Space α V] {momentum other : Momentum α σ} {state : σ}
  (gradient project : V → Except Fault V) (largest : α)

/-- No stage of a run looks at what is remembered, if neither its tests nor its watcher do. -/
theorem ignores_of_mem_stages {tests : List (Test (Iteration V σ))}
    (ignored : ∀ test ∈ tests, IgnoresState test) {settings : Settings α}
    {watcher? : Option (Watcher V σ)}
    (left : ∀ s, settings.leave watcher? (s.withState state) =
      (settings.leave watcher? s).map (.withState state)) (limit? : Option Nat)
    (isDisplayed : Bool) :
    ∀ stage ∈ stages tests limit? isDisplayed settings watcher?,
      stage.Ignores (.withState state) := by
  intro stage member
  simp only [stages, List.mem_cons, List.not_mem_nil, or_false] at member
  -- One case for each stage, from the watcher inwards to the tests.
  rcases member with rfl | rfl | rfl | rfl
  · intro s
    dsimp only
    rw [left]
    cases settings.leave watcher? s <;> rfl
  · exact fun _ => rfl
  · trivial
  · intro test member s
    obtain ⟨test, own, rfl⟩ := List.mem_map.mp member
    simp only [left]
    cases settings.leave watcher? s with
    | error f => rfl
    | ok s => exact ignored test own state s

/-- The runs under the two have the same outcome, and fail in the same way if they do. -/
theorem minimize_withState (same : momentum.Matches other state) (start : V)
    {tests : List (Test (Iteration V σ))} (ignored : ∀ test ∈ tests, IgnoresState test)
    (settings : Settings α) {watcher? : Option (Watcher V σ)}
    (passive : ∀ watch, watcher? = some watch → watch.IgnoresState) :
    ({ gradient, project, momentum, largest } : Method α V σ).minimize start tests settings
        watcher? =
      (({ gradient, project, momentum := other, largest } : Method α V σ).minimize start tests
        settings watcher?).map (.withState state) := by
  have left := settings.leave_withState passive state
  simp only [Method.minimize, bind, Except.bind]
  cases readLimit settings.limit with
  | error f => rfl
  | ok limit? =>
    cases settings.isDisplayed with
    | error f => rfl
    | ok isDisplayed =>
      have ran := run_image (source_withState gradient project largest same start left)
        (Trace.note_withState state) (limit?.getD 0 + 1)
        (ignores_of_mem_stages ignored left limit? isDisplayed) none {}
      -- Nothing has been tested and seen at the start, so there is nothing to change.
      have staged : (stages tests limit? isDisplayed settings watcher?).map
          (Stage.image (.withState state)) = stages tests limit? isDisplayed settings watcher? := rfl
      have empty : Trace.withState state ({} : Trace V σ) = {} := rfl
      rw [staged, empty, Option.map_none] at ran
      simp only [ran]
      generalize run (Method.source { gradient, project, momentum := other, largest } start
        (settings.leave watcher?)) Trace.note (limit?.getD 0 + 1)
        (stages tests limit? isDisplayed settings watcher?) none {} = seen
      obtain ⟨trace, fault?⟩ := seen
      cases fault? with
      | some f => rfl
      | none =>
        obtain ⟨last?, displayed, watched⟩ := trace
        cases last? with
        | none =>
          cases isDisplayed <;>
            simp [Trace.withState, Outcome.withState, pure, Except.pure, Except.map]
        | some s =>
          simp only [Trace.withState, Option.map_some, left]
          cases settings.leave watcher? s with
          | error f => rfl
          | ok s =>
            simp only [Except.map, anyM_withState ignored]
            cases (tests.anyM fun test => test s) with
            | error f => rfl
            | ok converged =>
              cases isDisplayed <;>
                simp [Outcome.withState, Iteration.withState, pure, Except.pure]

/-- The conditions that a program can name do not look at the state. -/
theorem Condition.ignoresState (c : Condition α) :
    IgnoresState (c.holds : Test (Iteration V σ)) := by
  intro state s
  cases c <;> rfl

/-- A solution with another momentum and what that one remembers. -/
def Solution.withMomentum (momentum : Momentum α σ) (state : σ) (solution : Solution α V σ) :
    Solution α V σ :=
  { solution with
    outcome := solution.outcome.withState state
    momentum }

/-- Programs that differ in their strategies have solutions that differ in nothing but the momentum and
what it remembers, and fail in the same way if they do. -/
theorem solveBy_withMomentum {kit : Kernels α} (same : momentum.Matches other state)
    {p : Program α σ} {wanted unchanged : StepStrategy α σ} {L μ : α}
    (ready : ∀ {largest smallest : Argument α}, largest.toScalar = .ok L →
      smallest.toScalar = .ok μ → wanted.forBounds largest smallest = .ok momentum ∧
        unchanged.forBounds largest smallest = .ok other)
    (bounded : ∀ {H : Mat α p.linear.size p.linear.size} {largest smallest : Argument α},
      p.hessian.matrixOfSize p.linear.size p.linear.size "H" = .ok H →
      p.bounds kit H = .ok (largest, smallest) →
      largest.toScalar = .ok L ∧ smallest.toScalar = .ok μ)
    (project : Tensor α → Except Fault (Tensor α)) {stopping : Stopping α σ}
    (ignored : ∀ test ∈ stopping.tests p.linear.size L μ, IgnoresState test)
    (passive : ∀ watch, p.watcher? = some watch → watch.IgnoresState) :
    solveBy kit { p with strategy := wanted } project stopping =
      (solveBy kit { p with strategy := unchanged } project stopping).map
        (.withMomentum momentum state) := by
  simp only [solveBy, bind, Except.bind]
  -- Both programs make the same checks in the same order before they fit their strategies, so that they
  -- fail together or get there together.
  cases conforms : p.hessian.matrixOfSize p.linear.size p.linear.size "H" with
  | error f => rfl
  | ok H =>
    cases readStart p.linear.size p.start? with
    | error f => rfl
    | ok start =>
      cases p.settings.check with
      | error f => rfl
      | ok _ =>
        have fromStrategy (strategy : StepStrategy α σ) :
            Program.bounds kit { p with strategy } H = p.bounds kit H := rfl
        simp only [fromStrategy]
        cases chosen : p.bounds kit H with
        | error f => rfl
        | ok bounds =>
          obtain ⟨largest, smallest⟩ := bounds
          obtain ⟨above, below⟩ := bounded conforms chosen
          obtain ⟨fitted, fitted'⟩ := ready above below
          simp only [fitted, fitted', above, below,
            minimize_withState _ _ _ same (.ofVec start) ignored p.settings passive]
          generalize Method.minimize (V := Tensor α) _ _ _ _ _ = ended
          cases ended <;> rfl

end

/-! ### The recurrence at its fixed point -/

section Recurrence

variable {kit : Kernels ℝ} {L μ q : ℝ}

/-- What the recurrence remembers at the start. -/
noncomputable def fixedState (L μ : ℝ) : StepState ℝ := some (√(μ / L), √(μ / L))

theorem continuous_residual (ratio squared : ℝ) : Continuous (StepRule.residual ratio squared) := by
  change Continuous fun next => (1 - next) * squared + ratio * next - next * next
  fun_prop

/-- From its fixed point the residual is `q - α²`. -/
theorem residual_self (next : ℝ) : StepRule.residual q q next = q - next * next := by
  change (1 - next) * q + q * next - next * next = q - next * next
  ring

theorem not_hasOneSign_residual (nonneg : 0 ≤ q) (atMost : q ≤ 1) :
    ¬Kernels.HasOneSign (StepRule.residual q q) 0 1 := by
  simp only [Kernels.HasOneSign, residual_self]
  rintro (⟨-, above⟩ | ⟨below, -⟩) <;> linarith

/-- The recurrence stays where it begins, and its factor there is the constant one. -/
theorem next_recurrence (finds : kit.FindsRoots) (positive : 0 < μ) (ordered : μ ≤ L) :
    (StepRule.recurrence L μ).next kit (fixedState L μ) =
      .ok (StepRule.factorFor L μ, fixedState L μ) := by
  have above : 0 < L := positive.trans_le ordered
  have ratio : 0 < μ / L := div_pos positive above
  have root : 0 < √(μ / L) := Real.sqrt_pos.mpr ratio
  have square : √(μ / L) * √(μ / L) = μ / L := Real.mul_self_sqrt ratio.le
  obtain ⟨next, found, nonneg, -, zero⟩ := (finds _ (continuous_residual (μ / L) (μ / L))).2
    (not_hasOneSign_residual ratio.le ((div_le_one above).mpr ordered))
  -- The root is the only one that is not negative.
  obtain rfl : next = √(μ / L) := by
    rw [residual_self, sub_eq_zero] at zero
    exact ((Real.sqrt_eq_iff_mul_self_eq ratio.le nonneg).mpr zero).symm
  have divided : Scalar.quotient μ L = .ok (μ / L) := Scalar.quotient_of_ne above.ne'
  have squared : Scalar.square (√(μ / L)) = .ok (μ / L) := by
    simp [Scalar.square, square]
  have sum : 0 < μ / L + √(μ / L) := by positivity
  have factor : √(μ / L) * (1 - √(μ / L)) / (μ / L + √(μ / L)) = StepRule.factorFor L μ := by
    rw [div_eq_iff sum.ne', ← momentum_factorFor above]
    nth_rewrite 3 [← square]
    ring
  simp only [StepRule.next, fixedState, divided, StepRule.advance, squared, found, bind, Except.bind,
    pure, Except.pure]
  rw [Scalar.quotient_of_ne sum.ne', factor]

/-- In place of the constant rule, the recurrence only changes what is remembered. -/
theorem matches_recurrence (finds : kit.FindsRoots) (positive : 0 < μ) (ordered : μ ≤ L) :
    ((StepRule.recurrence L μ).momentum kit).Matches
      ((StepRule.constant (StepRule.factorFor L μ)).momentum kit) (fixedState L μ) where
  initial := by
    have divided : Scalar.quotient μ L = .ok (μ / L) :=
      Scalar.quotient_of_ne (positive.trans_le ordered).ne'
    simp only [StepRule.momentum, StepRule.initialState, divided]
    rfl
  started := ⟨none, rfl⟩
  next _ := next_recurrence finds positive ordered

theorem forBounds_defaultRecurrence (positive : 0 < μ) {largest smallest : Argument ℝ}
    (above : largest.toScalar = .ok L) (below : smallest.toScalar = .ok μ) :
    StepRule.defaultRecurrence.forBounds largest smallest = .ok (.recurrence L μ) := by
  have convex : ¬μ ≤ 0 := positive.not_ge
  simp [StepRule.defaultRecurrence, StepRule.forBounds, above, below, convex, bind, Except.bind, pure,
    Except.pure]

/-- A rule that keeps its state has the same factor in every step. -/
theorem factors_of_kept {rule : StepRule ℝ} {factor : ℝ} {state : StepState ℝ}
    (kept : rule.next kit state = .ok (factor, state)) (count : Nat) :
    rule.factors kit count state = .ok (List.replicate count (factor, state)) := by
  induction count with
  | zero => rfl
  | succ count ih =>
    simp only [StepRule.factors, kept, ih, bind, Except.bind, List.replicate_succ]
    rfl

/-- Fitted to bounds `0 < μ ≤ L` and started from its own state, the recurrence never fails and has the
factor of the constant rule in every step. So the iterations of a method with either rule are the same
up to what they remember, and so are the runs with any tests and any watcher that do not look at that
and with any settings: one fails exactly as the other does, and otherwise point, number of iterations and
status agree. This holds for programs with any projection and any such conditions, in particular for
those that programs name. -/
theorem recurrence_agrees_with_constant (finds : kit.FindsRoots) (positive : 0 < μ)
    (ordered : μ ≤ L) :
    let recurring := (StepRule.recurrence L μ).momentum kit
    let constant := (StepRule.constant (StepRule.factorFor L μ)).momentum kit
    (∀ {largest smallest : Argument ℝ}, largest.toScalar = .ok L → smallest.toScalar = .ok μ →
      (StepRule.defaultRecurrence.strategy kit).forBounds largest smallest = .ok recurring ∧
      (StepRule.defaultConstant.strategy kit).forBounds largest smallest = .ok constant) ∧
    recurring.initialState = .ok (fixedState L μ) ∧
    constant.initialState = .ok none ∧
    (∀ count, (StepRule.recurrence L μ).factors kit count (fixedState L μ) =
        .ok (List.replicate count (StepRule.factorFor L μ, fixedState L μ)) ∧
      (StepRule.constant (StepRule.factorFor L μ)).factors kit count none =
        .ok (List.replicate count (StepRule.factorFor L μ, none))) ∧
    (∀ {V : Type} [Space ℝ V] (gradient project : V → Except Fault V) (largest : ℝ) (start : V),
      let recurrent : Method ℝ V (StepState ℝ) :=
        { gradient, project, momentum := recurring, largest }
      let steady : Method ℝ V (StepState ℝ) := { gradient, project, momentum := constant, largest }
      (∀ k, recurrent.nth start k = (steady.nth start k).map (.withState (fixedState L μ))) ∧
      ∀ tests, (∀ test ∈ tests, IgnoresState test) → ∀ settings (watcher? : Option (Watcher V _)),
        (∀ watch, watcher? = some watch → watch.IgnoresState) →
        recurrent.minimize start tests settings watcher? =
          (steady.minimize start tests settings watcher?).map (.withState (fixedState L μ))) ∧
    ∀ p : Program ℝ (StepState ℝ),
      (∀ {H : Mat ℝ p.linear.size p.linear.size} {largest smallest : Argument ℝ},
        p.hessian.matrixOfSize p.linear.size p.linear.size "H" = .ok H →
        p.bounds kit H = .ok (largest, smallest) →
        largest.toScalar = .ok L ∧ smallest.toScalar = .ok μ) →
      (∀ watch, p.watcher? = some watch → watch.IgnoresState) →
      (∀ (project : Tensor ℝ → Except Fault (Tensor ℝ)) (stopping : Stopping ℝ (StepState ℝ)),
        (∀ test ∈ stopping.tests p.linear.size L μ, IgnoresState test) →
        solveBy kit { p with strategy := StepRule.defaultRecurrence.strategy kit } project stopping =
          (solveBy kit { p with strategy := StepRule.defaultConstant.strategy kit } project
            stopping).map (.withMomentum recurring (fixedState L μ))) ∧
      solve kit { p with strategy := StepRule.defaultRecurrence.strategy kit } =
        (solve kit { p with strategy := StepRule.defaultConstant.strategy kit }).map
          (.withMomentum recurring (fixedState L μ)) := by
  intro recurring constant
  have same : recurring.Matches constant (fixedState L μ) := matches_recurrence finds positive ordered
  have ready {largest smallest : Argument ℝ} (above : largest.toScalar = .ok L)
      (below : smallest.toScalar = .ok μ) :
      (StepRule.defaultRecurrence.strategy kit).forBounds largest smallest = .ok recurring ∧
      (StepRule.defaultConstant.strategy kit).forBounds largest smallest = .ok constant := by
    constructor
    · simp only [StepRule.strategy, forBounds_defaultRecurrence positive above below]
      rfl
    · simp only [StepRule.strategy, StepRule.defaultConstant, StepRule.forBounds, above, below]
      rfl
  refine ⟨ready, same.initial, rfl, fun count => ⟨?_, factors_of_kept rfl count⟩, ?_, ?_⟩
  · exact factors_of_kept (next_recurrence finds positive ordered) count
  · intro V _ gradient project largest start
    exact ⟨nth_withState gradient project largest same start, fun tests ignored settings watcher? =>
      minimize_withState gradient project largest same start ignored settings⟩
  · intro p bounded passive
    refine ⟨fun project stopping ignored =>
      solveBy_withMomentum same ready bounded project ignored passive, ?_⟩
    rw [solve_eq_solveBy, solve_eq_solveBy]
    refine solveBy_withMomentum same ready bounded _ (fun test member => ?_) passive
    obtain ⟨criterion, named, rfl⟩ := List.mem_map.mp member
    obtain ⟨c, -, rfl⟩ := List.mem_map.mp named
    exact Condition.ignoresState _

/-- A program with the bounds one and four, and with the conditions of a run that asks for none. -/
noncomputable def steepProgram : Program ℝ (StepState ℝ) where
  hessian := .ofMat (Mat.ofFn fun i j : Fin 2 => if i = j then (if i.val = 0 then 1 else 4) else 0)
  linear := .ofVec #v[1, -2]
  largest := .real 4
  smallest := .real 1
  strategy := StepRule.unspecified.strategy .rootFinding
  conditions := [.standard]

theorem recurrence_agrees_with_constant_steepProgram :
    solve .rootFinding
        { steepProgram with strategy := StepRule.defaultRecurrence.strategy .rootFinding } =
      (solve .rootFinding
        { steepProgram with strategy := StepRule.defaultConstant.strategy .rootFinding }).map
        (.withMomentum ((StepRule.recurrence 4 1).momentum .rootFinding) (fixedState 4 1)) := by
  obtain ⟨-, -, -, -, -, programs⟩ := recurrence_agrees_with_constant
    (L := 4) (μ := 1) Kernels.findsRoots_rootFinding one_pos (by norm_num)
  refine (programs steepProgram (fun _ chosen => ?_) nofun).2
  cases chosen
  exact ⟨rfl, rfl⟩

end Recurrence

end RecedingHorizon.Gradient
