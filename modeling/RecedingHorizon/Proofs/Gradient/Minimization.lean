import RecedingHorizon.Gradient.Minimization
import RecedingHorizon.Proofs.Pipeline.Run

/-!
# How a run ends

If nobody writes to its iterations, a run ends with one from the sequence that its start determines,
whatever is displayed on the way, and it calls that iteration optimal only if one of the conditions
holds for it (`outcome_of_minimize`). Only without a positive limit it can end where it started
(`one_le_iterations`).
-/

namespace RecedingHorizon.Gradient

/-- What is displayed and watched leaves the last iteration as it is. -/
theorem Trace.last?_note {V σ : Type} {trace : Trace V σ} {e : Pipeline.Event (Iteration V σ)}
    (other : ∀ s, e ≠ .received s) : (trace.note e).last? = trace.last? := by
  cases e with
  | received s => exact absurd rfl (other s)
  | called stage s =>
    simp only [Trace.note]
    split
    · rfl
    · split <;> rfl
  | pulled s => rfl
  | tested stage test s => rfl

variable {α V σ : Type} [Space α V] {method : Method α V σ} {start : V}

/-- The iteration that was handed out last, if there is one, belongs to the sequence. -/
def IsReached (method : Method α V σ) (start : V) (last? : Option (Iteration V σ)) :
    Prop :=
  ∀ s, last? = some s → ∃ k, method.nth start k = .ok s

theorem isReached_none : IsReached method start none := fun _ same => nomatch same

theorem isReached_source {last? next? : Option (Iteration V σ)} {s : Iteration V σ}
    (reached : IsReached method start last?)
    (handed : method.source start .ok last? = .ok (some (s, next?))) :
    next? = some s ∧ ∃ k, method.nth start k = .ok s := by
  cases last? with
  | none =>
    obtain ⟨t, stepped, same⟩ := bind_eq_ok handed
    cases same
    exact ⟨rfl, 0, stepped⟩
  | some before =>
    obtain ⟨_, left, handed⟩ := bind_eq_ok handed
    cases left
    obtain ⟨t, stepped, same⟩ := bind_eq_ok handed
    cases same
    obtain ⟨k, earlier⟩ := reached before rfl
    refine ⟨rfl, k + 1, ?_⟩
    rw [Method.nth, earlier]
    exact stepped

/-- The last iteration that a run sees belongs to the sequence. -/
theorem isReached_run (fuel : Nat) (stages : List (Pipeline.Stage (Iteration V σ))) :
    IsReached method start
      (Pipeline.run (method.source start .ok) Trace.note fuel stages none {}).noted.last? := by
  refine Pipeline.run_preserves (IsReached method start)
    (fun trace : Trace V σ => IsReached method start trace.last?) ?_ ?_
    isReached_none isReached_none
  · intro trace e other kept
    rw [Trace.last?_note other]
    exact kept
  · intro last? s next? reached handed
    obtain ⟨rfl, k, same⟩ := isReached_source reached handed
    have found : IsReached method start (some s) := fun t equal => by
      cases equal
      exact ⟨k, same⟩
    exact ⟨found, fun _ _ => found⟩

theorem exists_mem_of_anyM {τ : Type} {tests : List (Pipeline.Test τ)} {item : τ}
    (held : tests.anyM (fun test => test item) = .ok true) :
    ∃ test ∈ tests, test item = .ok true := by
  induction tests with
  | nil => cases held
  | cons test rest ih =>
    obtain ⟨first, answered, later⟩ := bind_eq_ok held
    cases first with
    | true => exact ⟨test, List.mem_cons_self, answered⟩
    | false =>
      obtain ⟨other, member, answered⟩ := ih later
      exact ⟨other, List.mem_cons_of_mem _ member, answered⟩

/-! ### The sequence -/

theorem count_of_step {count : Nat} {x y : V} {state : σ} {s : Iteration V σ}
    (stepped : method.step count x y state = .ok s) : s.count = count := by
  obtain ⟨_, -, stepped⟩ := bind_eq_ok stepped
  obtain ⟨_, -, stepped⟩ := bind_eq_ok stepped
  obtain ⟨_, -, stepped⟩ := bind_eq_ok stepped
  obtain ⟨_, -, stepped⟩ := bind_eq_ok stepped
  obtain ⟨_, -, stepped⟩ := bind_eq_ok stepped
  obtain ⟨_, -, stepped⟩ := bind_eq_ok stepped
  obtain ⟨_, -, stepped⟩ := bind_eq_ok stepped
  cases stepped
  rfl

/-- The iterations are numbered from one on. -/
theorem count_of_nth {k : Nat} {s : Iteration V σ} (reached : method.nth start k = .ok s) :
    s.count = k + 1 := by
  induction k generalizing s with
  | zero =>
    obtain ⟨_, -, stepped⟩ := bind_eq_ok reached
    exact count_of_step stepped
  | succ k ih =>
    obtain ⟨before, earlier, stepped⟩ := bind_eq_ok reached
    rw [count_of_step stepped, ih earlier]

/-- The sequence of the iterations does not end. -/
theorem source_ne_none (last? : Option (Iteration V σ)) :
    method.source start .ok last? ≠ .ok none := by
  cases last? with
  | none =>
    intro ended
    obtain ⟨_, -, ended⟩ := bind_eq_ok ended
    cases ended
  | some before =>
    intro ended
    obtain ⟨_, -, ended⟩ := bind_eq_ok ended
    obtain ⟨_, -, ended⟩ := bind_eq_ok ended
    cases ended

/-! ### Runs that nobody writes to -/

variable [Scalar α]

/-- A run that ends has neither failed nor read a wrong limit, and it ends where it started or with what is
left of the last iteration that it has seen. -/
theorem minimize_eq_ok {conditions : List (Pipeline.Test (Iteration V σ))} {settings : Settings α}
    {watcher? : Option (Watcher V σ)} {outcome : Outcome V σ}
    (returned : method.minimize start conditions settings watcher? = .ok outcome) :
    ∃ limit? isDisplayed, Pipeline.readLimit settings.limit = .ok limit? ∧
      let run := Pipeline.run (method.source start (settings.leave watcher?)) Trace.note
        (limit?.getD 0 + 1) (stages conditions limit? isDisplayed settings watcher?) none {}
      run.fault? = none ∧
        (run.noted.last? = none ∧ outcome.point = start ∧ outcome.iterations = 0 ∧
            outcome.status = .maxIterations ∨
          ∃ s t converged, run.noted.last? = some s ∧ settings.leave watcher? s = .ok t ∧
            conditions.anyM (fun holds => holds t) = .ok converged ∧ outcome.point = t.xNext ∧
            outcome.iterations = t.count ∧
            outcome.status = if converged then .optimal else .maxIterations) := by
  obtain ⟨limit?, read, returned⟩ := bind_eq_ok returned
  obtain ⟨isDisplayed, -, returned⟩ := bind_eq_ok returned
  refine ⟨limit?, isDisplayed, read, ?_⟩
  dsimp only at returned ⊢
  split at returned
  · cases returned
  · next finished =>
    refine ⟨Option.eq_none_iff_forall_ne_some.mpr finished, ?_⟩
    split at returned
    · next unseen =>
      cases returned
      exact .inl ⟨unseen, rfl, rfl, rfl⟩
    · next s last =>
      obtain ⟨t, left, returned⟩ := bind_eq_ok returned
      obtain ⟨converged, held, same⟩ := bind_eq_ok returned
      cases same
      exact .inr ⟨s, t, converged, last, left, held, rfl, rfl, rfl⟩

/-- A run ends where it started, or with an iteration of the sequence, for which a condition holds if the
end is optimal. -/
theorem outcome_of_minimize {conditions : List (Pipeline.Test (Iteration V σ))}
    {settings : Settings α} {outcome : Outcome V σ}
    (returned : method.minimize start conditions settings none = .ok outcome) :
    (outcome.point = start ∧ outcome.iterations = 0 ∧ outcome.status = .maxIterations) ∨
    ∃ k s, method.nth start k = .ok s ∧ outcome.point = s.xNext ∧
      outcome.iterations = s.count ∧
      (outcome.status = .optimal → ∃ test ∈ conditions, test s = .ok true) := by
  -- The limit and the display have no say in where the run ends.
  obtain ⟨_, _, -, -, ⟨-, unmoved⟩ | ⟨s, t, converged, last, left, held, point, counted, status⟩⟩ :=
    minimize_eq_ok returned
  · exact .inl unmoved
  · cases left
    obtain ⟨k, reached⟩ := isReached_run _ _ s last
    refine .inr ⟨k, s, reached, point, counted, fun optimal => ?_⟩
    cases converged with
    | false => cases status.symm.trans optimal
    | true => exact exists_mem_of_anyM held

/-- A run that ends optimal ends with an iteration for which a condition holds. -/
theorem exists_nth_of_optimal {conditions : List (Pipeline.Test (Iteration V σ))}
    {settings : Settings α} {outcome : Outcome V σ}
    (returned : method.minimize start conditions settings none = .ok outcome)
    (optimal : outcome.status = .optimal) :
    ∃ k s, method.nth start k = .ok s ∧ outcome.point = s.xNext ∧
      outcome.iterations = s.count ∧ ∃ test ∈ conditions, test s = .ok true := by
  rcases outcome_of_minimize returned with ⟨-, -, stopped⟩ | ⟨k, s, reached, point, counted, held⟩
  · rw [stopped] at optimal
    cases optimal
  · exact ⟨k, s, reached, point, counted, held optimal⟩

/-- With a positive limit no stage turns the first request down. -/
theorem requests_ne_false {conditions : List (Pipeline.Test (Iteration V σ))} {limit : Nat}
    (positive : 1 ≤ limit) (isDisplayed : Bool) (settings : Settings α)
    {stage : Pipeline.Stage (Iteration V σ)}
    (member : stage ∈ stages conditions (some limit) isDisplayed settings none) (i : Nat) :
    (stage.requests i).outcome ≠ .ok false := by
  intro refused
  simp only [stages, List.mem_cons, List.not_mem_nil, or_false] at member
  rcases member with rfl | rfl | rfl | rfl
  · obtain ⟨_, -, answered⟩ := Pipeline.Reported.outcome_bind_eq_ok refused
    cases answered
  · obtain ⟨_, -, answered⟩ := Pipeline.Reported.outcome_bind_eq_ok refused
    cases answered
  · have exhausted : (some limit != some 0) = false := Except.ok.inj refused
    simp only [bne_eq_false_iff_eq, Option.some.injEq] at exhausted
    omega
  · cases refused

/-- With a positive limit, a run that does not fail ends with an iteration. -/
theorem one_le_iterations {conditions : List (Pipeline.Test (Iteration V σ))}
    {settings : Settings α} {outcome : Outcome V σ} {limit : Nat}
    (limited : Pipeline.readLimit settings.limit = .ok (some limit)) (positive : 1 ≤ limit)
    (returned : method.minimize start conditions settings none = .ok outcome) :
    1 ≤ outcome.iterations := by
  obtain ⟨limit?, isDisplayed, read, finished, ends⟩ := minimize_eq_ok returned
  obtain rfl : limit? = some limit := Except.ok.inj (read.symm.trans limited)
  have first : (Pipeline.pull (method.source start .ok)
      (stages conditions (some limit) isDisplayed settings none) none).outcome ≠ .ok none :=
    Pipeline.pull_ne_none (source_ne_none none) fun _ member i =>
      requests_ne_false positive isDisplayed settings member i
  -- A run that does not fail keeps its last item, since its first request does not come back empty.
  have seen := Pipeline.kept_of_received (fun trace : Trace V σ => trace.last? ≠ none)
    (fun _ _ other kept => by rwa [Trace.last?_note other]) (fun _ s => Option.some_ne_none s) first
    finished
  obtain ⟨unseen, -⟩ | ⟨s, t, _, last, left, -, -, counted, -⟩ := ends
  · exact absurd unseen seen
  · cases left
    obtain ⟨k, reached⟩ := isReached_run _ _ s last
    rw [counted, count_of_nth reached]
    exact Nat.le_add_left 1 k

section OneIteration

open Pipeline

variable {conditions : List (Test (Iteration V σ))} {s t : Iteration V σ}
  {watcher? : Option (Watcher V σ)}

/-- What is left of the stages of a run without display when so many iterations may still be taken. -/
def remaining (period : Period) (leave : Iteration V σ → Except Fault (Iteration V σ))
    (tests : List (Test (Iteration V σ))) (count left : Nat) (last? : Option (Iteration V σ)) :
    List (Stage (Iteration V σ)) :=
  [.observing (.ok period) (fun s => (leave s).map fun _ => ()) count,
    .observing (.ok .never) (fun s => (conjugateResidual s).map fun _ => ()) count,
    .limiting (some left), .halting tests last?]

theorem pull_first {period : Period} {leave : Iteration V σ → Except Fault (Iteration V σ)}
    (stepped : method.first start = .ok s) (left : leave s = .ok t) :
    pull (method.source start leave) (remaining period leave conditions 0 1 none) none =
      ⟨.pulled s :: if period.hits 1 then [.called Trace.watchStage s] else [],
        .ok (some (s, remaining period leave conditions 1 0 (some s), some s))⟩ := by
  have handed : method.source start leave none = .ok (some (s, some s)) := by
    rw [Method.source, stepped]
    rfl
  have missed : Period.never.hits 1 = false := rfl
  cases hit : period.hits 1 <;>
    simp [remaining, pull, Stage.requests, Stage.pass, Reported.silent, Reported.report,
      Trace.watchStage, hit, missed, handed, left, Except.map]

theorem pull_exhausted {period : Period} {leave : Iteration V σ → Except Fault (Iteration V σ)}
    (last? : Option (Iteration V σ)) :
    pull (method.source start leave) (remaining period leave conditions 1 0 last?) last? =
      ⟨[], .ok none⟩ := by
  simp [remaining, pull, Stage.requests, Reported.silent]

/-- The distance of the iterations that are handed to a watcher. -/
def watchPeriod (interval : Nat) : Nat := if interval = 0 then 1 else interval

/-- The period of a watcher, if there is one. -/
def watchingPeriod (interval : Nat) (isWatched : Bool) : Period :=
  if isWatched then .every (watchPeriod interval : Nat) else .never

/-- A run that is limited to one iteration ends with what is left of the first one, which is looked at
once more. -/
theorem minimize_eq_of_first (stepped : method.first start = .ok s)
    (left : ({ limit := .whole 1 } : Settings α).leave watcher? s = .ok t) :
    method.minimize start conditions { limit := .whole 1 } watcher? = do
      let converged ← conditions.anyM fun holds => holds t
      return { point := t.xNext, iterations := t.count
               status := if converged then .optimal else .maxIterations
               displayed? := none, watched := if watcher?.isSome then [s] else [] } := by
  let settings : Settings α := { limit := .whole 1 }
  have left : settings.leave watcher? s = .ok t := left
  have silent : settings.isDisplayed = .ok false := rfl
  have watching : settings.watching watcher? = .ok (watchingPeriod 0 watcher?.isSome) := by
    cases watcher? <;> rfl
  have staged : stages conditions (some 1) false settings watcher? =
      remaining (watchingPeriod 0 watcher?.isSome) (settings.leave watcher?)
        (conditions.map fun holds s => settings.leave watcher? s >>= holds) 0 1 none := by
    simp only [stages, watching]
    rfl
  -- Two requests: one for the first iteration, and one that the limit turns down.
  have ran : run (method.source start (settings.leave watcher?)) Trace.note (1 + 1)
      (stages conditions (some 1) false settings watcher?) none {} =
        { noted := { last? := some s, watched := if watcher?.isSome then [s] else [] } } := by
    simp only [staged, run, pull_first stepped left, pull_exhausted]
    cases watcher? <;> rfl
  have read : readLimit settings.limit = .ok (some 1) := rfl
  change method.minimize start conditions settings watcher? = _
  simp only [Method.minimize, read, silent, bind, Except.bind, Option.getD_some, ran, left]
  cases watcher? <;> rfl

theorem minimize_once {converged : Bool} (stepped : method.first start = .ok s)
    (settled : conditions.anyM (fun holds => holds s) = .ok converged) :
    method.minimize start conditions { limit := .whole 1 } none =
      .ok { point := s.xNext, iterations := s.count
            status := if converged then .optimal else .maxIterations
            displayed? := none, watched := [] } := by
  rw [minimize_eq_of_first stepped rfl, settled]
  rfl

end OneIteration

end RecedingHorizon.Gradient
