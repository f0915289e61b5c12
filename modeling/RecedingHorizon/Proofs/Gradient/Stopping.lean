import Mathlib.Order.Lattice.Nat
import RecedingHorizon.Proofs.Exact.Kernels
import RecedingHorizon.Proofs.Gradient.Minimization
import RecedingHorizon.Proofs.Gradient.Objective
import RecedingHorizon.Proofs.Gradient.Solve
import RecedingHorizon.Proofs.Pipeline.Delivery
import RecedingHorizon.Proofs.Problem.Acceptance

/-!
# Where a run stops

A run stops at the first iteration that passes one of its tests, unless the limit comes first
(`stopIndex`). It evaluates no further iteration, displays and hands out the iterations at its
interval up to there, and is optimal if the last one passes, also when the limit is reached with it
(`minimize_stops`). A watcher has no influence on this as long as it does not write to what it is
handed; one that does changes the result (`solve_overwrittenProgram`).
-/

namespace RecedingHorizon.Gradient

open Pipeline

/-- The number of the iteration at which a run stops: the first one that passes, or the limit if that
is not larger. -/
noncomputable def stopIndex (limit : Nat) (passes : Nat → Prop) : Nat :=
  sInf (insert limit {k | 1 ≤ k ∧ passes k})

section

variable {limit : Nat} {passes : Nat → Prop}

theorem stopIndex_le : stopIndex limit passes ≤ limit := Nat.sInf_le (Set.mem_insert _ _)

theorem not_passes_of_lt_stopIndex {k : Nat} (positive : 1 ≤ k) (before : k < stopIndex limit passes) :
    ¬passes k := fun passed =>
  Nat.notMem_of_lt_sInf before (Set.mem_insert_of_mem _ ⟨positive, passed⟩)

theorem eq_limit_or_passes {k : Nat} (stop : stopIndex limit passes = k) :
    k = limit ∨ 1 ≤ k ∧ passes k :=
  stop ▸ Nat.sInf_mem (Set.insert_nonempty limit {k | 1 ≤ k ∧ passes k})

theorem stopIndex_eq {k : Nat} (within : k ≤ limit) (before : ∀ i, 1 ≤ i → i < k → ¬passes i)
    (reached : k = limit ∨ 1 ≤ k ∧ passes k) : stopIndex limit passes = k := by
  apply le_antisymm
  · exact Nat.sInf_le reached
  · by_contra earlier
    rw [not_le] at earlier
    rcases eq_limit_or_passes (rfl : stopIndex limit passes = _) with last | ⟨positive, passed⟩
    · omega
    · exact before _ positive earlier passed

end

/-! ### What a trace keeps -/

/-- A trace keeps the last item that is received and the items on which the observers are called. -/
theorem Trace.foldl_note {V σ : Type} (events : List (Event (Iteration V σ))) (trace : Trace V σ) :
    events.foldl Trace.note trace =
      { last? := (received events).getLast?.or trace.last?
        displayed := (observed displayStage events).reverse ++ trace.displayed
        watched := (observed watchStage events).reverse ++ trace.watched } := by
  induction events generalizing trace with
  | nil => rfl
  | cons e rest ih =>
    rw [List.foldl_cons, ih]
    -- Only what is received or observed is noted, and the two observers note in different places.
    cases e with
    | pulled s => rfl
    | tested stage test s => rfl
    | received s =>
      have later : received (.received s :: rest) = s :: received rest := rfl
      rw [later, List.getLast?_cons]
      cases (received rest).getLast? <;> rfl
    | called stage s =>
      by_cases displays : stage = displayStage
      · subst displays
        simp [Trace.note, observed, received, displayStage, watchStage]
      · by_cases watches : stage = watchStage
        · subst watches
          simp [Trace.note, observed, received, displayStage, watchStage]
        · simp [Trace.note, observed, received, displays, watches]

/-! ### Periods -/

section

variable {α V σ : Type} [Scalar α]

theorem ofArgument_whole {length : Nat} (positive : 1 ≤ length) :
    Period.ofArgument (.whole length : Argument α) = .ok (.every (length : Nat)) := by
  have above : ¬(length : Int) < 1 := by omega
  simp [Period.ofArgument, Argument.isBelow, above, bind, Except.bind, pure, Except.pure]

/-- The settings of a run with a whole limit and interval. -/
abbrev Settings.ofWhole (limit interval : Nat) : Settings α :=
  { limit := .whole limit, interval := .whole interval }

theorem watching_ofWhole (limit interval : Nat) (watcher? : Option (Watcher V σ)) :
    (Settings.ofWhole limit interval : Settings α).watching watcher? =
      .ok (watchingPeriod interval watcher?.isSome) := by
  cases watcher? with
  | none => rfl
  | some watch =>
    cases interval with
    | zero => rfl
    | succ interval => exact ofArgument_whole (Nat.succ_pos interval)

/-- A watcher that leaves the iterations it is handed as they are leaves all iterations so. -/
theorem leave_ofWhole (limit interval : Nat) {watcher? : Option (Watcher V σ)} {s : Iteration V σ}
    (unchanged : ∀ watch, watcher? = some watch → watchPeriod interval ∣ s.count →
      watch s = .ok s) :
    (Settings.ofWhole limit interval : Settings α).leave watcher? s = .ok s := by
  cases watcher? with
  | none => rfl
  | some watch =>
    simp only [Settings.leave, watching_ofWhole]
    change (if (Period.every (watchPeriod interval : Nat)).hits s.count = true then _ else _) = _
    split
    · next hit =>
      rw [unchanged watch rfl ((Period.hits_every _ _).mp hit)]
      rfl
    · rfl

theorem isDisplayed_ofWhole (limit interval : Nat) :
    (Settings.ofWhole limit interval : Settings α).isDisplayed = .ok (decide (0 < interval)) := by
  simp [Settings.isDisplayed, Argument.isAbove]

theorem check_ofWhole (limit interval : Nat) :
    (Settings.ofWhole limit interval : Settings α).check = .ok () := by
  have limited : ¬(limit : Int) < 0 := by omega
  have spaced : ¬(interval : Int) < 0 := by omega
  simp [Settings.check, Argument.isBelow, limited, spaced, bind, Except.bind, pure, Except.pure]

end

theorem readLimit_whole {α : Type} {limit : Nat} (countable : limit ≤ largestLimit) :
    readLimit (.whole limit : Argument α) = .ok (some limit) := by
  simp [readLimit, countable]

theorem readLimit_too_large {α : Type} {limit : Nat} (beyond : largestLimit < limit) :
    readLimit (.whole limit : Argument α) = .error .limitOutOfRange := by
  simp [readLimit, beyond]

/-! ### The stages of a run -/

section

variable {α V σ : Type} [Scalar α] [Space α V] {method : Method α V σ} {start : V}

/-- The last of the first `count` iterations, which are numbered from one on. -/
def lastOf (s : Nat → Iteration V σ) : (count : Nat) → Option (Iteration V σ)
  | 0 => none
  | count + 1 => some (s (count + 1))

/-- The stages of a run after so many iterations. -/
def stagesAt (watching displaying : Period) (leave : Iteration V σ → Except Fault (Iteration V σ))
    (tests : List (Test (Iteration V σ))) (limit : Nat) (s : Nat → Iteration V σ) (count : Nat) :
    List (Stage (Iteration V σ)) :=
  [.observing (.ok watching) (fun s => (leave s).map fun _ => ()) count,
    .observing (.ok displaying) (fun s => (conjugateResidual s).map fun _ => ()) count,
    .limiting (some (limit - count)),
    .halting (tests.map fun holds s => leave s >>= holds) (lastOf s count)]

theorem stagesAfter_stagesAt (watching displaying : Period)
    (leave : Iteration V σ → Except Fault (Iteration V σ)) (tests : List (Test (Iteration V σ)))
    (limit : Nat) (s : Nat → Iteration V σ) (count : Nat) :
    stagesAfter (fun j => s (j + 1)) (stagesAt watching displaying leave tests limit s 0) count =
      stagesAt watching displaying leave tests limit s count := by
  induction count with
  | zero => rfl
  | succ count ih =>
    rw [stagesAfter, ih]
    rfl

omit [Scalar α] in
theorem source_lastOf {s : Nat → Iteration V σ} {k : Nat}
    {leave : Iteration V σ → Except Fault (Iteration V σ)}
    (reached : ∀ j < k, method.nth start j = .ok (s (j + 1)))
    (left : ∀ j < k, leave (s (j + 1)) = .ok (s (j + 1))) {j : Nat} (before : j < k) :
    method.source start leave (lastOf s j) = .ok (some (s (j + 1), lastOf s (j + 1))) := by
  have stepped := reached j before
  cases j with
  | zero =>
    rw [Method.nth] at stepped
    simp only [lastOf, Method.source, stepped]
    rfl
  | succ j =>
    rw [Method.nth, reached j (by omega)] at stepped
    have after : method.after (s (j + 1)) = .ok (s (j + 1 + 1)) := stepped
    simp only [lastOf, Method.source, left j (by omega), bind, Except.bind, after]
    rfl

/-- Tests that all answer tell whether one of them holds. -/
theorem anyM_of_total {τ : Type} {tests : List (Test τ)} {item : τ}
    (total : ∀ test ∈ tests, ∃ held, test item = .ok held) :
    ∃ held, tests.anyM (fun test => test item) = .ok held ∧
      (held = true ↔ ∃ test ∈ tests, test item = .ok true) := by
  induction tests with
  | nil => exact ⟨false, rfl, by simp⟩
  | cons test rest ih =>
    obtain ⟨first, answered⟩ := total test List.mem_cons_self
    obtain ⟨later, found, same⟩ := ih fun other member => total other (List.mem_cons_of_mem _ member)
    simp only [List.anyM_cons, answered, List.mem_cons, exists_eq_or_imp]
    cases first with
    | true => exact ⟨true, rfl, by simp⟩
    | false => exact ⟨later, found, by simp [same]⟩

/-- Tests of what is left of an item are tests of the item, if that is left as it is. -/
theorem anyM_left {τ : Type} {leave : τ → Except Fault τ} {item : τ} (left : leave item = .ok item)
    (tests : List (Test τ)) :
    ((tests.map fun holds s => leave s >>= holds).anyM fun test => test item) =
      tests.anyM fun test => test item := by
  induction tests with
  | nil => rfl
  | cons test rest ih =>
    have same : (leave item >>= test) = test item := by
      rw [left]
      rfl
    simp only [List.map_cons, List.anyM_cons, same, ih]

section

variable {tests : List (Test (Iteration V σ))} {limit : Nat} {s : Nat → Iteration V σ}

/-- Some test holds for iteration `k`. -/
def Passes (tests : List (Test (Iteration V σ))) (s : Nat → Iteration V σ) (k : Nat) : Prop :=
  ∃ test ∈ tests, test (s k) = .ok true

variable {watching displaying : Period} {leave : Iteration V σ → Except Fault (Iteration V σ)}

/-- Before a run stops, no stage turns a request down, and nothing fails when an iteration passes. -/
theorem isOpen_stagesAt {k : Nat} (stop : stopIndex limit (Passes tests s) = k)
    (left : ∀ j < k, leave (s (j + 1)) = .ok (s (j + 1)))
    (total : ∀ j < k, ∀ test ∈ tests, ∃ held, test (s (j + 1)) = .ok held)
    (shown : ∀ j < k, displaying.hits (j + 1) = true →
      ∃ residual, conjugateResidual (s (j + 1)) = .ok residual) {j : Nat} (before : j < k) :
    ∀ stage ∈ stagesAt watching displaying leave tests limit s j,
      stage.IsOpen ∧ stage.Admits (s (j + 1)) := by
  have within : k ≤ limit := stop ▸ stopIndex_le
  intro stage member
  simp only [stagesAt, List.mem_cons, List.not_mem_nil, or_false] at member
  -- One case for each stage, from the watcher inwards to the tests.
  rcases member with rfl | rfl | rfl | rfl
  · refine ⟨Stage.isOpen_observing _ _ _, Stage.admits_observing fun _ => ?_⟩
    rw [left j before]
    rfl
  · refine ⟨Stage.isOpen_observing _ _ _, Stage.admits_observing fun hit => ?_⟩
    obtain ⟨residual, computed⟩ := shown j before hit
    rw [computed]
    rfl
  · obtain ⟨rest, more⟩ : ∃ rest, limit - j = rest + 1 := ⟨limit - j - 1, by omega⟩
    rw [more]
    exact ⟨Stage.isOpen_limiting rest, Stage.admits_limiting _ _⟩
  · refine ⟨?_, Stage.admits_halting _ _ _⟩
    cases j with
    | zero => exact Stage.isOpen_halting_none _
    | succ j =>
      obtain ⟨held, answered, same⟩ := anyM_of_total (total j (by omega))
      have failed : held = false := by
        rw [Bool.eq_false_iff]
        intro holds
        exact not_passes_of_lt_stopIndex (Nat.succ_pos j) (stop ▸ before) (same.mp holds)
      subst failed
      exact Stage.requests_halting ((anyM_left (left j (by omega)) tests).trans answered)

/-- Where a run stops, the limit or the tests turn the next request down. -/
theorem refuses_stagesAt {k : Nat} (stop : stopIndex limit (Passes tests s) = k)
    (left : ∀ j < k, leave (s (j + 1)) = .ok (s (j + 1)))
    (total : ∀ j < k, ∀ test ∈ tests, ∃ held, test (s (j + 1)) = .ok held) :
    Refuses (stagesAt watching displaying leave tests limit s k) := by
  refine .inr ⟨Stage.isOpen_observing _ _ _, .inr ⟨Stage.isOpen_observing _ _ _, ?_⟩⟩
  rcases Nat.eq_zero_or_pos (limit - k) with exhausted | more
  · rw [exhausted]
    exact .inl Stage.isClosed_limiting
  · obtain ⟨rest, more⟩ : ∃ rest, limit - k = rest + 1 := ⟨limit - k - 1, by omega⟩
    rw [more]
    refine .inr ⟨Stage.isOpen_limiting rest, .inl ?_⟩
    -- Before the limit, a run only stops because the last iteration passes.
    rcases eq_limit_or_passes stop with last | ⟨positive, passed⟩
    · omega
    · obtain ⟨k, rfl⟩ : ∃ j, k = j + 1 := ⟨k - 1, by omega⟩
      have last := Nat.lt_succ_self k
      obtain ⟨held, answered, same⟩ := anyM_of_total (total k last)
      obtain rfl : held = true := same.mpr passed
      exact Stage.requests_halting ((anyM_left (left k last) tests).trans answered)

/-- The iterations up to where a run stops are received, no other one is evaluated, and the observers
are called at their periods. -/
theorem log_stagesAt (watching displaying : Period) {k : Nat}
    (stop : stopIndex limit (Passes tests s) = k)
    (reached : ∀ j < k, method.nth start j = .ok (s (j + 1)))
    (left : ∀ j < k, leave (s (j + 1)) = .ok (s (j + 1)))
    (total : ∀ j < k, ∀ test ∈ tests, ∃ held, test (s (j + 1)) = .ok held)
    (shown : ∀ j < k, displaying.hits (j + 1) = true →
      ∃ residual, conjugateResidual (s (j + 1)) = .ok residual) :
    let run := log (method.source start leave) (limit + 1)
      (stagesAt watching displaying leave tests limit s 0) none
    run.fault? = none ∧ received run.noted = (List.range' 1 k).map s ∧
      handedOut run.noted = (List.range' 1 k).map s ∧
      observed Trace.watchStage run.noted = ((List.range' 1 k).filter watching.hits).map s ∧
      observed Trace.displayStage run.noted =
        ((List.range' 1 k).filter displaying.hits).map s := by
  have within : k ≤ limit := stop ▸ stopIndex_le
  have opened (j : Nat) (before : j < k) :
      ∀ stage ∈ stagesAfter (fun j => s (j + 1))
          (stagesAt watching displaying leave tests limit s 0) j,
        stage.IsOpen ∧ stage.Admits (s (j + 1)) := by
    rw [stagesAfter_stagesAt]
    exact isOpen_stagesAt stop left total shown before
  have refused : Refuses
      (stagesAfter (fun j => s (j + 1)) (stagesAt watching displaying leave tests limit s 0) k) := by
    rw [stagesAfter_stagesAt]
    exact refuses_stagesAt stop left total
  obtain ⟨finished, got, given, called⟩ :=
    log_of_refused (fun j => source_lastOf reached left) opened refused (Nat.lt_succ_of_le within)
  have numbered : (List.range' 1 k).map s = (List.range k).map fun j => s (j + 1) := by
    rw [List.range'_eq_map_range, List.map_map]
    simp [Function.comp_def, Nat.add_comm]
  -- The stage with number three is the outermost one, which is the watcher's.
  have filtered (period : Period) (i : Nat)
      (own : ∀ j, callsAt (stagesAt watching displaying leave tests limit s j) i =
        period.hits (j + 1)) :
      observed i (log (method.source start leave) (limit + 1)
        (stagesAt watching displaying leave tests limit s 0) (lastOf s 0)).noted =
          ((List.range' 1 k).filter period.hits).map s := by
    rw [called i]
    simp only [stagesAfter_stagesAt, own, List.range'_eq_map_range, List.filter_map, List.map_map]
    simp [Function.comp_def, Nat.add_comm]
  exact ⟨finished, got.trans numbered.symm, given.trans numbered.symm,
    filtered watching Trace.watchStage fun _ => rfl,
    filtered displaying Trace.displayStage fun _ => rfl⟩

end

/-! ### What a run returns -/

/-- A run ends as what it has received says. -/
theorem minimize_of_log {tests : List (Test (Iteration V σ))} {settings : Settings α} {limit : Nat}
    {watcher? : Option (Watcher V σ)} {isDisplayed : Bool}
    (limited : readLimit settings.limit = .ok (some limit))
    (shown : settings.isDisplayed = .ok isDisplayed) {run : Run (List (Event (Iteration V σ)))}
    (ran : log (method.source start (settings.leave watcher?)) (limit + 1)
      (stages tests (some limit) isDisplayed settings watcher?) none = run)
    (finished : run.fault? = none) :
    method.minimize start tests settings watcher? =
      match (received run.noted).getLast? with
      | none => .ok
        { point := start, iterations := 0, status := .maxIterations
          displayed? := if isDisplayed then some (observed Trace.displayStage run.noted) else none
          watched := observed Trace.watchStage run.noted }
      | some s => do
        let s ← settings.leave watcher? s
        let converged ← tests.anyM fun test => test s
        return {
          point := s.xNext
          iterations := s.count
          status := if converged then .optimal else .maxIterations
          displayed? := if isDisplayed then some (observed Trace.displayStage run.noted) else none
          watched := observed Trace.watchStage run.noted } := by
  subst ran
  simp only [Method.minimize, limited, shown, bind, Except.bind, Option.getD_some, fault?_run,
    finished, noted_eq_foldl, Trace.foldl_note, Option.or_none, List.append_nil,
    List.reverse_reverse]
  rfl

/-- There is no run under a limit that is too large. -/
theorem minimize_eq_error {tests : List (Test (Iteration V σ))} {limit : Nat}
    (beyond : largestLimit < limit) (interval : Nat) {watcher? : Option (Watcher V σ)} :
    method.minimize start tests (.ofWhole limit interval) watcher? = .error .limitOutOfRange := by
  rw [Method.minimize, readLimit_too_large beyond]
  rfl

open Classical in
/-- The outcome of a run that stops at iteration `k`: it is optimal if that iteration passes, and the
iterations at the multiples of the period are handed to the watcher, in their order. -/
noncomputable def outcomeAt (start : V) (s : Nat → Iteration V σ)
    (tests : List (Test (Iteration V σ))) (interval : Nat) (isWatched : Bool) (k : Nat) :
    Outcome V σ where
  point := if k = 0 then start else (s k).xNext
  iterations := k
  status := if 1 ≤ k ∧ Passes tests s k then .optimal else .maxIterations
  displayed? :=
    if interval = 0 then none else some (((List.range' 1 k).filter fun i => interval ∣ i).map s)
  watched :=
    if isWatched then ((List.range' 1 k).filter fun i => watchPeriod interval ∣ i).map s else []

theorem hits_every_eq (length : Nat) : (Period.every length).hits = fun i => decide (length ∣ i) := by
  funext i
  rw [Bool.eq_iff_iff, Period.hits_every, decide_eq_true_eq]

theorem filter_hits_never (indices : List Nat) : indices.filter Period.never.hits = [] :=
  List.filter_eq_nil_iff.mpr fun _ _ hit => Bool.false_ne_true hit

/-- The period of the display, which an interval of zero leaves out. -/
def displayPeriod (interval : Nat) : Period := if 0 < interval then .every interval else .never

theorem stages_ofWhole (tests : List (Test (Iteration V σ))) (limit interval : Nat)
    (watcher? : Option (Watcher V σ)) (s : Nat → Iteration V σ) :
    stages tests (some limit) (decide (0 < interval)) (.ofWhole limit interval : Settings α)
        watcher? =
      stagesAt (watchingPeriod interval watcher?.isSome) (displayPeriod interval)
        ((Settings.ofWhole limit interval : Settings α).leave watcher?) tests limit s 0 := by
  have displayed : (if decide (0 < interval) = true then
      Period.ofArgument (.whole interval : Argument α) else .ok .never) =
        .ok (displayPeriod interval) := by
    by_cases positive : 0 < interval
    · simp [displayPeriod, positive, ofArgument_whole positive]
    · simp [displayPeriod, positive]
  simp only [stages, watching_ofWhole, displayed]
  rfl

theorem map_filter_watchingPeriod {τ : Type} (s : Nat → τ) (k interval : Nat) (isWatched : Bool) :
    ((List.range' 1 k).filter (watchingPeriod interval isWatched).hits).map s =
      if isWatched then ((List.range' 1 k).filter fun i => watchPeriod interval ∣ i).map s else [] := by
  cases isWatched with
  | false => exact congrArg (List.map s) (filter_hits_never _)
  | true => exact congrArg (fun p => ((List.range' 1 k).filter p).map s) (hits_every_eq _)

theorem map_filter_displayPeriod {τ : Type} (s : Nat → τ) (k interval : Nat) :
    (if decide (0 < interval) = true then
      some (((List.range' 1 k).filter (displayPeriod interval).hits).map s) else none) =
      if interval = 0 then none
      else some (((List.range' 1 k).filter fun i => interval ∣ i).map s) := by
  by_cases positive : 0 < interval
  · simp [displayPeriod, positive, positive.ne', hits_every_eq]
  · simp [Nat.eq_zero_of_not_pos positive]

/-- A run returns what belongs to the iteration at which it stops, and evaluates no iteration after it, if
the watcher leaves the iterations that it is handed up to there as they are. -/
theorem minimize_stops {tests : List (Test (Iteration V σ))} {limit : Nat}
    (countable : limit ≤ largestLimit) (interval : Nat) {watcher? : Option (Watcher V σ)}
    {s : Nat → Iteration V σ} {k : Nat} (stop : stopIndex limit (Passes tests s) = k)
    (reached : ∀ j < k, method.nth start j = .ok (s (j + 1)))
    (unchanged : ∀ watch, watcher? = some watch → ∀ j < k, watchPeriod interval ∣ j + 1 →
      watch (s (j + 1)) = .ok (s (j + 1)))
    (total : ∀ j < k, ∀ test ∈ tests, ∃ held, test (s (j + 1)) = .ok held)
    (shown : 0 < interval → ∀ j < k, ∃ residual, conjugateResidual (s (j + 1)) = .ok residual) :
    method.minimize start tests (.ofWhole limit interval) watcher? =
        .ok (outcomeAt start s tests interval watcher?.isSome k) ∧
      handedOut (log
        (method.source start ((Settings.ofWhole limit interval : Settings α).leave watcher?))
        (limit + 1) (stages tests (some limit) (decide (0 < interval))
          (.ofWhole limit interval : Settings α) watcher?) none).noted =
          (List.range' 1 k).map s := by
  have left (j : Nat) (before : j < k) :
      (Settings.ofWhole limit interval : Settings α).leave watcher? (s (j + 1)) =
        .ok (s (j + 1)) := by
    refine leave_ofWhole limit interval fun watch own handed => ?_
    rw [count_of_nth (reached j before)] at handed
    exact unchanged watch own j before handed
  obtain ⟨finished, got, given, watched, displayed⟩ :=
    log_stagesAt (watchingPeriod interval watcher?.isSome) (displayPeriod interval) stop reached left
      total fun j before hit => by
        by_cases positive : 0 < interval
        · exact shown positive j before
        · rw [displayPeriod, if_neg positive] at hit
          cases hit
  rw [← stages_ofWhole tests limit interval watcher?] at finished got given watched displayed
  refine ⟨?_, given⟩
  rw [minimize_of_log (readLimit_whole countable) (isDisplayed_ofWhole limit interval) rfl finished,
    got, watched, displayed, map_filter_watchingPeriod, map_filter_displayPeriod]
  -- A run that stops at once returns its start, any other one its last iteration.
  cases k with
  | zero => simp [outcomeAt]
  | succ k =>
    have last : ((List.range' 1 (k + 1)).map s).getLast? = some (s (k + 1)) := by
      simp [List.getLast?_range']
    obtain ⟨held, answered, same⟩ := anyM_of_total (total k (Nat.lt_succ_self k))
    have counted := count_of_nth (reached k (Nat.lt_succ_self k))
    simp only [last, left k (Nat.lt_succ_self k), answered, outcomeAt, counted, bind, Except.bind,
      pure, Except.pure]
    congr 2
    simp [Passes, same]

end

/-! ### Programs -/

/-- A run on arrays that fit returns what belongs to the iteration at which it stops, whatever the
projection of vectors to vectors, the strategy and the stopping conditions are; the conditions only have
to answer up to there, the iterations only have to exist up to there, and a watcher only has to leave
those that it is handed as they are. A program that names its conditions is one case. -/
theorem solveBy_stops {α σ : Type} [Scalar α] {kit : Kernels α} {p : Program α σ}
    {project : Tensor α → Except Fault (Tensor α)} {stopping : Stopping α σ} {limit interval : Nat}
    (settings : p.settings = .ofWhole limit interval) (countable : limit ≤ largestLimit)
    {H : Mat α p.linear.size p.linear.size} {start : Vec α p.linear.size}
    (conforms : p.hessian.matrixOfSize p.linear.size p.linear.size "H" = .ok H)
    (started : readStart p.linear.size p.start? = .ok start) {largest smallest : Argument α}
    (bounded : p.bounds kit H = .ok (largest, smallest)) {L μ : α}
    (above : largest.toScalar = .ok L) (below : smallest.toScalar = .ok μ) {momentum : Momentum α σ}
    (ready : p.strategy.forBounds largest smallest = .ok momentum)
    (projects : ProjectsVectors p.linear.size project)
    {s : Nat → Iteration (Tensor α) σ} {k : Nat}
    (stop : stopIndex limit (Passes (stopping.tests p.linear.size L μ) s) = k)
    (reached : ∀ j < k, Method.nth
      { gradient := gradientOf p.hessian p.linear.flatten, project, momentum, largest := L }
      (.ofVec start) j = .ok (s (j + 1)))
    (unchanged : ∀ watch, p.watcher? = some watch → ∀ j < k, watchPeriod interval ∣ j + 1 →
      watch (s (j + 1)) = .ok (s (j + 1)))
    (total : ∀ j < k, ∀ test ∈ stopping.tests p.linear.size L μ,
      ∃ held, test (s (j + 1)) = .ok held) :
    solveBy kit p project stopping = .ok
      { outcome := outcomeAt (.ofVec start) s (stopping.tests p.linear.size L μ) interval
          p.watcher?.isSome k
        size := p.linear.size, momentum, largest := L, smallest := μ } ∧
    handedOut (log (Method.source
      { gradient := gradientOf p.hessian p.linear.flatten, project, momentum, largest := L }
      (.ofVec start) (p.settings.leave p.watcher?)) (limit + 1)
        (stages (stopping.tests p.linear.size L μ) (some limit) (decide (0 < interval)) p.settings
          p.watcher?) none).noted = (List.range' 1 k).map s ∧
    ∀ q : Program α σ, solve kit q = solveBy kit q q.projection.apply q.stopping := by
  obtain ⟨b, flat⟩ := p.linear.exists_flatten_eq
  have matrix := Tensor.eq_ofMat_of_matrixOfSize conforms
  have residuals (j : Nat) (before : j < k) :
      ∃ residual, conjugateResidual (s (j + 1)) = .ok residual := by
    have stepped := reached j before
    rw [flat, matrix] at stepped
    exact exists_conjugateResidual projects stepped
  obtain ⟨returned, given⟩ :=
    minimize_stops countable interval stop reached unchanged total fun _ => residuals
  rw [← settings] at returned given
  refine ⟨?_, given, solve_eq_solveBy kit⟩
  have checked : p.settings.check = .ok () := by
    rw [settings]
    exact check_ofWhole limit interval
  rw [solveBy_eq conforms started checked bounded ready above below, returned]
  rfl

/-- A program with one variable, for three iterations at most, all of which are watched. -/
noncomputable def watchedProgram : Program ℝ (StepState ℝ) where
  hessian := .ofMat (Mat.identity 1 : Mat ℝ 1 1)
  linear := .ofVec #v[-1]
  largest := .real 1
  smallest := .real 1
  strategy := StepRule.defaultConstant.strategy .unable
  conditions := []
  settings := .ofWhole 3 0
  watcher? := some .ok

/-- A condition that holds from the second iteration on stops the run there, before the limit. -/
theorem solveBy_stops_watchedProgram :
    ∃ s : Nat → Iteration (Tensor ℝ) (StepState ℝ),
      solveBy .unable watchedProgram .ok (.single fun _ _ _ t => .ok (decide (2 ≤ t.count))) = .ok
        { outcome := {
            point := (s 2).xNext
            iterations := 2
            status := .optimal
            displayed? := none
            watched := [s 1, s 2] }
          size := 1, momentum := (StepRule.constant (StepRule.factorFor 1 1)).momentum .unable
          largest := 1, smallest := 1 } := by
  let momentum : Momentum ℝ (StepState ℝ) :=
    (StepRule.constant (StepRule.factorFor 1 1)).momentum .unable
  let method : Method ℝ (Tensor ℝ) (StepState ℝ) :=
    Method.onArrays (Mat.identity 1) #v[-1] .ok momentum 1
  have projects : ProjectsVectors 1 (Except.ok : Tensor ℝ → Except Fault (Tensor ℝ)) :=
    fun x => ⟨x, rfl⟩
  have endless (k : Nat) : ∃ t, method.nth (.ofVec (Vec.zeros 1)) k = .ok t := by
    obtain ⟨t, reached⟩ : ∃ t, (Method.onVectors (Mat.identity 1) #v[-1] (forVectors .ok) momentum
        1).nth (Vec.zeros 1) k = .ok t :=
      exists_nth_of_total projects (fun state => ⟨(_, state), rfl⟩) rfl _ k
    exact ⟨t.toArrays, Method.nth_onArrays reached⟩
  choose t reached using endless
  have counted (k : Nat) : (t k).count = k + 1 := count_of_nth (reached k)
  let s (i : Nat) : Iteration (Tensor ℝ) (StepState ℝ) := t (i - 1)
  let stopping : Stopping ℝ (StepState ℝ) := .single fun _ _ _ t => .ok (decide (2 ≤ t.count))
  have passes (i : Nat) (positive : 1 ≤ i) : Passes (stopping.tests 1 1 1) s i ↔ 2 ≤ i := by
    have number : (s i).count = i := by
      rw [counted]
      omega
    simp [Passes, Stopping.tests, Stopping.criteria, stopping, number]
  have stop : stopIndex 3 (Passes (stopping.tests 1 1 1) s) = 2 := by
    refine stopIndex_eq (by decide) (fun i positive before passed => ?_)
      (.inr ⟨by decide, (passes 2 (by decide)).mpr le_rfl⟩)
    exact absurd ((passes i positive).mp passed) (by omega)
  have total (j : Nat) (test : Test (Iteration (Tensor ℝ) (StepState ℝ)))
      (member : test ∈ stopping.tests 1 1 1) : ∃ held, test (s (j + 1)) = .ok held := by
    obtain rfl := List.mem_singleton.mp member
    exact ⟨_, rfl⟩
  obtain ⟨returned, -, -⟩ := solveBy_stops (p := watchedProgram) rfl (by decide)
    (Tensor.matrixOfSize_ofMat _ _) rfl rfl rfl rfl rfl projects stop (fun j _ => reached j)
    (fun watch own _ _ _ => by
      cases own
      rfl)
    fun j _ => total j
  refine ⟨s, returned.trans ?_⟩
  have outcome : outcomeAt (.ofVec (Vec.zeros 1)) s (stopping.tests 1 1 1) 0 true 2 =
      { point := (s 2).xNext, iterations := 2, status := .optimal, displayed? := none
        watched := [s 1, s 2] } := by
    have optimal : 1 ≤ 2 ∧ Passes (stopping.tests 1 1 1) s 2 :=
      ⟨by decide, (passes 2 (by decide)).mpr le_rfl⟩
    simp only [outcomeAt, if_pos optimal]
    rfl
  exact congrArg (fun o => Except.ok (Solution.mk o 1 momentum (1 : ℝ) (1 : ℝ))) outcome

/-- One iteration of the minimization of `½ x²` from one on, whose watcher overwrites the point that it
finds with five. -/
noncomputable def overwrittenProgram : Program ℝ (StepState ℝ) where
  hessian := .ofMat (Mat.identity 1 : Mat ℝ 1 1)
  linear := .ofVec (Vec.zeros 1)
  start? := some (.ofVec #v[1])
  largest := .real 1
  smallest := .real 1
  strategy := StepRule.defaultConstant.strategy .unable
  conditions := []
  settings := { limit := .whole 1 }
  watcher? := some fun s => .ok { s with xNext := .ofVec #v[5], trial := .ofVec #v[5] }

/-- The same minimization without a watcher, which ends after one iteration, under a limit that no machine
can count to. -/
noncomputable def countlessProgram : Program ℝ (StepState ℝ) :=
  { overwrittenProgram with
    conditions := [.iteration 1]
    settings := .ofWhole (2 ^ 63) 0
    watcher? := none }

/-- A watcher that writes to an iteration has an influence on the result: the first iteration finds the
minimizer, zero, and the run returns five. Under a limit that is too large there is no run. -/
theorem solve_overwrittenProgram :
    (∃ s solution,
      (Method.onArrays (Mat.identity 1) (Vec.zeros 1) Projection.identity.apply
        ((StepRule.constant (StepRule.factorFor 1 1)).momentum .unable) 1).nth (.ofVec #v[1]) 0 =
          .ok s ∧ s.xNext = .ofVec #v[0] ∧
      solve .unable overwrittenProgram = .ok solution ∧ solution.outcome.watched = [s] ∧
      solution.outcome.iterations = 1 ∧ solution.outcome.point = .ofVec #v[5]) ∧
    solve .unable countlessProgram = .error .limitOutOfRange := by
  let momentum : Momentum ℝ (StepState ℝ) :=
    (StepRule.constant (StepRule.factorFor 1 1)).momentum .unable
  have conforms : (Tensor.ofMat (Mat.identity 1 : Mat ℝ 1 1)).matrixOfSize 1 1 "H" =
      .ok (Mat.identity 1) := Tensor.matrixOfSize_ofMat _ _
  have started : readStart 1 (some (.ofVec (#v[1] : Vec ℝ 1))) = .ok #v[1] := by
    simp [readStart, Tensor.flatten_ofVec]
  constructor
  · let start : Vec ℝ 1 := #v[1]
    have zero : trialPoint (Mat.identity 1) (Vec.zeros 1) 1 start = #v[0] := by
      refine Vec.ext fun i => (trialPoint_identity 1 start i).trans ?_
      obtain rfl : i = 0 := Subsingleton.elim i 0
      exact show (1 : ℝ) - 1 / 1 = 0 by norm_num
    let method := Method.onVectors (Mat.identity 1) (Vec.zeros 1)
      (forVectors Projection.identity.apply) momentum 1
    obtain ⟨s, stepped, point⟩ : ∃ s, method.nth start 0 = .ok s ∧ s.xNext = #v[0] :=
      ⟨_, (Method.first_of_begun method rfl start).trans
        (Method.step_eq_ok.mpr ⟨_, _, none, forVectors_eq_ok.mpr rfl, rfl, rfl⟩), zero⟩
    have first := Method.nth_onArrays stepped
    have hit : (Period.every 1).hits s.toArrays.count = true := by
      rw [count_of_nth first]
      rfl
    -- The watcher is handed the first iteration, and leaves it with another point.
    have left : overwrittenProgram.settings.leave overwrittenProgram.watcher? s.toArrays =
        .ok { s.toArrays with xNext := .ofVec #v[5], trial := .ofVec #v[5] } := by
      change (if (Period.every 1).hits s.toArrays.count = true then _ else _) = _
      rw [if_pos hit]
      rfl
    have flat : overwrittenProgram.linear.flatten = .ofVec (Vec.zeros 1) := Tensor.flatten_ofVec _
    have solved := (solve_eq_solveBy .unable overwrittenProgram).trans
      (solveBy_eq (p := overwrittenProgram) conforms started rfl rfl rfl rfl rfl _ _)
    rw [flat] at solved
    have ended := solved.trans (congrArg (Except.map _) (minimize_eq_of_first first left))
    exact ⟨s.toArrays, _, first, congrArg Tensor.ofVec point, ended, rfl, count_of_nth first, rfl⟩
  · rw [solve_eq_solveBy,
      solveBy_eq (p := countlessProgram) conforms started (check_ofWhole _ _) rfl rfl rfl rfl]
    have beyond : largestLimit < 2 ^ 63 := by decide
    exact congrArg (Except.map _) (minimize_eq_error beyond 0)

end RecedingHorizon.Gradient
