import RecedingHorizon.Proofs.Pipeline.Run

/-!
# What a pipeline delivers

While every stage requests the next item, a request hands it on, and each stage remembers that it has
passed (`pull_of_open`). Once a stage turns a request down, nothing moves any more
(`pull_of_refused`). So the items up to the first refusal are the ones that the consumer receives, the
source hands out no others, and an observer sees those at which its stage calls it
(`log_of_refused`).
-/

namespace RecedingHorizon.Pipeline

variable {σ τ κ α β : Type}

theorem handedOut_append (events later : List (Event τ)) :
    handedOut (events ++ later) = handedOut events ++ handedOut later :=
  List.filterMap_append

theorem observed_append (stage : Nat) (events later : List (Event τ)) :
    observed stage (events ++ later) = observed stage events ++ observed stage later :=
  List.filterMap_append

theorem received_append (events later : List (Event τ)) :
    received (events ++ later) = received events ++ received later :=
  List.filterMap_append

/-- Nothing is received in a quiet computation. -/
theorem Reported.Quiet.received_eq {r : Reported τ α} (quiet : r.Quiet) : received r.events = [] := by
  rw [received, List.filterMap_eq_nil_iff]
  intro e member
  cases e with
  | received item => exact absurd member (quiet item)
  | _ => rfl

/-- A computation that goes on after one that succeeds. -/
theorem Reported.bind_of_outcome {first : Reported τ α} {a : α} (ended : first.outcome = .ok a)
    (next : α → Reported τ β) :
    (first >>= next) = ⟨first.events ++ (next a).events, (next a).outcome⟩ := by
  obtain ⟨events, outcome⟩ := first
  subst ended
  rfl

/-! ### One stage -/

/-- Items are tested, but none is handed out, and no observer is called. -/
def Reported.Still (r : Reported τ α) : Prop :=
  handedOut r.events = [] ∧ ∀ stage, observed stage r.events = []

theorem Reported.still_silent (outcome : Except Fault α) : (silent outcome : Reported τ α).Still :=
  ⟨rfl, fun _ => rfl⟩

theorem Reported.still_bind {first : Reported τ α} {next : α → Reported τ β} (still : first.Still)
    (later : ∀ a, (next a).Still) : (first >>= next).Still := by
  obtain ⟨events, outcome⟩ := first
  cases outcome with
  | error f => exact still
  | ok a =>
    constructor
    · rw [bind_ok, handedOut_append, still.1, (later a).1]
      rfl
    · intro stage
      rw [bind_ok, observed_append, still.2 stage, (later a).2 stage]
      rfl

namespace Stage

/-- What the stage remembers once an item has passed. -/
def next (item : τ) : Stage τ → Stage τ
  | halting tests _ => halting tests (some item)
  | limiting left? => limiting (left?.map (· - 1))
  | observing period observe count => observing period observe (count + 1)

/-- Whether the observer is called for the item that passes next. -/
def calls : Stage τ → Bool
  | observing (.ok period) _ count => period.hits (count + 1)
  | _ => false

/-- The stage requests another item. -/
def IsOpen (s : Stage τ) : Prop := ∀ i, (s.requests i).outcome = .ok true

/-- The stage turns requests down. -/
def IsClosed (s : Stage τ) : Prop := ∀ i, (s.requests i).outcome = .ok false

/-- Nothing fails when an item passes. -/
def Admits (item : τ) (s : Stage τ) : Prop := ∀ i, (s.pass i item).outcome = .ok (s.next item)

theorem outcome_anyHolds (stage : Nat) (item : τ) (tests : List (Test τ)) (k : Nat) :
    (anyHolds stage item k tests).outcome = tests.anyM (fun test => test item) := by
  induction tests generalizing k with
  | nil => rfl
  | cons test rest ih =>
    simp only [anyHolds, Reported.report, Reported.silent, Reported.bind_ok, List.anyM_cons]
    cases test item with
    | error f => rfl
    | ok held =>
      cases held with
      | true => rfl
      | false => exact ih (k + 1)

theorem still_anyHolds (stage : Nat) (item : τ) (tests : List (Test τ)) (k : Nat) :
    (anyHolds stage item k tests).Still := by
  induction tests generalizing k with
  | nil => exact Reported.still_silent _
  | cons test rest ih =>
    refine Reported.still_bind ⟨rfl, fun _ => rfl⟩ fun _ =>
      Reported.still_bind (Reported.still_silent _) fun held => ?_
    cases held with
    | true => exact Reported.still_silent _
    | false => exact ih (k + 1)

theorem still_requests (i : Nat) (s : Stage τ) : (s.requests i).Still := by
  cases s with
  | halting tests last? =>
    cases last? with
    | none => exact Reported.still_silent _
    | some item =>
      exact Reported.still_bind (still_anyHolds i item tests 0) fun _ => Reported.still_silent _
  | limiting left? => exact Reported.still_silent _
  | observing period observe count =>
    exact Reported.still_bind (Reported.still_silent _) fun _ => Reported.still_silent _

/-- The only thing that happens when an item passes is a call of the observer. -/
theorem events_pass {s : Stage τ} {item : τ} (admits : s.Admits item) (i : Nat) :
    (s.pass i item).events = if s.calls then [.called i item] else [] := by
  have passed := admits i
  cases s with
  | halting tests last? => rfl
  | limiting left? => rfl
  | observing period observe count =>
    cases period with
    | error f => cases passed
    | ok period =>
      cases hit : period.hits (count + 1) with
      | false => simp [pass, calls, hit, Reported.silent, Except.map]
      | true =>
        -- An observer that fails does not admit the item.
        cases seen : observe item with
        | error f => simp [pass, hit, seen, Reported.silent, Reported.report, Except.map] at passed
        | ok u => simp [pass, calls, hit, seen, Reported.silent, Reported.report, Except.map]

/-! ### Which stages are open -/

theorem isOpen_halting_none (tests : List (Test τ)) : (halting tests none).IsOpen := fun _ => rfl

theorem requests_halting {tests : List (Test τ)} {item : τ} {held : Bool}
    (answered : tests.anyM (fun test => test item) = .ok held) (i : Nat) :
    ((halting tests (some item)).requests i).outcome = .ok !held := by
  rw [requests, Reported.bind_of_outcome ((outcome_anyHolds i item tests 0).trans answered)]
  rfl

theorem isOpen_limiting (left : Nat) : (limiting (τ := τ) (some (left + 1))).IsOpen := fun _ => rfl

theorem isClosed_limiting : (limiting (τ := τ) (some 0)).IsClosed := fun _ => rfl

theorem isOpen_observing (period : Period) (observe : τ → Except Fault Unit) (count : Nat) :
    (observing (.ok period) observe count).IsOpen := fun _ => rfl

theorem admits_halting (tests : List (Test τ)) (last? : Option τ) (item : τ) :
    (halting tests last?).Admits item := fun _ => rfl

theorem admits_limiting (left? : Option Nat) (item : τ) : (limiting left?).Admits item :=
  fun _ => rfl

theorem admits_observing {period : Period} {observe : τ → Except Fault Unit} {count : Nat}
    {item : τ} (seen : period.hits (count + 1) = true → observe item = .ok ()) :
    (observing (.ok period) observe count).Admits item := by
  intro i
  cases hit : period.hits (count + 1) with
  | false => simp [pass, hit, next, Reported.silent, Except.map]
  | true => simp [pass, hit, seen hit, next, Reported.silent, Reported.report, Except.map]

end Stage

/-! ### One request -/

/-- Whether the observer of the stage with a number is called for the next item. -/
def callsAt : List (Stage τ) → Nat → Bool
  | [], _ => false
  | stage :: inner, i => if i = inner.length then stage.calls else callsAt inner i

/-- A stage is closed, and those outside of it are open. -/
def Refuses : List (Stage τ) → Prop
  | [] => False
  | stage :: inner => stage.IsClosed ∨ (stage.IsOpen ∧ Refuses inner)

theorem callsAt_of_length_le {stages : List (Stage τ)} {i : Nat} (outside : stages.length ≤ i) :
    callsAt stages i = false := by
  induction stages with
  | nil => rfl
  | cons stage inner ih =>
    rw [List.length_cons] at outside
    rw [callsAt, if_neg (by omega), ih (by omega)]

theorem pull_of_open {source : Source σ τ} {s s' : σ} {item : τ}
    (handed : source s = .ok (some (item, s'))) {stages : List (Stage τ)}
    (willing : ∀ stage ∈ stages, stage.IsOpen ∧ stage.Admits item) :
    (pull source stages s).outcome = .ok (some (item, stages.map (Stage.next item), s')) ∧
      handedOut (pull source stages s).events = [item] ∧
      ∀ i, observed i (pull source stages s).events = if callsAt stages i then [item] else [] := by
  induction stages with
  | nil => simp [pull, handed, Reported.silent, Reported.report, handedOut, observed, callsAt]
  | cons stage inner ih =>
    obtain ⟨opened, admits⟩ := willing stage List.mem_cons_self
    obtain ⟨outcome, out, seen⟩ := ih fun other member => willing other (List.mem_cons_of_mem _ member)
    have still := Stage.still_requests inner.length stage
    have called := Stage.events_pass admits inner.length
    -- The request goes inwards, and the item comes back outwards.
    have pulled : pull source (stage :: inner) s =
        ⟨(stage.requests inner.length).events ++ ((pull source inner s).events ++
            ((stage.pass inner.length item).events ++ [])),
          .ok (some (item, stage.next item :: inner.map (Stage.next item), s'))⟩ := by
      simp only [pull, Reported.bind_of_outcome (opened inner.length), if_true,
        Reported.bind_of_outcome outcome, List.length_map,
        Reported.bind_of_outcome (admits inner.length)]
      rfl
    rw [pulled]
    refine ⟨rfl, ?_, fun i => ?_⟩
    · rw [handedOut_append, handedOut_append, still.1, out, called]
      split <;> rfl
    · have passing : observed i (stage.pass inner.length item).events =
          if i = inner.length ∧ stage.calls = true then [item] else [] := by
        rw [called]
        split
        · next calling => by_cases own : i = inner.length <;> simp [observed, own, calling, eq_comm]
        · next silent => simp [observed, silent]
      rw [observed_append, observed_append, observed_append, still.2, seen, passing, callsAt]
      -- The stages further in have smaller numbers.
      by_cases own : i = inner.length
      · rw [callsAt_of_length_le (Nat.le_of_eq own.symm)]
        simp [own, observed]
      · simp [own, observed]

/-- A request that is turned down moves nothing. -/
theorem pull_of_refused (source : Source σ τ) (s : σ) {stages : List (Stage τ)}
    (refused : Refuses stages) :
    (pull source stages s).outcome = .ok none ∧ (pull source stages s).Still := by
  induction stages with
  | nil => exact refused.elim
  | cons stage inner ih =>
    have still := Stage.still_requests inner.length stage
    -- Either the outermost stage turns the request down, or one of the inner ones does.
    rcases refused with closed | ⟨opened, further⟩
    · rw [pull, Reported.bind_of_outcome (closed inner.length)]
      exact ⟨rfl, by simpa [Reported.Still] using still⟩
    · obtain ⟨outcome, inside⟩ := ih further
      have pulled : pull source (stage :: inner) s =
          ⟨(stage.requests inner.length).events ++ ((pull source inner s).events ++ []),
            .ok none⟩ := by
        simp only [pull, Reported.bind_of_outcome (opened inner.length), if_true,
          Reported.bind_of_outcome outcome]
        rfl
      rw [pulled]
      refine ⟨rfl, ?_, fun i => ?_⟩
      · rw [handedOut_append, handedOut_append, still.1, inside.1]
        rfl
      · rw [observed_append, observed_append, still.2, inside.2]
        rfl

/-! ### A run -/

/-- Whether a run fails does not depend on what is noted. -/
theorem fault?_run (source : Source σ τ) (note : κ → Event τ → κ) (fuel : Nat)
    (stages : List (Stage τ)) (s : σ) (noted : κ) :
    (run source note fuel stages s noted).fault? = (log source fuel stages s).fault? := by
  have same {κ' : Type} (note' : κ' → Event τ → κ') (noted' : κ') :
      (run source note fuel stages s noted).fault? =
        (run source note' fuel stages s noted').fault? := by
    induction fuel generalizing stages s noted noted' with
    | zero => rfl
    | succ fuel ih =>
      simp only [run]
      split
      · rfl
      · rfl
      · exact ih _ _ _ _
  exact same _ _

theorem log_succ {source : Source σ τ} {stages later : List (Stage τ)} {s s' : σ} {item : τ}
    (pulled : (pull source stages s).outcome = .ok (some (item, later, s'))) (fuel : Nat) :
    log source (fuel + 1) stages s =
      { noted := (pull source stages s).events ++
          .received item :: (log source fuel later s').noted
        fault? := (log source fuel later s').fault? } := by
  have faults := fault?_run source (fun earlier e => e :: earlier) fuel later s'
    (.received item :: ((pull source stages s).events.reverse ++ []))
  have events := run_append source fuel later s'
    (.received item :: ((pull source stages s).events.reverse ++ []))
  rw [log]
  simp only [run, pulled, foldl_cons, faults, events]
  simp [log]

theorem log_of_outcome_none {source : Source σ τ} {stages : List (Stage τ)} {s : σ}
    (ended : (pull source stages s).outcome = .ok none) (fuel : Nat) :
    log source (fuel + 1) stages s = { noted := (pull source stages s).events } := by
  simp only [log, run, ended, foldl_cons, List.append_nil, List.reverse_reverse]

/-- The stages after so many items of a sequence. -/
def stagesAfter (items : Nat → τ) (stages : List (Stage τ)) : (count : Nat) → List (Stage τ)
  | 0 => stages
  | count + 1 => (stagesAfter items stages count).map (Stage.next (items count))

section

variable {source : Source σ τ} {items : Nat → τ} {states : Nat → σ} {stages : List (Stage τ)}

/-- What happens from item `first` on, if the stages refuse to take more than `count` items from
there. -/
theorem log_stagesAfter (count first : Nat)
    (handed : ∀ j, first ≤ j → j < first + count →
      source (states j) = .ok (some (items j, states (j + 1))))
    (willing : ∀ j, first ≤ j → j < first + count → ∀ stage ∈ stagesAfter items stages j,
      stage.IsOpen ∧ stage.Admits (items j))
    (refused : Refuses (stagesAfter items stages (first + count))) {fuel : Nat}
    (enough : count < fuel) :
    let run := log source fuel (stagesAfter items stages first) (states first)
    run.fault? = none ∧ received run.noted = (List.range' first count).map items ∧
      handedOut run.noted = (List.range' first count).map items ∧
      ∀ i, observed i run.noted = ((List.range' first count).filter fun j =>
        callsAt (stagesAfter items stages j) i).map items := by
  obtain ⟨fuel, rfl⟩ : ∃ rest, fuel = rest + 1 := ⟨fuel - 1, by omega⟩
  -- By induction on the number of items to come, for any item to begin with: one request is answered, and
  -- the rest of the run is the run from the next item on.
  induction count generalizing first fuel with
  | zero =>
    have now : Refuses (stagesAfter items stages first) := refused
    obtain ⟨ended, still⟩ := pull_of_refused source (states first) now
    rw [log_of_outcome_none ended]
    exact ⟨rfl, (pull_quiet source _ _).received_eq, still⟩
  | succ count ih =>
    obtain ⟨outcome, out, seen⟩ := pull_of_open (handed first (Nat.le_refl _) (by omega))
      (willing first (Nat.le_refl _) (by omega))
    obtain ⟨fuel, rfl⟩ : ∃ rest, fuel = rest + 1 := ⟨fuel - 1, by omega⟩
    obtain ⟨finished, got, given, called⟩ := ih (first + 1)
      (fun j after before => handed j (by omega) (by omega))
      (fun j after before => willing j (by omega) (by omega))
      (by rwa [Nat.add_right_comm]) fuel (by omega)
    rw [log_succ outcome, List.range'_succ]
    refine ⟨finished, ?_, ?_, fun i => ?_⟩
    · rw [received_append, (pull_quiet source _ _).received_eq]
      exact congrArg (items first :: ·) got
    · rw [handedOut_append, out]
      exact congrArg (items first :: ·) given
    · have rest : observed i (.received (items first) ::
          (log source (fuel + 1) (stagesAfter items stages (first + 1)) (states (first + 1))).noted) =
          _ := called i
      change observed i (_ ++ .received (items first) ::
        (log source (fuel + 1) (stagesAfter items stages (first + 1)) (states (first + 1))).noted) = _
      rw [observed_append, seen, rest, List.filter_cons]
      split <;> rfl

/-- A run hands on the items before the first refusal, and the source hands out no others. -/
theorem log_of_refused {count fuel : Nat}
    (handed : ∀ j < count, source (states j) = .ok (some (items j, states (j + 1))))
    (willing : ∀ j < count, ∀ stage ∈ stagesAfter items stages j,
      stage.IsOpen ∧ stage.Admits (items j))
    (refused : Refuses (stagesAfter items stages count)) (enough : count < fuel) :
    let run := log source fuel stages (states 0)
    run.fault? = none ∧ received run.noted = (List.range count).map items ∧
      handedOut run.noted = (List.range count).map items ∧
      ∀ i, observed i run.noted = ((List.range count).filter fun j =>
        callsAt (stagesAfter items stages j) i).map items := by
  rw [List.range_eq_range']
  exact log_stagesAfter count 0 (fun j _ before => handed j (by omega))
    (fun j _ before => willing j (by omega)) (by rwa [Nat.zero_add]) enough

end

end RecedingHorizon.Pipeline
