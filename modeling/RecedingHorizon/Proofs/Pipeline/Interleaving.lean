import Mathlib.Data.ENat.Lattice
import Mathlib.Data.Seq.Basic
import RecedingHorizon.Proofs.Pipeline.Layers

/-!
# What happens when in a pipeline

A source, finite or not, with layers around it hands out exactly the items that a consumer receives.
They are the ones up to its end, up to a limit, or up to the first one that satisfies a test of a
layer that halts, whatever comes first (`deliverable`). Observers are called while their item is on
its way, and an item is tested after it has been received, when the next one is requested. All
events of a run stand in their order in `turns` (`log_stage`); what is seen of them is gathered in
`layers_deliver_prefix`.
-/

namespace RecedingHorizon.Pipeline

open Stream'.Seq (corec)
open Layer

variable {σ τ : Type}

/-! ### How many items are delivered -/

/-- The last one of so many items of a sequence. -/
def lastTaken (items : Stream'.Seq τ) : (count : ℕ) → Option τ
  | 0 => none
  | count + 1 => items.get? count

/-- After so many items there is another one, and all layers request it. -/
def GoesOn (items : Stream'.Seq τ) (stack : List (Layer τ)) (count : ℕ) : Prop :=
  (∃ item, items.get? count = some item) ∧
    ∀ layer ∈ stack, layer.IsOpenAt count (lastTaken items count)

/-- The number of items of a sequence that a layer lets through. A layer that halts lets the first
item pass that satisfies one of its tests. -/
noncomputable def Layer.bound (items : Stream'.Seq τ) : Layer τ → ℕ∞
  | halting tests =>
    ⨅ j ∈ {j : ℕ | ∃ item ∈ items.get? j, ∃ test ∈ tests, test item = true}, ((j + 1 : ℕ) : ℕ∞)
  | limiting count? => count?.elim ⊤ fun n => (n : ℕ∞)
  | observing _ _ => ⊤

/-- The number of items that come through all layers of a stack. -/
noncomputable def deliverable (items : Stream'.Seq τ) (stack : List (Layer τ)) : ℕ∞ :=
  min items.length' (⨅ layer ∈ stack, layer.bound items)

theorem natCast_lt_iff_succ_le {n : ℕ} {m : ℕ∞} : (n : ℕ∞) < m ↔ ((n + 1 : ℕ) : ℕ∞) ≤ m := by
  rw [Nat.cast_add, Nat.cast_one, ENat.add_one_le_iff (ENat.natCast_ne_top n)]

theorem lt_bound_iff (items : Stream'.Seq τ) (layer : Layer τ) (n : ℕ) :
    (n : ℕ∞) < layer.bound items ↔ ∀ m ≤ n, layer.IsOpenAt m (lastTaken items m) := by
  cases layer with
  | halting tests =>
    simp only [natCast_lt_iff_succ_le, bound, le_iInf_iff, Nat.cast_le, Set.mem_ofPred_eq, IsOpenAt]
    -- An item that satisfies a test closes the layer at the request that comes after it.
    constructor
    · intro after m le item last test member
      cases m with
      | zero => cases last
      | succ j =>
        refine Bool.eq_false_iff.mpr fun held => ?_
        have := after j ⟨item, last, test, member, held⟩
        omega
    · rintro quiet j ⟨item, found, test, member, held⟩
      by_contra early
      have fails := quiet (j + 1) (by omega) item found test member
      rw [held] at fails
      cases fails
  | limiting count? =>
    cases count? with
    | none => simp [bound, IsOpenAt]
    | some limit =>
      simp only [bound, Option.elim_some, Nat.cast_lt, IsOpenAt, Option.mem_some_iff, forall_eq']
      exact ⟨fun below m le => le.trans_lt below, fun below => below n le_rfl⟩
  | observing length atLeastOne => simp [bound, IsOpenAt]

theorem lt_deliverable_iff (items : Stream'.Seq τ) (stack : List (Layer τ)) (n : ℕ) :
    (n : ℕ∞) < deliverable items stack ↔ ∀ m ≤ n, GoesOn items stack m := by
  have through : (n : ℕ∞) < ⨅ layer ∈ stack, layer.bound items ↔
      ∀ layer ∈ stack, ∀ m ≤ n, layer.IsOpenAt m (lastTaken items m) := by
    simp only [natCast_lt_iff_succ_le, le_iInf_iff]
    simp only [← natCast_lt_iff_succ_le, lt_bound_iff]
  rw [deliverable, lt_min_iff, through, Stream'.Seq.lt_length'_iff]
  constructor
  · rintro ⟨⟨item, found⟩, opened⟩ m le
    exact ⟨items.ge_stable le found, fun layer member => opened layer member m le⟩
  · intro goesOn
    exact ⟨(goesOn n le_rfl).1, fun layer member m le => (goesOn m le).2 layer member⟩

/-! ### All events of a run -/

/-- What happens from the moment the source hands out the item at a position: the item is looked at
on its way, it is received, and if more is requested, it is tested. -/
def turn (stack : List (Layer τ)) (requests position : ℕ) (item : τ) : List (Event τ) :=
  [.pulled item] ++ calls position item stack.reverse ++ [.received item] ++
    if position < requests then questions position (some item) stack.reverse else []

/-- What happens from the moment the source hands out the first of some items. -/
def turns (stack : List (Layer τ)) (requests first : ℕ) (taken : List τ) : List (Event τ) :=
  (taken.zipIdx first).flatMap fun (item, position) => turn stack requests position item

theorem turns_cons (stack : List (Layer τ)) (requests first : ℕ) (item : τ) (later : List τ) :
    turns stack requests first (item :: later) =
      turn stack requests first item ++ turns stack requests (first + 1) later := by
  rw [turns, List.zipIdx_cons, List.flatMap_cons, turns]

theorem exists_of_get?_corec {next : σ → Option (τ × σ)} {s : σ} {item : τ}
    (found : (corec next s).get? 0 = some item) : ∃ s', next s = some (item, s') := by
  cases handed : next s with
  | none =>
    rw [Stream'.Seq.corec_nil next s handed] at found
    cases found
  | some answer =>
    obtain ⟨other, s'⟩ := answer
    rw [Stream'.Seq.corec_cons handed, Stream'.Seq.get?_cons_zero] at found
    cases found
    exact ⟨s', rfl⟩

/-- A run from the moment on when so many items have been delivered. -/
theorem log_stageAt (next : σ → Option (τ × σ)) (items : Stream'.Seq τ) (stack : List (Layer τ))
    (requests delivered : ℕ) (s : σ)
    (rest : ∀ j, (corec next s).get? j = items.get? (delivered + j)) :
    ∃ count ≤ requests, (∀ j < count, GoesOn items stack (delivered + j)) ∧
      (count < requests → ¬GoesOn items stack (delivered + count)) ∧
      log (steady next) requests
          (stack.reverse.map (stageAt delivered (lastTaken items delivered))) s =
        { noted := (if 0 < requests then
              questions delivered (lastTaken items delivered) stack.reverse else []) ++
            turns stack (delivered + requests) (delivered + 1) ((corec next s).take count) } := by
  induction requests generalizing delivered s with
  | zero => exact ⟨0, le_rfl, by simp, by simp, by simp [log, run, turns]⟩
  | succ requests ih =>
    by_cases goesOn : GoesOn items stack delivered
    · obtain ⟨⟨item, found⟩, opened⟩ := id goesOn
      obtain ⟨s', handed⟩ := exists_of_get?_corec ((rest 0).trans found)
      have unfolded : corec next s = .cons item (corec next s') := Stream'.Seq.corec_cons handed
      -- The rest of the run begins one item later, with the tests of this one.
      obtain ⟨count, le, goes, stops, logged⟩ := ih (delivered + 1) s' fun j => by
        have moved := rest (j + 1)
        rw [unfolded, Stream'.Seq.get?_cons_succ] at moved
        rw [moved, Nat.add_right_comm, Nat.add_assoc]
      have last : lastTaken items (delivered + 1) = some item := found
      have pulled := pull_of_delivered handed stack.reverse fun layer member =>
        opened layer (List.mem_reverse.mp member)
      refine ⟨count + 1, Nat.succ_le_succ le, fun j before => ?_, fun more => ?_, ?_⟩
      · cases j with
        | zero => exact goesOn
        | succ j =>
          rw [Nat.add_succ, ← Nat.succ_add]
          exact goes j (by omega)
      · rw [Nat.add_succ, ← Nat.succ_add]
        exact stops (by omega)
      · have together : delivered + 1 + requests = delivered + (requests + 1) := by omega
        rw [together, last] at logged
        rw [log_succ (congrArg Reported.outcome pulled), pulled, logged, unfolded,
          Stream'.Seq.take_succ_cons, turns_cons, turn]
        simp
    · have stopped (opened : ∀ layer ∈ stack.reverse,
          layer.IsOpenAt delivered (lastTaken items delivered)) : next s = none := by
        cases handed : next s with
        | none => rfl
        | some answer =>
          have found : items.get? delivered = some answer.1 := by
            rw [← Nat.add_zero delivered, ← rest 0, Stream'.Seq.corec_cons handed,
              Stream'.Seq.get?_cons_zero]
          exact absurd ⟨⟨answer.1, found⟩, fun layer member =>
            opened layer (List.mem_reverse.mpr member)⟩ goesOn
      have pulled := pull_of_stopped stopped
      refine ⟨0, Nat.zero_le _, by simp, fun _ => goesOn, ?_⟩
      rw [log_of_outcome_none (congrArg Reported.outcome pulled), pulled]
      simp [turns]

theorem log_stage (next : σ → Option (τ × σ)) (start : σ) (stack : List (Layer τ)) (requests : ℕ) :
    ∃ count : ℕ,
      (count : ℕ∞) = min (deliverable (corec next start) stack) requests ∧
      log (steady next) requests (stack.map stage).reverse start =
        { noted := turns stack requests 1 ((corec next start).take count) } := by
  obtain ⟨count, le, goes, stops, logged⟩ :=
    log_stageAt next (corec next start) stack requests 0 start fun j => by rw [Nat.zero_add]
  simp only [Nat.zero_add] at goes stops
  -- The items up to the last one go on, and the next one does not if there is a request left for it.
  refine ⟨count, le_antisymm (le_min ?_ (Nat.cast_le.mpr le)) ?_, ?_⟩
  · cases count with
    | zero => simp
    | succ last =>
      rw [← natCast_lt_iff_succ_le, lt_deliverable_iff]
      exact fun m le => goes m (Nat.lt_succ_of_le le)
  · rcases le.eq_or_lt with rfl | fewer
    · exact min_le_right _ _
    · refine min_le_of_left_le (not_lt.mp fun further => stops fewer ?_)
      exact (lt_deliverable_iff _ _ _).mp further count le_rfl
  · have initial : stageAt 0 (lastTaken (corec next start) 0) = stage (τ := τ) :=
      funext stageAt_zero
    rw [initial, List.map_reverse, Nat.zero_add, Nat.zero_add] at logged
    rw [logged, lastTaken, questions_none, ite_self, List.nil_append]

/-! ### What is seen of a run -/

section

variable (item : τ) (later : List (Event τ))

@[simp] theorem handedOut_nil : handedOut ([] : List (Event τ)) = [] := rfl

@[simp] theorem received_nil : received ([] : List (Event τ)) = [] := rfl

@[simp] theorem handedOut_pulled : handedOut (.pulled item :: later) = item :: handedOut later :=
  rfl

@[simp] theorem received_pulled : received (.pulled item :: later) = received later := rfl

@[simp] theorem handedOut_received : handedOut (.received item :: later) = handedOut later := rfl

@[simp] theorem received_received : received (.received item :: later) = item :: received later :=
  rfl

end

section

variable (stack : List (Layer τ)) (requests position first : ℕ) (item : τ) (taken : List τ)

theorem received_turn : received (turn stack requests position item) = [item] := by
  rw [turn, received_append, received_append, received_append, received_calls]
  split
  · rw [received_questions]
    rfl
  · rfl

theorem handedOut_turn : handedOut (turn stack requests position item) = [item] := by
  rw [turn, handedOut_append, handedOut_append, handedOut_append, handedOut_calls]
  split
  · rw [handedOut_questions]
    rfl
  · rfl

theorem observed_turn (i : ℕ) :
    observed i (turn stack requests position item) =
      if IsCalled stack i position then [item] else [] := by
  rw [turn, observed_append, observed_append, observed_append, observed_calls, List.reverse_reverse]
  split
  all_goals
    split
    · rw [observed_questions]
      rfl
    · rfl

theorem testedBy_turn (i k : ℕ) :
    testedBy i k (turn stack requests position item) =
      if position < requests ∧ IsTested stack position item i k then [item] else [] := by
  have pulled : testedBy i k [.pulled item] = [] := rfl
  have got : testedBy i k [.received item] = [] := rfl
  rw [turn, testedBy_append, testedBy_append, testedBy_append, testedBy_calls, pulled, got]
  by_cases more : position < requests
  · simp [more, testedBy_questions]
  · simp [more, testedBy]

theorem received_turns : received (turns stack requests first taken) = taken := by
  induction taken generalizing first with
  | nil => rfl
  | cons item later ih =>
    rw [turns_cons, received_append, received_turn, ih, List.singleton_append]

theorem handedOut_turns : handedOut (turns stack requests first taken) = taken := by
  induction taken generalizing first with
  | nil => rfl
  | cons item later ih =>
    rw [turns_cons, handedOut_append, handedOut_turn, ih, List.singleton_append]

theorem observed_turns (i : ℕ) :
    observed i (turns stack requests first taken) =
      ((taken.zipIdx first).filter fun (_, position) =>
        IsCalled stack i position).map Prod.fst := by
  induction taken generalizing first with
  | nil => rfl
  | cons item later ih =>
    rw [turns_cons, observed_append, observed_turn, ih, List.zipIdx_cons]
    by_cases called : IsCalled stack i first <;> simp [called]

theorem testedBy_turns (i k : ℕ) :
    testedBy i k (turns stack requests first taken) =
      ((taken.zipIdx first).filter fun (item, position) =>
        position < requests ∧ IsTested stack position item i k).map Prod.fst := by
  induction taken generalizing first with
  | nil => rfl
  | cons item later ih =>
    rw [turns_cons, testedBy_append, testedBy_turn, ih, List.zipIdx_cons]
    by_cases tested : first < requests ∧ IsTested stack first item i k <;> simp [tested]

end

/-! ### When it happens -/

/-- The moment after some events is right for an event. The source hands out an item when the ones
before it have been received; the observers are called for an item that is on its way, at the
positions that they wait for; an item is tested when it is the last one that has been received and
nothing is on its way. -/
def IsTimely (stack : List (Layer τ)) (before : List (Event τ)) : Event τ → Prop
  | .pulled _ => handedOut before = received before
  | .called i item =>
    handedOut before = received before ++ [item] ∧ IsCalled stack i (handedOut before).length
  | .received item => handedOut before = received before ++ [item]
  | .tested _ _ item =>
    handedOut before = received before ∧ (received before).getLast? = some item

/-- Every event comes at the right moment. -/
def Timely (stack : List (Layer τ)) : (before events : List (Event τ)) → Prop
  | _, [] => True
  | before, e :: later => IsTimely stack before e ∧ Timely stack (before ++ [e]) later

section

variable {stack : List (Layer τ)} {before events later : List (Event τ)}

theorem timely_append :
    Timely stack before (events ++ later) ↔
      Timely stack before events ∧ Timely stack (before ++ events) later := by
  induction events generalizing before with
  | nil => simp [Timely]
  | cons e rest ih =>
    rw [List.cons_append, Timely, Timely, ih, and_assoc, List.append_assoc, List.singleton_append]

theorem Timely.isTimely (timely : Timely stack before events) {earlier : List (Event τ)}
    {e : Event τ} (here : earlier ++ [e] <+: events) : IsTimely stack (before ++ earlier) e := by
  obtain ⟨rest, rfl⟩ := here
  rw [List.append_assoc, timely_append] at timely
  exact timely.2.1

theorem isTimely_congr {before' : List (Event τ)} (sameOut : handedOut before = handedOut before')
    (sameIn : received before = received before') (e : Event τ) :
    IsTimely stack before e ↔ IsTimely stack before' e := by
  cases e <;> simp only [IsTimely, sameOut, sameIn]

/-- Where nothing is handed out or received, it is enough that every event could come first. -/
theorem timely_of_still (still : handedOut events = []) (quiet : received events = [])
    (first : ∀ e ∈ events, IsTimely stack before e) : Timely stack before events := by
  induction events generalizing before with
  | nil => trivial
  | cons e rest ih =>
    rw [← List.singleton_append, handedOut_append, List.append_eq_nil_iff] at still
    rw [← List.singleton_append, received_append, List.append_eq_nil_iff] at quiet
    have sameOut : handedOut (before ++ [e]) = handedOut before := by
      rw [handedOut_append, still.1, List.append_nil]
    have sameIn : received (before ++ [e]) = received before := by
      rw [received_append, quiet.1, List.append_nil]
    exact ⟨first e List.mem_cons_self, ih still.2 quiet.2 fun other member =>
      (isTimely_congr sameOut sameIn other).mpr (first other (List.mem_cons_of_mem e member))⟩

theorem timely_turn (settled : handedOut before = received before) (requests : ℕ) (item : τ) :
    Timely stack before (turn stack requests ((received before).length + 1) item) := by
  rw [turn, timely_append, timely_append, timely_append]
  -- The item is handed out, is looked at on its way, is received, and may be tested.
  refine ⟨⟨⟨⟨settled, trivial⟩, ?_⟩, ?_, trivial⟩, ?_⟩
  · refine timely_of_still (handedOut_calls _ _ _) (received_calls _ _ _) fun e member => ?_
    obtain ⟨i, called, rfl⟩ := mem_calls member
    rw [List.reverse_reverse] at called
    simpa [IsTimely, handedOut_append, received_append, settled] using called
  · simp [IsTimely, handedOut_append, received_append, settled, handedOut_calls, received_calls]
  · split
    · refine timely_of_still (handedOut_questions _ _ _) (received_questions _ _ _)
        fun e member => ?_
      obtain ⟨_, ⟨⟩, i, k, rfl⟩ := mem_questions member
      simp [IsTimely, handedOut_append, received_append, settled, handedOut_calls, received_calls]
    · trivial

theorem timely_turns (settled : handedOut before = received before) (requests : ℕ)
    (taken : List τ) :
    Timely stack before (turns stack requests ((received before).length + 1) taken) := by
  induction taken generalizing before with
  | nil => trivial
  | cons item later ih =>
    rw [turns_cons, timely_append]
    refine ⟨timely_turn settled requests item, ?_⟩
    have next := @ih (before ++ turn stack requests ((received before).length + 1) item) (by
      rw [handedOut_append, received_append, handedOut_turn, received_turn, settled])
    rwa [received_append, received_turn, List.length_append, List.length_singleton] at next

end

/-! ### The whole run -/

/-- A consumer that keeps nothing but the last item and the number of items. -/
def lastAndCount (kept : Option τ × ℕ) : Event τ → Option τ × ℕ
  | .received item => (some item, kept.2 + 1)
  | _ => kept

theorem foldl_lastAndCount (events : List (Event τ)) (kept : Option τ × ℕ) :
    events.foldl lastAndCount kept =
      ((received events).getLast?.or kept.1, kept.2 + (received events).length) := by
  induction events generalizing kept with
  | nil => rfl
  | cons e rest ih =>
    rw [List.foldl_cons, ih]
    cases e with
    | received item =>
      simp [lastAndCount, List.getLast?_cons, Nat.add_assoc, Nat.add_comm]
    | _ => rfl

/-- The requests after the last one that brings an item do not matter. -/
theorem turns_of_le (stack : List (Layer τ)) {requests first : ℕ} {taken : List τ}
    (enough : first + taken.length ≤ requests) (more : ℕ) :
    turns stack (requests + more) first taken = turns stack requests first taken := by
  induction taken generalizing first with
  | nil => rfl
  | cons item later ih =>
    rw [List.length_cons] at enough
    have now : first < requests := by omega
    rw [turns_cons, turns_cons, ih (by omega), turn, turn, if_pos now, if_pos (by omega)]

theorem length_take_of_le {items : Stream'.Seq τ} {count : ℕ} (le : (count : ℕ∞) ≤ items.length') :
    (items.take count).length = count :=
  Stream'.Seq.length_take_of_le_length fun ends => by
    rwa [Stream'.Seq.length'_of_terminates ends, Nat.cast_le] at le

theorem run_lastAndCount (source : Source σ τ) (requests : ℕ) (stages : List (Stage τ)) (s : σ) :
    run source lastAndCount requests stages s (none, 0) =
      { noted := ((received (log source requests stages s).noted).getLast?,
          (received (log source requests stages s).noted).length)
        fault? := (log source requests stages s).fault? } := by
  have noted := noted_eq_foldl source lastAndCount requests stages s (none, 0)
  have fault := fault?_run source lastAndCount requests stages s (none, 0)
  rw [foldl_lastAndCount, Option.or_none, Nat.zero_add] at noted
  rw [← noted, ← fault]

/-- What is seen of a run that delivers so many items. -/
structure Unfolds (items : Stream'.Seq τ) (stack : List (Layer τ)) (requests count : ℕ)
    (events : List (Event τ)) : Prop where
  received : received events = items.take count
  handedOut : handedOut events = items.take count
  /-- Observers are called for the items at certain positions, in their order. -/
  observed : ∀ i, observed i events =
    (((items.take count).zipIdx 1).filter fun (_, position) =>
      IsCalled stack i position).map Prod.fst
  /-- Items are tested if another one is requested after them, and the request comes as far as to
  the test. -/
  tested : ∀ i k, testedBy i k events =
    (((items.take count).zipIdx 1).filter fun (item, position) =>
      position < requests ∧ IsTested stack position item i k).map Prod.fst
  timely : ∀ before e, before ++ [e] <+: events → IsTimely stack before e

/-- Any layers around any source, and a consumer that makes a number of requests: it receives a
prefix of the source, which is what comes through all layers unless the requests end before. If they
do not, the run is over, and further requests change nothing. -/
theorem layers_deliver_prefix (next : σ → Option (τ × σ)) (start : σ) (stack : List (Layer τ))
    (requests : ℕ) :
    ∃ count : ℕ,
      (count : ℕ∞) = min (deliverable (corec next start) stack) requests ∧
      ((corec next start).take count).length = count ∧
      (log (steady next) requests (stack.map stage).reverse start).fault? = none ∧
      Unfolds (corec next start) stack requests count
        (log (steady next) requests (stack.map stage).reverse start).noted ∧
      run (steady next) lastAndCount requests (stack.map stage).reverse start (none, 0) =
        { noted := (((corec next start).take count).getLast?, count) } ∧
      (count < requests → ∀ more,
        log (steady next) (requests + more) (stack.map stage).reverse start =
          log (steady next) requests (stack.map stage).reverse start) := by
  obtain ⟨count, counted, logged⟩ := log_stage next start stack requests
  have full : ((corec next start).take count).length = count :=
    length_take_of_le (counted.le.trans ((min_le_left _ _).trans (min_le_left _ _)))
  refine ⟨count, counted, full, by rw [logged], ?_, ?_, fun ended more => ?_⟩
  · have timely : Timely stack [] (turns stack requests 1 ((corec next start).take count)) :=
      timely_turns rfl requests _
    rw [logged]
    exact {
      received := received_turns stack requests 1 _
      handedOut := handedOut_turns stack requests 1 _
      observed := observed_turns stack requests 1 _
      tested := testedBy_turns stack requests 1 _
      timely := fun before e here => timely.isTimely here }
  · rw [run_lastAndCount, logged, received_turns, full]
  · obtain ⟨count', counted', logged'⟩ := log_stage next start stack (requests + more)
    -- It was not for want of requests that the run ended, so it delivered all there is.
    have all : deliverable (corec next start) stack = count := by
      rcases min_choice (deliverable (corec next start) stack) requests with least | least
      · exact least.symm.trans counted.symm
      · exact absurd (Nat.cast_injective (counted.trans least)) ended.ne
    have same : count' = count := by
      rw [all, min_eq_left (Nat.cast_le.mpr (by omega))] at counted'
      exact Nat.cast_injective counted'
    rw [logged, logged', same, turns_of_le stack (by omega)]

/-- Two layers around the numbers from one on: the inner one looks at every second number, the outer
one halts above two. -/
example :
    (log (steady fun n : ℕ => some (n, n + 1)) 5
      ([observing 2 (by norm_num), halting [(2 < ·)]].map stage).reverse 1).noted =
      [.pulled 1, .received 1, .tested 1 0 1, .pulled 2, .called 0 2, .received 2, .tested 1 0 2,
        .pulled 3, .received 3, .tested 1 0 3] := by
  decide

end RecedingHorizon.Pipeline
