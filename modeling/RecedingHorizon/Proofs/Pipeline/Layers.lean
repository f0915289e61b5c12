import Mathlib.Algebra.Order.Field.Rat
import Mathlib.Data.Rat.Lemmas
import Mathlib.Tactic.Positivity
import RecedingHorizon.Proofs.Pipeline.Delivery

/-!
# One request through layers

A layer is a stage that cannot fail. What it does at a request depends on nothing but the number of
items that have passed it and the last one of them, so all that happens at one request of a whole
stack of layers can be written down: first the `questions`, from the outermost layer inwards up to
the first one that turns the request down, and then, if none does and the source has an item, that
item and the `calls`, from the source outwards (`pull_of_delivered`, `pull_of_stopped`).
-/

namespace RecedingHorizon.Pipeline

variable {σ τ : Type}

theorem Period.hits_every_iff {length : ℚ} (positive : 0 < length) (count : ℕ) :
    (every length).hits count = true ↔ ∃ q : ℕ, (count : ℚ) = q * length := by
  have split : length * length.den = length.num := Rat.mul_den_eq_num length
  have den_ne_zero : (length.den : ℚ) ≠ 0 := Nat.cast_ne_zero.mpr length.den_ne_zero
  have num_positive : 0 < length.num := Rat.num_pos.mpr positive
  simp only [hits, beq_iff_eq, ← Int.dvd_iff_emod_eq_zero]
  -- With the denominator cleared, both sides speak of a multiple of the numerator.
  constructor
  · rintro ⟨q, product⟩
    have nonneg : 0 ≤ q := by
      refine nonneg_of_mul_nonneg_right (b := q) ?_ num_positive
      rw [← product]
      positivity
    obtain ⟨q, rfl⟩ := Int.eq_ofNat_of_zero_le nonneg
    have scaled : (count : ℚ) * length.den = length.num * q := by exact_mod_cast product
    refine ⟨q, mul_right_cancel₀ den_ne_zero ?_⟩
    rw [scaled, mul_assoc, split, mul_comm]
  · rintro ⟨q, product⟩
    refine ⟨q, ?_⟩
    have scaled : (count : ℚ) * length.den = length.num * q := by
      rw [product, mul_assoc, split, mul_comm]
    exact_mod_cast scaled

/-- The items on which a stage evaluates one of its tests. -/
def testedBy (stage test : Nat) (events : List (Event τ)) : List τ :=
  events.filterMap fun
    | .tested s t item => if s = stage ∧ t = test then some item else none
    | _ => none

theorem testedBy_append (stage test : Nat) (events later : List (Event τ)) :
    testedBy stage test (events ++ later) =
      testedBy stage test events ++ testedBy stage test later :=
  List.filterMap_append

/-- A stage whose tests and observers never fail, before any item has passed it. -/
inductive Layer (τ : Type) where
  | halting (tests : List (τ → Bool))
  | limiting (count? : Option Nat)
  | observing (length : ℚ) (atLeastOne : 1 ≤ length)

namespace Layer

def stage : Layer τ → Stage τ
  | halting tests => .halt (tests.map fun test item => .ok (test item))
  | limiting count? => .limit count?
  | observing length _ => .apply (.ok (.every length)) fun _ => .ok ()

/-- The stage once `count` items have passed, `last?` being the last one. -/
def stageAt (count : Nat) (last? : Option τ) : Layer τ → Stage τ
  | halting tests => .halting (tests.map fun test item => .ok (test item)) last?
  | limiting count? => .limiting (count?.map (· - count))
  | observing length _ => .observing (.ok (.every length)) (fun _ => .ok ()) count

/-- The layer requests another item. -/
def IsOpenAt (count : Nat) (last? : Option τ) : Layer τ → Prop
  | halting tests => ∀ item ∈ last?, ∀ test ∈ tests, test item = false
  | limiting count? => ∀ n ∈ count?, count < n
  | observing _ _ => True

instance (count : Nat) (last? : Option τ) :
    (layer : Layer τ) → Decidable (layer.IsOpenAt count last?)
  | halting tests =>
    inferInstanceAs (Decidable (∀ item ∈ last?, ∀ test ∈ tests, test item = false))
  | limiting count? => inferInstanceAs (Decidable (∀ n ∈ count?, count < n))
  | observing _ _ => inferInstanceAs (Decidable True)

/-- The observer is called for the item at a position, the first item being at position one: the
position is a whole multiple of the length. -/
def CallsAt (position : Nat) : Layer τ → Prop
  | observing length _ => ∃ q : ℕ, (position : ℚ) = q * length
  | _ => False

instance (position : Nat) : (layer : Layer τ) → Decidable (layer.CallsAt position)
  | halting _ => inferInstanceAs (Decidable False)
  | limiting _ => inferInstanceAs (Decidable False)
  | observing _ atLeastOne =>
    decidable_of_iff _ (Period.hits_every_iff (zero_lt_one.trans_le atLeastOne) position)

/-- A test is evaluated for an item: the tests before it do not hold. -/
def IsAsked (tests : List (τ → Bool)) (item : τ) (k : Nat) : Prop :=
  ∀ test ∈ tests.take k, test item = false

instance (tests : List (τ → Bool)) (item : τ) : DecidablePred (IsAsked tests item) := fun k =>
  inferInstanceAs (Decidable (∀ test ∈ tests.take k, test item = false))

/-- The layer evaluates its test number `k` for an item. -/
def Asks (item : τ) (k : Nat) : Layer τ → Prop
  | halting tests => k < tests.length ∧ IsAsked tests item k
  | _ => False

instance (item : τ) (k : Nat) : (layer : Layer τ) → Decidable (layer.Asks item k)
  | halting tests => inferInstanceAs (Decidable (k < tests.length ∧ IsAsked tests item k))
  | limiting _ => inferInstanceAs (Decidable False)
  | observing _ _ => inferInstanceAs (Decidable False)

/-- What a layer tests before it answers a request. -/
def asked (stage : Nat) (last? : Option τ) : Layer τ → List (Event τ)
  | halting tests => last?.toList.flatMap fun item =>
    ((List.range tests.length).filter (IsAsked tests item)).map (.tested stage · item)
  | _ => []

theorem stageAt_zero (layer : Layer τ) : layer.stageAt 0 none = layer.stage := by
  cases layer with
  | limiting count? => cases count? <;> rfl
  | _ => rfl

theorem asked_range_cons (test : τ → Bool) (rest : List (τ → Bool)) (item : τ) :
    (List.range (test :: rest).length).filter (IsAsked (test :: rest) item) =
      0 :: if test item then []
        else ((List.range rest.length).filter (IsAsked rest item)).map Nat.succ := by
  have first : IsAsked (test :: rest) item 0 := fun _ member => absurd member List.not_mem_nil
  have later (k : Nat) :
      IsAsked (test :: rest) item (k + 1) ↔ test item = false ∧ IsAsked rest item k := by
    simp [IsAsked]
  -- The first test is evaluated in any case, and the others if it fails.
  rw [List.length_cons, List.range_succ_eq_map, List.filter_cons, if_pos (by simpa using first),
    List.filter_map]
  cases held : test item with
  | true => simp [Function.comp_def, later, held]
  | false => simp [Function.comp_def, later, held]

theorem anyHolds_eq (stage : Nat) (item : τ) (tests : List (τ → Bool)) (first : Nat) :
    Stage.anyHolds stage item first (tests.map fun test item => .ok (test item)) =
      ⟨((List.range tests.length).filter (IsAsked tests item)).map fun k =>
          .tested stage (first + k) item,
        .ok (tests.any (· item))⟩ := by
  induction tests generalizing first with
  | nil => rfl
  | cons test rest ih =>
    rw [asked_range_cons]
    simp only [List.map_cons, Stage.anyHolds, Reported.report, Reported.silent, Reported.bind_ok]
    cases held : test item with
    | true => simp [held]
    | false => simp [held, ih, Function.comp_def, Nat.add_right_comm, Nat.add_assoc]

theorem requests_stageAt (layer : Layer τ) (count : Nat) (last? : Option τ) (i : Nat) :
    (layer.stageAt count last?).requests i =
      ⟨layer.asked i last?, .ok (layer.IsOpenAt count last?)⟩ := by
  cases layer with
  | halting tests =>
    cases last? with
    | none => rfl
    | some item =>
      have answer :
          (!tests.any (· item)) = decide ((halting tests).IsOpenAt count (some item)) := by
        rw [Bool.eq_iff_iff]
        simp [IsOpenAt]
      simp only [stageAt, Stage.requests, anyHolds_eq, Reported.bind_ok, Reported.pure_eq, answer]
      simp [asked]
  | limiting count? =>
    cases count? with
    | none => rfl
    | some n =>
      have answer : (some (n - count) != some 0) = decide (count < n) := by
        rw [Bool.eq_iff_iff]
        simpa using Nat.sub_ne_zero_iff_lt
      simp [stageAt, Stage.requests, asked, IsOpenAt, answer]
  | observing length atLeastOne => rfl

theorem pass_stageAt (layer : Layer τ) (count : Nat) (last? : Option τ) (i : Nat) (item : τ) :
    (layer.stageAt count last?).pass i item =
      ⟨if layer.CallsAt (count + 1) then [.called i item] else [],
        .ok (layer.stageAt (count + 1) (some item))⟩ := by
  cases layer with
  | halting tests => rfl
  | limiting count? => cases count? <;> rfl
  | observing length atLeastOne =>
    have hits := Period.hits_every_iff (zero_lt_one.trans_le atLeastOne) (count + 1)
    by_cases called : (observing (τ := τ) length atLeastOne).CallsAt (count + 1)
    · simp [stageAt, Stage.pass, called, hits.mpr called, Reported.silent, Reported.report,
        Except.map]
    · have misses : (Period.every length).hits (count + 1) = false :=
        Bool.eq_false_iff.mpr (mt hits.mp called)
      simp [stageAt, Stage.pass, called, misses, Reported.silent, Except.map]

end Layer

open Layer

/-! ### One request

The layers are listed as `pull` takes their stages, the outermost one first. -/

/-- The tests before the request is turned down or reaches the source. -/
def questions (count : Nat) (last? : Option τ) : List (Layer τ) → List (Event τ)
  | [] => []
  | layer :: inner => layer.asked inner.length last? ++
      if layer.IsOpenAt count last? then questions count last? inner else []

/-- The calls of the observers on the way back. -/
def calls (position : Nat) (item : τ) : List (Layer τ) → List (Event τ)
  | [] => []
  | layer :: inner => calls position item inner ++
      if layer.CallsAt position then [.called inner.length item] else []

/-- A source that cannot fail. -/
def steady (next : σ → Option (τ × σ)) : Source σ τ := fun s => .ok (next s)

theorem pull_of_delivered {next : σ → Option (τ × σ)} {s s' : σ} {item : τ}
    (handed : next s = some (item, s')) (layers : List (Layer τ)) {count : Nat} {last? : Option τ}
    (opened : ∀ layer ∈ layers, layer.IsOpenAt count last?) :
    pull (steady next) (layers.map (stageAt count last?)) s =
      ⟨questions count last? layers ++ .pulled item :: calls (count + 1) item layers,
        .ok (some (item, layers.map (stageAt (count + 1) (some item)), s'))⟩ := by
  induction layers with
  | nil => simp [pull, steady, handed, Reported.silent, Reported.report, questions, calls]
  | cons layer inner ih =>
    rw [List.forall_mem_cons] at opened
    simp [pull, requests_stageAt, pass_stageAt, opened.1, ih opened.2, questions, calls]

theorem pull_of_stopped {next : σ → Option (τ × σ)} {s : σ} {layers : List (Layer τ)} {count : Nat}
    {last? : Option τ}
    (stopped : (∀ layer ∈ layers, layer.IsOpenAt count last?) → next s = none) :
    pull (steady next) (layers.map (stageAt count last?)) s =
      ⟨questions count last? layers, .ok none⟩ := by
  induction layers with
  | nil =>
    -- No layer is left that could have turned the request down.
    have ended : next s = none := stopped fun _ member => absurd member List.not_mem_nil
    simp [pull, steady, ended, Reported.silent, questions]
  | cons layer inner ih =>
    by_cases opened : layer.IsOpenAt count last?
    · have further := ih fun others => stopped (List.forall_mem_cons.mpr ⟨opened, others⟩)
      simp [pull, requests_stageAt, opened, further, questions]
    · simp [pull, requests_stageAt, opened, questions]

/-! ### What is seen of a request

Here the layers are counted as they are put around the source, the innermost one being number
zero. -/

/-- The observer of layer number `i` of a stack is called for the item at a position. -/
def IsCalled (stack : List (Layer τ)) (i position : Nat) : Prop :=
  ∃ layer ∈ stack[i]?, layer.CallsAt position

/-- After an item has passed, the next request evaluates test number `k` of layer number `i` for it:
all layers outside of that one request another item. -/
def IsTested (stack : List (Layer τ)) (count : Nat) (item : τ) (i k : Nat) : Prop :=
  (∃ layer ∈ stack[i]?, layer.Asks item k) ∧
    ∀ layer ∈ stack.drop (i + 1), layer.IsOpenAt count (some item)

instance (stack : List (Layer τ)) (i position : Nat) : Decidable (IsCalled stack i position) :=
  inferInstanceAs (Decidable (∃ layer ∈ stack[i]?, layer.CallsAt position))

instance (stack : List (Layer τ)) (count : Nat) (item : τ) (i k : Nat) :
    Decidable (IsTested stack count item i k) :=
  inferInstanceAs (Decidable ((∃ layer ∈ stack[i]?, layer.Asks item k) ∧
    ∀ layer ∈ stack.drop (i + 1), layer.IsOpenAt count (some item)))

theorem IsCalled.lt_length {stack : List (Layer τ)} {i position : Nat}
    (called : IsCalled stack i position) : i < stack.length := by
  obtain ⟨layer, found, -⟩ := called
  exact (List.getElem?_eq_some_iff.mp found).1

theorem IsTested.lt_length {stack : List (Layer τ)} {count : Nat} {item : τ} {i k : Nat}
    (tested : IsTested stack count item i k) : i < stack.length := by
  obtain ⟨⟨layer, found, -⟩, -⟩ := tested
  exact (List.getElem?_eq_some_iff.mp found).1

theorem isCalled_concat (stack : List (Layer τ)) (layer : Layer τ) (i position : Nat) :
    IsCalled (stack ++ [layer]) i position ↔
      IsCalled stack i position ∨ (i = stack.length ∧ layer.CallsAt position) := by
  rcases lt_trichotomy i stack.length with inside | rfl | outside
  · simp [IsCalled, List.getElem?_append_left inside, inside.ne]
  · simp [IsCalled]
  · have beyond : (stack ++ [layer])[i]? = none :=
      List.getElem?_eq_none (by rw [List.length_append]; exact outside)
    simp [IsCalled, outside.ne', outside.le, beyond]

theorem isTested_concat (stack : List (Layer τ)) (layer : Layer τ) (count : Nat) (item : τ)
    (i k : Nat) :
    IsTested (stack ++ [layer]) count item i k ↔
      (IsTested stack count item i k ∧ layer.IsOpenAt count (some item)) ∨
        (i = stack.length ∧ layer.Asks item k) := by
  rcases lt_trichotomy i stack.length with inside | rfl | outside
  · simp [IsTested, List.getElem?_append_left inside, inside.ne,
      List.drop_append_of_le_length inside, or_imp, forall_and, and_assoc]
  · simp [IsTested]
  · have beyond : (stack ++ [layer])[i]? = none :=
      List.getElem?_eq_none (by rw [List.length_append]; exact outside)
    simp [IsTested, outside.ne', outside.le, beyond]

theorem mem_questions {count : Nat} {last? : Option τ} {layers : List (Layer τ)} {e : Event τ}
    (member : e ∈ questions count last? layers) :
    ∃ item ∈ last?, ∃ stage test, e = .tested stage test item := by
  induction layers with
  | nil => cases member
  | cons layer inner ih =>
    rw [questions, List.mem_append] at member
    rcases member with own | further
    · cases layer with
      | halting tests =>
        simp only [asked, List.mem_flatMap, Option.mem_toList, List.mem_map] at own
        obtain ⟨item, last, k, -, rfl⟩ := own
        exact ⟨item, last, _, k, rfl⟩
      | limiting count? => cases own
      | observing length atLeastOne => cases own
    · split at further
      · exact ih further
      · cases further

theorem mem_calls {position : Nat} {item : τ} {layers : List (Layer τ)} {e : Event τ}
    (member : e ∈ calls position item layers) :
    ∃ i, IsCalled layers.reverse i position ∧ e = .called i item := by
  induction layers with
  | nil => cases member
  | cons layer inner ih =>
    rw [calls, List.mem_append] at member
    rcases member with further | own
    · obtain ⟨i, called, rfl⟩ := ih further
      exact ⟨i, by rw [List.reverse_cons, isCalled_concat]; exact .inl called, rfl⟩
    · split at own
      · next called =>
        refine ⟨inner.length, ?_, List.mem_singleton.mp own⟩
        rw [List.reverse_cons, isCalled_concat]
        exact .inr ⟨List.length_reverse.symm, called⟩
      · cases own

section Silent

variable (last? : Option τ) (item : τ) (layers : List (Layer τ)) {f : Event τ → Option τ}

/-- Who does not look at tests sees nothing of the questions. -/
theorem filterMap_questions (count : Nat)
    (blind : ∀ stage test item, f (.tested stage test item) = none) :
    (questions count last? layers).filterMap f = [] :=
  List.filterMap_eq_nil_iff.mpr fun e member => by
    obtain ⟨item, -, stage, test, rfl⟩ := mem_questions member
    exact blind stage test item

/-- Who does not look at calls sees nothing of the calls. -/
theorem filterMap_calls (position : Nat) (blind : ∀ stage, f (.called stage item) = none) :
    (calls position item layers).filterMap f = [] :=
  List.filterMap_eq_nil_iff.mpr fun e member => by
    obtain ⟨stage, -, rfl⟩ := mem_calls member
    exact blind stage

theorem received_questions (count : Nat) : received (questions count last? layers) = [] :=
  filterMap_questions last? layers count fun _ _ _ => rfl

theorem handedOut_questions (count : Nat) : handedOut (questions count last? layers) = [] :=
  filterMap_questions last? layers count fun _ _ _ => rfl

theorem observed_questions (count i : Nat) : observed i (questions count last? layers) = [] :=
  filterMap_questions last? layers count fun _ _ _ => rfl

theorem received_calls (position : Nat) : received (calls position item layers) = [] :=
  filterMap_calls item layers position fun _ => rfl

theorem handedOut_calls (position : Nat) : handedOut (calls position item layers) = [] :=
  filterMap_calls item layers position fun _ => rfl

theorem testedBy_calls (position i k : Nat) : testedBy i k (calls position item layers) = [] :=
  filterMap_calls item layers position fun _ => rfl

end Silent

/-- Before anything has passed, there is nothing to test. -/
theorem questions_none (count : Nat) (layers : List (Layer τ)) :
    questions count none layers = [] :=
  List.eq_nil_iff_forall_not_mem.mpr fun e member => by
    obtain ⟨item, last, -⟩ := mem_questions member
    cases last

theorem observed_calls (position : Nat) (item : τ) (layers : List (Layer τ)) (i : Nat) :
    observed i (calls position item layers) =
      if IsCalled layers.reverse i position then [item] else [] := by
  induction layers with
  | nil => simp [calls, observed, IsCalled]
  | cons layer inner ih =>
    have own : observed i (if layer.CallsAt position then [.called inner.length item] else []) =
        if i = inner.length ∧ layer.CallsAt position then [item] else [] := by
      by_cases here : i = inner.length <;> by_cases called : layer.CallsAt position <;>
        simp [observed, here, called, eq_comm]
    simp only [calls, observed_append, ih, own, List.reverse_cons, isCalled_concat,
      List.length_reverse]
    -- A call further in has a smaller number.
    by_cases further : IsCalled inner.reverse i position
    · have inside : i ≠ inner.length := (List.length_reverse ▸ further.lt_length).ne
      simp [further, inside]
    · simp [further]

theorem testedBy_filter (stage : Nat) (item : τ) (tests : List (τ → Bool)) (n i k : Nat) :
    testedBy i k (((List.range n).filter (IsAsked tests item)).map (.tested stage · item)) =
      if i = stage ∧ k < n ∧ IsAsked tests item k then [item] else [] := by
  induction n with
  | zero => simp [testedBy]
  | succ n ih =>
    rw [List.range_succ, List.filter_append, List.map_append, testedBy_append, ih]
    by_cases here : k = n
    · subst here
      by_cases asked : IsAsked tests item k <;> by_cases own : i = stage <;>
        simp [testedBy, asked, own, eq_comm]
    · have below : k < n + 1 ↔ k < n := by omega
      by_cases asked : IsAsked tests item n <;>
        simp [testedBy, asked, below, show n ≠ k from Ne.symm here]

theorem testedBy_asked (stage : Nat) (item : τ) (layer : Layer τ) (i k : Nat) :
    testedBy i k (layer.asked stage (some item)) =
      if i = stage ∧ layer.Asks item k then [item] else [] := by
  cases layer with
  | halting tests =>
    rw [asked, Option.toList_some, List.flatMap_singleton]
    exact testedBy_filter stage item tests tests.length i k
  | limiting count? => simp [asked, Asks, testedBy]
  | observing length atLeastOne => simp [asked, Asks, testedBy]

theorem testedBy_questions (count : Nat) (item : τ) (layers : List (Layer τ)) (i k : Nat) :
    testedBy i k (questions count (some item) layers) =
      if IsTested layers.reverse count item i k then [item] else [] := by
  induction layers with
  | nil => simp [questions, testedBy, IsTested]
  | cons layer inner ih =>
    have inwards : testedBy i k
        (if layer.IsOpenAt count (some item) then questions count (some item) inner else []) =
        if IsTested inner.reverse count item i k ∧ layer.IsOpenAt count (some item) then [item]
          else [] := by
      by_cases opened : layer.IsOpenAt count (some item)
      · rw [if_pos opened, ih]
        simp [opened]
      · simp [opened, testedBy]
    simp only [questions, testedBy_append, testedBy_asked, inwards, List.reverse_cons,
      isTested_concat, List.length_reverse]
    -- A layer that is asked is the outermost one or lies further inside, but not both.
    by_cases further : IsTested inner.reverse count item i k
    · have inside : i ≠ inner.length := (List.length_reverse ▸ further.lt_length).ne
      simp [further, inside]
    · simp [further]

end RecedingHorizon.Pipeline
