import RecedingHorizon.Proofs.Pipeline.Run

/-!
# Runs on changed items

Let every item be replaced by its image under a function that no test and no observer can tell from
the item itself, already at the source. Then every request answers with the image of what it answered
before (`pull_image`), and so the whole run notes images (`run_image`), whatever fails on the way.
-/

namespace RecedingHorizon.Pipeline

variable {σ σ' τ κ κ' α β : Type} {f : τ → τ} {g : σ → σ'}

/-- The event with its item changed. -/
def Event.image (f : τ → τ) : Event τ → Event τ
  | pulled item => pulled (f item)
  | tested stage test item => tested stage test (f item)
  | called stage item => called stage (f item)
  | received item => received (f item)

/-- The computation with the items of its events and its answer changed. -/
def Reported.image (f : τ → τ) (change : α → β) (r : Reported τ α) : Reported τ β :=
  ⟨r.events.map (Event.image f), r.outcome.map change⟩

/-- A computation after another one, both changed. -/
theorem Reported.bind_image {γ δ : Type} {first : Reported τ α} {next : α → Reported τ β}
    {change : α → γ} {last : β → δ} {next' : γ → Reported τ δ}
    (later : ∀ a, first.outcome = .ok a → next' (change a) = (next a).image f last) :
    (first.image f change >>= next') = (first >>= next).image f last := by
  obtain ⟨events, outcome⟩ := first
  cases outcome with
  | error fault => rfl
  | ok a =>
    change (⟨events.map (Event.image f), .ok (change a)⟩ >>= next') = _
    rw [Reported.bind_ok, Reported.bind_ok, later a rfl, Reported.image, Reported.image,
      List.map_append]

namespace Stage

/-- The stage that remembers the image. -/
def image (f : τ → τ) : Stage τ → Stage τ
  | halting tests last? => halting tests (last?.map f)
  | limiting left? => limiting left?
  | observing period observe count => observing period observe count

/-- Neither tests nor the observer can tell the image from the item. -/
def Ignores (f : τ → τ) : Stage τ → Prop
  | halting tests _ => ∀ test ∈ tests, ∀ item, test (f item) = test item
  | limiting _ => True
  | observing _ observe _ => ∀ item, observe (f item) = observe item

theorem anyHolds_image {tests : List (Test τ)}
    (ignored : ∀ test ∈ tests, ∀ item, test (f item) = test item) (stage : Nat) (item : τ)
    (next : Nat) :
    anyHolds stage (f item) next tests = (anyHolds stage item next tests).image f id := by
  induction tests generalizing next with
  | nil => rfl
  | cons test rest ih =>
    have same := ignored test List.mem_cons_self item
    have later := ih (fun other member => ignored other (List.mem_cons_of_mem _ member)) (next + 1)
    simp only [anyHolds, same, Reported.report, Reported.silent, Reported.bind_ok]
    cases test item with
    | error fault => rfl
    | ok held =>
      cases held with
      | true => rfl
      | false =>
        simp only [Reported.bind_ok, if_neg Bool.false_ne_true, later]
        simp [Reported.image, Event.image]

theorem requests_image {s : Stage τ} (ignores : s.Ignores f) (i : Nat) :
    (s.image f).requests i = (s.requests i).image f id := by
  cases s with
  | halting tests last? =>
    cases last? with
    | none => rfl
    | some item =>
      simp only [image, Option.map_some, requests, anyHolds_image ignores]
      exact Reported.bind_image fun _ _ => rfl
  | limiting left? => rfl
  | observing period observe count => cases period <;> rfl

theorem pass_image {s : Stage τ} (ignores : s.Ignores f) (i : Nat) (item : τ) :
    (s.image f).pass i (f item) = (s.pass i item).image f (image f) := by
  cases s with
  | halting tests last? => rfl
  | limiting left? => rfl
  | observing period observe count =>
    have same : observe (f item) = observe item := ignores item
    cases period with
    | error fault => rfl
    | ok period =>
      cases hit : period.hits (count + 1) with
      | false => simp [image, pass, hit, Reported.silent, Reported.image, Except.map]
      | true =>
        cases seen : observe item with
        | error fault =>
          simp [image, pass, hit, same, seen, Reported.silent, Reported.report, Reported.image,
            Event.image, Except.map]
        | ok u =>
          simp [image, pass, hit, same, seen, Reported.silent, Reported.report, Reported.image,
            Event.image, Except.map]

theorem ignores_of_pass {s s' : Stage τ} (ignores : s.Ignores f) {i : Nat} {item : τ}
    (passed : (s.pass i item).outcome = .ok s') : s'.Ignores f := by
  cases s with
  | halting tests last? =>
    cases passed
    exact ignores
  | limiting left? =>
    cases passed
    trivial
  | observing period observe count =>
    obtain ⟨hit, -, rest⟩ := Reported.outcome_bind_eq_ok passed
    cases hit with
    | false =>
      cases rest
      exact ignores
    | true =>
      obtain ⟨_, -, rest⟩ := Reported.outcome_bind_eq_ok rest
      obtain ⟨_, -, rest⟩ := Reported.outcome_bind_eq_ok rest
      cases rest
      exact ignores

end Stage

/-- An answer to a request with its item, the stages and the source changed. -/
def imageOfAnswer (f : τ → τ) (g : σ → σ') (answer : τ × List (Stage τ) × σ) :
    τ × List (Stage τ) × σ' :=
  (f answer.1, answer.2.1.map (Stage.image f), g answer.2.2)

theorem ignores_of_pull {source : Source σ τ} {stages later : List (Stage τ)} {s s' : σ}
    {item : τ} (ignores : ∀ stage ∈ stages, stage.Ignores f)
    (pulled : (pull source stages s).outcome = .ok (some (item, later, s'))) :
    ∀ stage ∈ later, stage.Ignores f := by
  induction stages generalizing later with
  | nil =>
    obtain ⟨rfl, -⟩ := pull_nil_eq_some pulled
    exact fun _ member => absurd member List.not_mem_nil
  | cons stage inner ih =>
    obtain ⟨_, _, rfl, inside, passed⟩ := pull_cons_eq_some pulled
    rw [List.forall_mem_cons] at ignores ⊢
    exact ⟨Stage.ignores_of_pass ignores.1 passed, ih ignores.2 inside⟩

section

variable {source : Source σ τ} {source' : Source σ' τ} {stages : List (Stage τ)}

/-- A request is answered with the image of the answer, and reports the images of the events. -/
theorem pull_image (handed : ∀ s, source' (g s) = (source s).map (Option.map (Prod.map f g)))
    (ignores : ∀ stage ∈ stages, stage.Ignores f) (s : σ) :
    pull source' (stages.map (Stage.image f)) (g s) =
      (pull source stages s).image f (Option.map (imageOfAnswer f g)) := by
  -- By induction on the stages, from the source outwards. At every step the two requests do the same, and
  -- what follows is compared for every answer.
  induction stages with
  | nil =>
    have first : Reported.silent (source' (g s)) =
        (Reported.silent (source s)).image f (Option.map (Prod.map f g)) := by
      rw [handed s]
      rfl
    simp only [List.map_nil, pull, first]
    refine Reported.bind_image fun handed? _ => ?_
    cases handed? <;> rfl
  | cons stage inner ih =>
    have own := ignores stage List.mem_cons_self
    have inside := ih fun other member => ignores other (List.mem_cons_of_mem _ member)
    simp only [List.map_cons, pull, List.length_map, Stage.requests_image own, inside]
    refine Reported.bind_image fun wanted _ => ?_
    cases wanted with
    | false => rfl
    | true =>
      refine Reported.bind_image fun pulled? _ => ?_
      cases pulled? with
      | none => rfl
      | some answer =>
        obtain ⟨item, later, s⟩ := answer
        simp only [Option.map_some, imageOfAnswer, List.length_map, Stage.pass_image own]
        exact Reported.bind_image fun _ _ => rfl

/-- A run notes what a consumer makes of the images, and fails as it failed before. -/
theorem run_image (handed : ∀ s, source' (g s) = (source s).map (Option.map (Prod.map f g)))
    {note : κ → Event τ → κ} {note' : κ' → Event τ → κ'} {h : κ → κ'}
    (noted : ∀ k e, note' (h k) (e.image f) = h (note k e)) (fuel : Nat)
    (ignores : ∀ stage ∈ stages, stage.Ignores f) (s : σ) (k : κ) :
    run source' note' fuel (stages.map (Stage.image f)) (g s) (h k) =
      { noted := h (run source note fuel stages s k).noted
        fault? := (run source note fuel stages s k).fault? } := by
  have folded (events : List (Event τ)) (k : κ) :
      (events.map (Event.image f)).foldl note' (h k) = h (events.foldl note k) := by
    induction events generalizing k with
    | nil => rfl
    | cons e rest ih =>
      rw [List.map_cons, List.foldl_cons, noted, ih]
      rfl
  induction fuel generalizing stages s k with
  | zero => rfl
  | succ fuel ih =>
    simp only [run, pull_image handed ignores, Reported.image, folded]
    -- The next request is one of the stages that are left, which tell no more of an item than before.
    cases pulled : (pull source stages s).outcome with
    | error fault => rfl
    | ok answer? =>
      cases answer? with
      | none => rfl
      | some answer =>
        obtain ⟨item, later, s'⟩ := answer
        have next := ih (ignores_of_pull ignores pulled) s'
          (note ((pull source stages s).events.foldl note k) (.received item))
        rw [← noted] at next
        exact next

end

end RecedingHorizon.Pipeline
