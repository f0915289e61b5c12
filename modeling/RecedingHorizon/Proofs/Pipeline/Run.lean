import RecedingHorizon.Pipeline.Run

/-!
# What a run preserves

Whatever the stages of a pipeline are, an item that comes out of them came out of the source
(`source_eq_of_pull`), and only the consumer reports that an item is received (`pull_quiet`). So
what holds of the notes of a consumer before a run, and stays true when an item of the source is
received, holds after the run (`run_preserves`). What only holds once an item is received takes a
request that does not come back empty (`pull_ne_none`, `kept_of_received`).
-/

namespace RecedingHorizon.Pipeline

variable {σ τ κ α β : Type}

namespace Reported

/-- No item is received in the course of a computation. -/
def Quiet (r : Reported τ α) : Prop := ∀ item, Event.received item ∉ r.events

theorem quiet_silent (outcome : Except Fault α) : (silent outcome : Reported τ α).Quiet :=
  fun _ => List.not_mem_nil

theorem quiet_pure (a : α) : (pure a : Reported τ α).Quiet := fun _ => List.not_mem_nil

theorem quiet_report {e : Event τ} (other : ∀ item, e ≠ .received item) : (report e).Quiet :=
  fun item member => other item (List.mem_singleton.mp member).symm

theorem quiet_bind {first : Reported τ α} {next : α → Reported τ β} (quiet : first.Quiet)
    (later : ∀ a, (next a).Quiet) : (first >>= next).Quiet := by
  obtain ⟨events, outcome⟩ := first
  intro item
  cases outcome with
  | error f => exact quiet item
  | ok a =>
    rw [bind_ok, List.mem_append]
    rintro (early | late)
    · exact quiet item early
    · exact later a item late

theorem outcome_bind_eq_ok {first : Reported τ α} {next : α → Reported τ β} {b : β}
    (returned : (first >>= next).outcome = .ok b) :
    ∃ a, first.outcome = .ok a ∧ (next a).outcome = .ok b := by
  obtain ⟨events, outcome⟩ := first
  cases outcome with
  | error f => cases returned
  | ok a => exact ⟨a, rfl, returned⟩

end Reported

open Reported

/-! ### One request -/

theorem anyHolds_quiet (stage : Nat) (item : τ) (tests : List (Test τ)) (next : Nat) :
    (Stage.anyHolds stage item next tests).Quiet := by
  induction tests generalizing next with
  | nil => exact quiet_pure false
  | cons test rest ih =>
    refine quiet_bind (quiet_report fun _ => nofun) fun _ => quiet_bind (quiet_silent _) fun held => ?_
    cases held with
    | true => exact quiet_pure true
    | false => exact ih (next + 1)

theorem requests_quiet (stage : Nat) (s : Stage τ) : (s.requests stage).Quiet := by
  cases s with
  | halting tests last? =>
    cases last? with
    | none => exact quiet_pure true
    | some item => exact quiet_bind (anyHolds_quiet stage item tests 0) fun _ => quiet_pure _
  | limiting left? => exact quiet_pure _
  | observing period observe count => exact quiet_bind (quiet_silent _) fun _ => quiet_pure _

theorem pass_quiet (stage : Nat) (item : τ) (s : Stage τ) : (s.pass stage item).Quiet := by
  cases s with
  | halting tests last? => exact quiet_pure _
  | limiting left? => exact quiet_pure _
  | observing period observe count =>
    refine quiet_bind (quiet_silent _) fun hit => ?_
    cases hit with
    | true =>
      exact quiet_bind (quiet_report fun _ => nofun) fun _ =>
        quiet_bind (quiet_silent _) fun _ => quiet_pure _
    | false => exact quiet_pure _

theorem pull_quiet (source : Source σ τ) (stages : List (Stage τ)) (s : σ) :
    (pull source stages s).Quiet := by
  -- By induction on the stages, from the source outwards.
  induction stages generalizing s with
  | nil =>
    refine quiet_bind (quiet_silent _) fun handed? => ?_
    cases handed? with
    | none => exact quiet_pure none
    | some handed => exact quiet_bind (quiet_report fun _ => nofun) fun _ => quiet_pure _
  | cons stage inner ih =>
    refine quiet_bind (requests_quiet _ stage) fun wanted => ?_
    cases wanted with
    | false => exact quiet_pure none
    | true =>
      refine quiet_bind (ih s) fun pulled? => ?_
      cases pulled? with
      | none => exact quiet_pure none
      | some pulled => exact quiet_bind (pass_quiet _ _ stage) fun _ => quiet_pure _

section

variable {source : Source σ τ} {stage : Stage τ} {inner later : List (Stage τ)} {s s' : σ} {item : τ}

theorem pull_nil_eq_some (pulled : (pull source [] s).outcome = .ok (some (item, later, s'))) :
    later = [] ∧ source s = .ok (some (item, s')) := by
  obtain ⟨handed?, handed, rest⟩ := outcome_bind_eq_ok pulled
  cases handed? with
  | none => cases rest
  | some _ =>
    cases rest
    exact ⟨rfl, handed⟩

theorem pull_nil_eq_none (ended : (pull source [] s).outcome = .ok none) : source s = .ok none := by
  obtain ⟨handed?, handed, rest⟩ := outcome_bind_eq_ok ended
  cases handed? with
  | none => exact handed
  | some _ => cases rest

/-- An item that comes out of a stage came out of the inner stages before and has passed the stage. -/
theorem pull_cons_eq_some
    (pulled : (pull source (stage :: inner) s).outcome = .ok (some (item, later, s'))) :
    ∃ passed rest, later = passed :: rest ∧
      (pull source inner s).outcome = .ok (some (item, rest, s')) ∧
      (stage.pass rest.length item).outcome = .ok passed := by
  obtain ⟨wanted, -, answered⟩ := outcome_bind_eq_ok pulled
  cases wanted with
  | false => cases answered
  | true =>
    obtain ⟨pulled?, inside, answered⟩ := outcome_bind_eq_ok answered
    cases pulled? with
    | none => cases answered
    | some _ =>
      obtain ⟨passed, noticed, answered⟩ := outcome_bind_eq_ok answered
      cases answered
      exact ⟨passed, _, rfl, inside, noticed⟩

/-- A request that comes back empty was turned down by the stage or came back empty from the inner ones. -/
theorem pull_cons_eq_none (ended : (pull source (stage :: inner) s).outcome = .ok none) :
    (stage.requests inner.length).outcome = .ok false ∨ (pull source inner s).outcome = .ok none := by
  obtain ⟨wanted, answered, rest⟩ := outcome_bind_eq_ok ended
  cases wanted with
  | false => exact .inl answered
  | true =>
    obtain ⟨pulled?, inside, rest⟩ := outcome_bind_eq_ok rest
    cases pulled? with
    | none => exact .inr inside
    | some _ =>
      obtain ⟨_, -, rest⟩ := outcome_bind_eq_ok rest
      cases rest

end

/-- Stages hand on the items of the source. -/
theorem source_eq_of_pull {source : Source σ τ} {stages later : List (Stage τ)} {s s' : σ}
    {item : τ} (pulled : (pull source stages s).outcome = .ok (some (item, later, s'))) :
    source s = .ok (some (item, s')) := by
  induction stages generalizing later with
  | nil => exact (pull_nil_eq_some pulled).2
  | cons stage inner ih =>
    obtain ⟨_, _, -, inside, -⟩ := pull_cons_eq_some pulled
    exact ih inside

/-- If the source has an item and every stage requests one, the request does not come back empty. -/
theorem pull_ne_none {source : Source σ τ} {stages : List (Stage τ)} {s : σ}
    (endless : source s ≠ .ok none)
    (willing : ∀ stage ∈ stages, ∀ i, (stage.requests i).outcome ≠ .ok false) :
    (pull source stages s).outcome ≠ .ok none := by
  intro ended
  induction stages with
  | nil => exact endless (pull_nil_eq_none ended)
  | cons stage inner ih =>
    rw [List.forall_mem_cons] at willing
    rcases pull_cons_eq_none ended with refused | inside
    · exact willing.1 _ refused
    · exact ih willing.2 inside

/-! ### A run -/

/-- Events of other kinds are noted without harm. -/
theorem foldl_preserves {note : κ → Event τ → κ} {Kept : κ → Prop}
    (others : ∀ noted e, (∀ item, e ≠ .received item) → Kept noted → Kept (note noted e))
    {events : List (Event τ)} (quiet : ∀ item, .received item ∉ events) {noted : κ}
    (kept : Kept noted) : Kept (events.foldl note noted) := by
  induction events generalizing noted with
  | nil => exact kept
  | cons e rest ih =>
    have other (item : τ) : e ≠ .received item := fun same => quiet item (by simp [same])
    have later (item : τ) : .received item ∉ rest := fun member =>
      quiet item (List.mem_cons_of_mem e member)
    exact ih later (others noted e other kept)

/-- What a run preserves, if every item of a source that is `Ready` is received without harm. -/
theorem run_preserves {source : Source σ τ} {note : κ → Event τ → κ} (Ready : σ → Prop)
    (Kept : κ → Prop)
    (others : ∀ noted e, (∀ item, e ≠ .received item) → Kept noted → Kept (note noted e))
    (handed : ∀ s item s', Ready s → source s = .ok (some (item, s')) →
      Ready s' ∧ ∀ noted, Kept noted → Kept (note noted (.received item)))
    {fuel : Nat} {stages : List (Stage τ)} {s : σ} {noted : κ} (ready : Ready s)
    (kept : Kept noted) : Kept (run source note fuel stages s noted).noted := by
  induction fuel generalizing stages s noted with
  | zero => exact kept
  | succ fuel ih =>
    -- The request itself receives nothing, so the notes are kept until its item is received.
    have before := foldl_preserves others (pull_quiet source stages s) kept
    rw [run]
    cases pulled : (pull source stages s).outcome with
    | error f => exact before
    | ok answer? =>
      cases answer? with
      | none => exact before
      | some answer =>
        obtain ⟨item, later, s'⟩ := answer
        obtain ⟨next, received⟩ := handed s item s' ready (source_eq_of_pull pulled)
        exact ih next (received _ before)

/-- What is noted of every item that is received, and kept from then on, holds after a run that does not
fail and whose first request does not come back empty. -/
theorem kept_of_received {source : Source σ τ} {note : κ → Event τ → κ} (Kept : κ → Prop)
    (others : ∀ noted e, (∀ item, e ≠ .received item) → Kept noted → Kept (note noted e))
    (received : ∀ noted item, Kept (note noted (.received item))) {fuel : Nat}
    {stages : List (Stage τ)} {s : σ} {noted : κ}
    (first : (pull source stages s).outcome ≠ .ok none)
    (finished : (run source note (fuel + 1) stages s noted).fault? = none) :
    Kept (run source note (fuel + 1) stages s noted).noted := by
  rw [run] at finished ⊢
  cases pulled : (pull source stages s).outcome with
  | error f =>
    rw [pulled] at finished
    cases finished
  | ok answer? =>
    cases answer? with
    | none => exact absurd pulled first
    | some answer =>
      exact run_preserves (fun _ => True) Kept others
        (fun _ item _ _ _ => ⟨trivial, fun noted _ => received noted item⟩) trivial (received _ _)

end RecedingHorizon.Pipeline
