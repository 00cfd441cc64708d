import Mathlib.Data.List.Induction

/-!
# Runs of a deterministic machine

A machine takes one event at a time. What holds along a run is proved from
what one step preserves, and it may depend on the events taken so far, so the
induction rules below speak about the run seen up to some point.

## Main definitions

* `Semantics.run` — the state after a list of events
* `Semantics.EveryStep` — a condition met by every event of a run, given the
  events before it

## Main results

* `run_invariant` — a property of states that every step preserves
* `history_induction` — a property of runs, event by event
* `guarded_induction` — the same along runs whose steps all meet a condition
* `always_iff_everyStep` — a property holds all along a run if and only if every
  step meets the condition that it needs
-/

namespace Semantics

variable {σ ε : Type*}

/-- The state a run of events leads to. -/
def run (next : σ → ε → σ) (start : σ) (events : List ε) : σ := events.foldl next start

section Run

variable (next : σ → ε → σ) (start : σ)

@[simp] theorem run_nil : run next start [] = start := rfl

@[simp] theorem run_concat (events : List ε) (event : ε) :
    run next start (events ++ [event]) = next (run next start events) event := by
  simp [run]

theorem run_cons (event : ε) (events : List ε) :
    run next start (event :: events) = run next (next start event) events := rfl

theorem run_append (first second : List ε) :
    run next start (first ++ second) = run next (run next start first) second :=
  List.foldl_append

/-- A property of states that every step preserves holds after every run. -/
theorem run_invariant {Inv : σ → Prop} (step : ∀ state event, Inv state → Inv (next state event))
    (base : Inv start) (events : List ε) : Inv (run next start events) := by
  induction events generalizing start with
  | nil => exact base
  | cons event events ih => exact ih (next start event) (step start event base)

end Run

/-- A property of runs that holds of the empty run and survives one more event
holds of every run. -/
theorem history_induction {Inv : List ε → Prop} (base : Inv [])
    (step : ∀ before event, Inv before → Inv (before ++ [event])) (events : List ε) :
    Inv events := by
  induction events using List.reverseRecOn with
  | nil => exact base
  | append_singleton before event ih => exact step before event ih

/-- Every event of the run meets the condition, given the events before it. -/
def EveryStep (condition : List ε → ε → Prop) (events : List ε) : Prop :=
  ∀ before event after, events = before ++ event :: after → condition before event

section EveryStep

variable {condition : List ε → ε → Prop}

theorem EveryStep.nil : EveryStep condition [] := by
  intro before event after split
  simp at split

theorem everyStep_concat {events : List ε} {event : ε} :
    EveryStep condition (events ++ [event]) ↔
      EveryStep condition events ∧ condition events event := by
  constructor
  · intro every
    refine ⟨fun before other after split => ?_, every events event [] rfl⟩
    exact every before other (after ++ [event]) (by simp [split])
  · rintro ⟨every, last⟩ before other after split
    rcases List.eq_nil_or_concat after with rfl | ⟨after, final, rfl⟩
    · obtain ⟨rfl, same⟩ := List.append_inj' split rfl
      obtain rfl := List.cons.inj same |>.1
      exact last
    · simp only [List.concat_eq_append] at split
      rw [← List.cons_append, ← List.append_assoc] at split
      obtain ⟨same, -⟩ := List.append_inj' split rfl
      exact every before other after same

/-- Over the first event, with the condition on the others shifted behind it. -/
theorem everyStep_cons {event : ε} {events : List ε} :
    EveryStep condition (event :: events) ↔
      condition [] event ∧ EveryStep (fun before => condition (event :: before)) events := by
  constructor
  · intro every
    refine ⟨every [] event events rfl, fun before other after split => ?_⟩
    exact every (event :: before) other after (by simp [split])
  · rintro ⟨first, every⟩ before other after split
    cases before with
    | nil =>
      obtain ⟨rfl, rfl⟩ := List.cons.inj split
      exact first
    | cons head before =>
      obtain ⟨rfl, rest⟩ := List.cons.inj split
      exact every before other after rest

/-- Over two parts of a run, with the condition on the second shifted behind the
first. -/
theorem everyStep_append {first second : List ε} :
    EveryStep condition (first ++ second) ↔
      EveryStep condition first ∧
        EveryStep (fun before => condition (first ++ before)) second := by
  induction second using List.reverseRecOn with
  | nil => simp [EveryStep.nil]
  | append_singleton second event ih =>
    rw [← List.append_assoc, everyStep_concat, everyStep_concat, ih, and_assoc]

/-- A decidable condition can be checked along a run. -/
instance decidableEveryStep : ∀ (condition : List ε → ε → Prop)
    [∀ before event, Decidable (condition before event)] (events : List ε),
    Decidable (EveryStep condition events)
  | _, _, [] => isTrue .nil
  | condition, _, event :: events =>
    have := decidableEveryStep (fun before => condition (event :: before)) events
    decidable_of_iff _ everyStep_cons.symm

/-- A condition met along a run is met along each of its beginnings. -/
theorem EveryStep.of_append {first second : List ε}
    (every : EveryStep condition (first ++ second)) : EveryStep condition first :=
  (everyStep_append.mp every).1

/-- Induction along runs whose steps all meet a condition. -/
theorem guarded_induction (Inv : List ε → Prop) (base : Inv [])
    (step : ∀ before event, Inv before → condition before event → Inv (before ++ [event]))
    (events : List ε) (every : EveryStep condition events) : Inv events := by
  induction events using List.reverseRecOn with
  | nil => exact base
  | append_singleton before event ih =>
    obtain ⟨earlier, last⟩ := everyStep_concat.mp every
    exact step before event (ih earlier) last

/-- A property holds all along a run if and only if every step meets a condition:
every step needs the condition, and it carries an invariant that is enough for the
property. -/
theorem always_iff_everyStep {Holds : List ε → Prop} (Inv : List ε → Prop) (base : Inv [])
    (step : ∀ before event, Inv before → condition before event → Inv (before ++ [event]))
    (enough : ∀ events, Inv events → Holds events)
    (needs : ∀ before event, Holds before → Holds (before ++ [event]) → condition before event)
    (events : List ε) :
    (∀ before later, events = before ++ later → Holds before) ↔ EveryStep condition events := by
  constructor
  · intro always before event later split
    apply needs
    · exact always before (event :: later) split
    · exact always (before ++ [event]) later (by simp [split])
  · rintro every before later rfl
    apply enough
    exact guarded_induction Inv base step before every.of_append

end EveryStep

end Semantics
