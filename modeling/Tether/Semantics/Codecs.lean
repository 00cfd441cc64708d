import Mathlib.Data.List.Basic
import Mathlib.Tactic.Common

/-!
# Codecs that work in their own time

A codec takes one input after another, and it is asked for what it has made of them. It need
not answer an input at once, and while it has something to give it may be too busy for another
one. Whoever takes out everything after each input is not turned away, unless there was an error.

## Main definitions

* `Codec` — its answers to an input, and to the question for an output
* `inTurn` — one input after another
* `Codec.drain` — everything that it gives until it has nothing to give
* `Codec.put`, `Codec.conversation` — an input with all that is taken out after it, and many of
  them
* `Codec.Lawful` — it does not give for ever, and it is not busy with nothing to give
* `Codec.Unmoved` — while it is busy an input makes no difference

## Main results

* `Lawful.exists_conversation` — a conversation comes to its end
* `Lawful.busy_behind` — an input is turned away only behind an error
* `Unmoved.silent` — whoever gives up on a busy codec never gets anything again
-/

namespace Semantics

/-- The answer to an input. -/
inductive Sent
  | taken
  /-- Something must be taken out first. -/
  | busy
  | failed
  deriving DecidableEq

/-- The answer to the question for an output. -/
inductive Received (β : Type*)
  | made (output : β)
  /-- There is nothing before the next input. -/
  | empty
  | failed

structure Codec (σ α β : Type*) where
  send : σ → α → Sent × σ
  receive : σ → Received β × σ

/-- What was taken out, and whether there is nothing left. -/
structure Drained (σ β : Type*) where
  outputs : List β
  emptied : Bool
  state : σ

/-- What has come of an input. -/
structure Exchange (β : Type*) where
  answer : Sent
  outputs : List β
  emptied : Bool

section InTurn

variable {σ ι ο : Type*} (step : σ → ι → Option (ο × σ))

/-- One input after another, as long as there is a result, and what has come of each. -/
def inTurn : σ → List ι → Option (List ο × σ)
  | s, [] => some ([], s)
  | s, input :: rest =>
    (step s input).bind fun (outcome, s) =>
      (inTurn s rest).map fun (outcomes, s) => (outcome :: outcomes, s)

theorem inTurn_concat (s : σ) (inputs : List ι) (input : ι) :
    inTurn step s (inputs ++ [input]) =
      (inTurn step s inputs).bind fun (outcomes, s) =>
        (step s input).map fun (outcome, s) => (outcomes ++ [outcome], s) := by
  induction inputs generalizing s with
  | nil =>
    rw [List.nil_append, inTurn, inTurn, Option.bind_some]
    dsimp only
    cases step s input <;> rfl
  | cons first rest ih =>
    rw [List.cons_append, inTurn, inTurn]
    rcases step s first with _ | ⟨outcome, next⟩
    · rfl
    rw [Option.bind_some, Option.bind_some]
    dsimp only
    rw [ih]
    rcases inTurn step next rest with _ | ⟨outcomes, last⟩
    · rfl
    rw [Option.bind_some, Option.map_some, Option.bind_some]
    dsimp only
    cases step last input <;> rfl

end InTurn

namespace Codec

variable {σ α β : Type*} (c : Codec σ α β)

/-- Everything that is given until there is nothing to give, or an error. -/
def drain : ℕ → σ → Option (Drained σ β)
  | 0, _ => none
  | turns + 1, s =>
    match c.receive s with
    | (.made output, s) =>
      (drain turns s).map fun rest => { rest with outputs := output :: rest.outputs }
    | (.empty, s) => some ⟨[], true, s⟩
    | (.failed, s) => some ⟨[], false, s⟩

/-- An input, and what is taken out after it. Someone who insists does so although the codec is
busy. -/
def put (insists : Bool) (turns : ℕ) (s : σ) (input : α) : Option (Exchange β × σ) :=
  match c.send s input with
  | (.failed, s) => some (⟨.failed, [], false⟩, s)
  | (.busy, s) =>
    if insists then
      (c.drain turns s).map fun drained => (⟨.busy, drained.outputs, drained.emptied⟩, drained.state)
    else some (⟨.busy, [], false⟩, s)
  | (.taken, s) =>
    (c.drain turns s).map fun drained =>
      (⟨.taken, drained.outputs, drained.emptied⟩, drained.state)

/-- One input after another. -/
def conversation (insists : Bool) (turns : ℕ) (s : σ) (inputs : List α) :
    Option (List (Exchange β) × σ) :=
  inTurn (c.put insists turns) s inputs

/-- The codec is not busy. -/
def Ready (s : σ) : Prop := ∀ input, (c.send s input).1 ≠ .busy

/-- The codec does not give for ever, and it is not busy with nothing to give. -/
structure Lawful (pending : σ → ℕ) : Prop where
  gives : ∀ s output s', c.receive s = (.made output, s') → pending s' < pending s
  ready : ∀ s s', c.receive s = (.empty, s') → c.Ready s'

/-- Being busy, whatever the input is, the codec stays as it is. -/
structure Unmoved : Prop where
  same : ∀ s input s', c.send s input = (.busy, s') → s' = s
  always : ∀ s input other, (c.send s input).1 = .busy → (c.send s other).1 = .busy

variable {c} {pending : σ → ℕ} {s : σ}

/-! ### Taking out -/

theorem drain_mono {turns more : ℕ} (le : turns ≤ more) {drained : Drained σ β}
    (done : c.drain turns s = some drained) : c.drain more s = some drained := by
  induction turns generalizing more s drained with
  | zero => cases done
  | succ turns ih =>
    obtain ⟨more, rfl⟩ := Nat.exists_eq_add_of_le' le
    rw [← Nat.add_assoc, drain]
    rw [drain] at done
    rcases answered : c.receive s with ⟨_ | _ | _, s'⟩
    · rw [answered] at done
      obtain ⟨rest, taken, rfl⟩ := Option.map_eq_some_iff.mp done
      dsimp only
      rw [ih (Nat.le_add_left turns more) taken]
      rfl
    · rwa [answered] at done
    · rwa [answered] at done

/-- There is an end to it. -/
theorem Lawful.exists_drain (lawful : c.Lawful pending) (s : σ) :
    ∃ drained, c.drain (pending s + 1) s = some drained := by
  generalize count : pending s = n
  induction n using Nat.strongRecOn generalizing s with
  | ind n ih =>
    rw [drain]
    rcases answered : c.receive s with ⟨_ | _ | _, s'⟩
    · have fewer := lawful.gives s _ s' answered
      rw [count] at fewer
      obtain ⟨drained, done⟩ := ih (pending s') fewer s' rfl
      dsimp only
      rw [drain_mono fewer done]
      exact ⟨_, rfl⟩
    · exact ⟨_, rfl⟩
    · exact ⟨_, rfl⟩

/-- With nothing left the codec is not busy. -/
theorem Lawful.ready_of_emptied (lawful : c.Lawful pending) {turns : ℕ} {drained : Drained σ β}
    (done : c.drain turns s = some drained) (emptied : drained.emptied = true) :
    c.Ready drained.state := by
  induction turns generalizing s drained with
  | zero => cases done
  | succ turns ih =>
    rw [drain] at done
    rcases answered : c.receive s with ⟨_ | _ | _, s'⟩ <;> rw [answered] at done
    · obtain ⟨rest, taken, rfl⟩ := Option.map_eq_some_iff.mp done
      have ready : c.Ready rest.state := ih taken emptied
      exact ready
    · obtain rfl := Option.some.inj done
      exact lawful.ready s s' answered
    · obtain rfl := Option.some.inj done
      cases emptied

/-! ### Conversations -/

theorem put_mono {insists : Bool} {turns more : ℕ} (le : turns ≤ more) {input : α}
    {result : Exchange β × σ} (done : c.put insists turns s input = some result) :
    c.put insists more s input = some result := by
  rw [put] at done ⊢
  rcases sent : c.send s input with ⟨_ | _ | _, s'⟩ <;> rw [sent] at done
  · obtain ⟨drained, taken, rfl⟩ := Option.map_eq_some_iff.mp done
    dsimp only
    rw [drain_mono le taken, Option.map_some]
  · cases insists with
    | false => exact done
    | true =>
      obtain ⟨drained, taken, rfl⟩ := Option.map_eq_some_iff.mp done
      dsimp only
      rw [if_pos rfl, drain_mono le taken, Option.map_some]
  · exact done

/-- One input comes to its end, and more turns make no difference. -/
theorem Lawful.exists_put (lawful : c.Lawful pending) (insists : Bool) (s : σ) (input : α) :
    ∃ enough result, ∀ turns, enough ≤ turns → c.put insists turns s input = some result := by
  obtain ⟨enough, result, done⟩ :
      ∃ enough result, c.put insists enough s input = some result := by
    rcases sent : c.send s input with ⟨_ | _ | _, s'⟩
    · obtain ⟨drained, done⟩ := lawful.exists_drain s'
      refine ⟨pending s' + 1, (⟨.taken, drained.outputs, drained.emptied⟩, drained.state), ?_⟩
      rw [put, sent]
      dsimp only
      rw [done, Option.map_some]
    · obtain ⟨drained, done⟩ := lawful.exists_drain s'
      cases insists with
      | false => exact ⟨0, (⟨.busy, [], false⟩, s'), by rw [put, sent]; rfl⟩
      | true =>
        refine ⟨pending s' + 1, (⟨.busy, drained.outputs, drained.emptied⟩, drained.state), ?_⟩
        rw [put, sent]
        dsimp only
        rw [if_pos rfl, done, Option.map_some]
    · exact ⟨0, (⟨.failed, [], false⟩, s'), by rw [put, sent]⟩
  exact ⟨enough, result, fun turns le => put_mono le done⟩

/-- A conversation comes to its end. -/
theorem Lawful.exists_conversation (lawful : c.Lawful pending) (insists : Bool) (s : σ)
    (inputs : List α) : ∃ enough result, ∀ turns, enough ≤ turns →
      c.conversation insists turns s inputs = some result := by
  induction inputs generalizing s with
  | nil => exact ⟨0, _, fun _ _ => rfl⟩
  | cons input rest ih =>
    obtain ⟨first, ⟨exchange, s'⟩, put⟩ := lawful.exists_put insists s input
    obtain ⟨others, ⟨exchanges, last⟩, went⟩ := ih s'
    refine ⟨max first others, (exchange :: exchanges, last), fun turns le => ?_⟩
    rw [conversation, inTurn, put turns (Nat.le_trans (Nat.le_max_left _ _) le), Option.bind_some]
    have more := went turns (Nat.le_trans (Nat.le_max_right _ _) le)
    rw [conversation] at more
    dsimp only
    rw [more, Option.map_some]

/-- Behind an input after which everything was taken out, the codec is not busy. -/
theorem Lawful.ready_of_put (lawful : c.Lawful pending) {insists : Bool} {turns : ℕ} {input : α}
    {exchange : Exchange β} {s' : σ} (put : c.put insists turns s input = some (exchange, s'))
    (emptied : exchange.emptied = true) : c.Ready s' := by
  rw [Codec.put] at put
  split at put
  · obtain ⟨rfl, rfl⟩ := Prod.mk.inj (Option.some.inj put)
    cases emptied
  · split_ifs at put
    · obtain ⟨drained, done, same⟩ := Option.map_eq_some_iff.mp put
      obtain ⟨rfl, rfl⟩ := Prod.mk.inj same
      exact lawful.ready_of_emptied done emptied
    · obtain ⟨rfl, rfl⟩ := Prod.mk.inj (Option.some.inj put)
      cases emptied
  · obtain ⟨drained, done, same⟩ := Option.map_eq_some_iff.mp put
    obtain ⟨rfl, rfl⟩ := Prod.mk.inj same
    exact lawful.ready_of_emptied done emptied

/-- An answer is the codec's. -/
theorem put_answer {insists : Bool} {turns : ℕ} {input : α} {exchange : Exchange β} {s' : σ}
    (put : c.put insists turns s input = some (exchange, s')) :
    exchange.answer = (c.send s input).1 := by
  rw [Codec.put] at put
  split at put
  · rename_i answered
    obtain ⟨rfl, rfl⟩ := Prod.mk.inj (Option.some.inj put)
    rw [answered]
  · rename_i answered
    rw [answered]
    split_ifs at put
    · obtain ⟨_, -, same⟩ := Option.map_eq_some_iff.mp put
      rw [← (Prod.mk.inj same).1]
    · rw [← (Prod.mk.inj (Option.some.inj put)).1]
  · rename_i answered
    obtain ⟨_, -, same⟩ := Option.map_eq_some_iff.mp put
    rw [answered, ← (Prod.mk.inj same).1]

/-- Someone who does not insist takes nothing out of a codec that is busy. -/
theorem put_busy {turns : ℕ} {input : α} {exchange : Exchange β} {s' : σ}
    (put : c.put false turns s input = some (exchange, s')) (busy : exchange.answer = .busy) :
    exchange = ⟨.busy, [], false⟩ ∧ (c.send s input).1 = .busy := by
  rw [put_answer put] at busy
  rw [Codec.put] at put
  rcases answered : c.send s input with ⟨answer, next⟩
  rw [answered] at busy put
  obtain rfl : answer = .busy := busy
  exact ⟨(Prod.mk.inj (Option.some.inj put)).1.symm, rfl⟩

/-- After an error something may be left. -/
theorem put_failed {insists : Bool} {turns : ℕ} {input : α} {exchange : Exchange β} {s' : σ}
    (put : c.put insists turns s input = some (exchange, s')) (failed : exchange.answer = .failed) :
    exchange.emptied = false := by
  rw [put_answer put] at failed
  rw [Codec.put] at put
  rcases answered : c.send s input with ⟨answer, next⟩
  rw [answered] at failed put
  obtain rfl : answer = .failed := failed
  rw [← (Prod.mk.inj (Option.some.inj put)).1]

/-- Everything that holds of one exchange holds of all of them. -/
theorem forall_of_conversation {P : Exchange β → Prop} {insists : Bool} {turns : ℕ}
    (each : ∀ s input exchange s', c.put insists turns s input = some (exchange, s') → P exchange)
    {inputs : List α} {exchanges : List (Exchange β)} {last : σ}
    (went : c.conversation insists turns s inputs = some (exchanges, last)) :
    exchanges.length = inputs.length ∧ ∀ exchange ∈ exchanges, P exchange := by
  induction inputs generalizing s exchanges with
  | nil =>
    obtain ⟨rfl, -⟩ := Prod.mk.inj (Option.some.inj went)
    exact ⟨rfl, by simp⟩
  | cons input rest ih =>
    obtain ⟨⟨exchange, s'⟩, put, more⟩ := Option.bind_eq_some_iff.mp went
    obtain ⟨⟨others, _⟩, later, same⟩ := Option.map_eq_some_iff.mp more
    obtain ⟨rfl, rfl⟩ := Prod.mk.inj same
    obtain ⟨length, all⟩ := ih later
    exact ⟨by rw [List.length_cons, List.length_cons, length],
      List.forall_mem_cons.mpr ⟨each s input exchange s' put, all⟩⟩

/-- Every busy answer comes behind an exchange after which something was left. -/
def BusyBehind (ready : Prop) : List (Exchange β) → Prop
  | [] => True
  | exchange :: rest => (exchange.answer = .busy → ¬ ready) ∧
      BusyBehind (exchange.emptied = true) rest

/-- What there is in front of a busy answer. -/
theorem BusyBehind.of_split {ready : Prop} {before after : List (Exchange β)}
    {exchange : Exchange β} (behind : BusyBehind ready (before ++ exchange :: after))
    (busy : exchange.answer = .busy) :
    before = [] ∧ ¬ ready ∨ ∃ earlier last, before = earlier ++ [last] ∧ last.emptied = false := by
  induction before generalizing ready with
  | nil => exact .inl ⟨rfl, behind.1 busy⟩
  | cons head before ih =>
    right
    rcases ih behind.2 with ⟨rfl, left⟩ | ⟨earlier, last, rfl, left⟩
    · exact ⟨[], head, rfl, by simpa using left⟩
    · exact ⟨head :: earlier, last, rfl, left⟩

/-- The codec turns an input away only behind an exchange that met an error. -/
theorem Lawful.busy_behind (lawful : c.Lawful pending) {ready : Prop} (start : ready → c.Ready s)
    {insists : Bool} {turns : ℕ} {inputs : List α} {exchanges : List (Exchange β)} {last : σ}
    (went : c.conversation insists turns s inputs = some (exchanges, last)) :
    BusyBehind ready exchanges := by
  induction inputs generalizing s ready exchanges with
  | nil =>
    obtain ⟨rfl, -⟩ := Prod.mk.inj (Option.some.inj went)
    trivial
  | cons input rest ih =>
    obtain ⟨⟨exchange, s'⟩, put, more⟩ := Option.bind_eq_some_iff.mp went
    obtain ⟨⟨others, _⟩, later, same⟩ := Option.map_eq_some_iff.mp more
    obtain ⟨rfl, rfl⟩ := Prod.mk.inj same
    refine ⟨fun busy isReady => start isReady input ?_, ih (lawful.ready_of_put put) later⟩
    rw [← put_answer put, busy]

/-- Whoever gives up on a codec that is busy never gets anything from it again. -/
theorem Unmoved.silent (unmoved : c.Unmoved) {input : α} (busy : (c.send s input).1 = .busy)
    (turns : ℕ) (inputs : List α) :
    c.conversation false turns s inputs =
      some (inputs.map fun _ => ⟨.busy, [], false⟩, s) := by
  induction inputs with
  | nil => rfl
  | cons other rest ih =>
    rcases answered : c.send s other with ⟨answer, s'⟩
    have still := unmoved.always s input other busy
    rw [answered] at still
    obtain rfl : answer = .busy := still
    obtain rfl := unmoved.same s other s' answered
    rw [conversation, inTurn, put, answered]
    dsimp only
    rw [conversation] at ih
    rw [if_neg Bool.false_ne_true, Option.bind_some]
    dsimp only
    rw [ih]
    rfl

end Codec

end Semantics
