import Tether.Plugin.ReceiveSession
import Tether.Semantics.Run

/-!
# The states of a receiving session

Three writers share the state of a session: the signaling thread, the thread of
the peer connection, and the thread that creates the session, whose last write
may come late. A handler of the signaling thread looks at the state first and
acts on what it saw, so the other writers may come in between. Each call of
`set_state` counts as one write: the comparison in front of the store only
decides who hears of it.

## Main definitions

* `ReceiveSession.Plan`, `ReceiveSession.carryOut` — what a handler goes on to do
* `ReceiveSession.Rx`, `ReceiveSession.Step` — a session with its handler in
  progress, and the steps of the three writers
* `ReceiveSession.NoReturn`, `ReceiveSession.StaysOver` — no step leads back in
  front of an offer, or out of the end

## Main results

* `one_offer_iff` — later offers are ignored if and only if no step leads back
* `over_iff` — the end is final if and only if every step keeps it
* `second_offer_applied`, `accepted_after_failure` — runs that lead back
-/

namespace Tether.Plugin.ReceiveSession

open Text Semantics

/-! ### Handlers in two steps -/

/-- What `signaling_event` goes on to do when it has looked at the state. -/
inductive Plan
  | ignore
  | write (state : ReceiveState)
  | offer (sdp : Option Bytes)
  | candidate (cand mid : Bytes)
  deriving DecidableEq

/-- What the handler decides in this state. -/
def planned (state : ReceiveState) (evt : SignalingEvent) (msg : Msg) : Plan :=
  match evt with
  | .requestAccepted =>
    if state = .negotiating ∨ state = .connected then .ignore else .write .accepted
  | .tokenInvalid | .tokenLockedOut => .write .failed
  | .sdpOffer =>
    if ignoresOffer state then .ignore else .offer (msg.jsonPayload.bind offerText)
  | .iceCandidate =>
    match msg.jsonPayload.bind (Sender.textMember "candidate"),
      msg.jsonPayload.bind (Sender.textMember "mid") with
    | some cand, some mid => .candidate cand mid
    | _, _ => .ignore
  | _ => .ignore

/-- What it does then, whatever the state has become. -/
def carryOut (state : ReceiveState) : Plan → ReceiveState × List Effect
  | .ignore => (state, [])
  | .write newState => setState state newState
  | .offer sdp =>
    let (state, effects) := setState state .negotiating
    (state, effects ++ sdp.toList.map (.applyRemoteSdp (bytes "offer")))
  | .candidate cand mid => (state, [.addRemoteIce cand mid])

/-- With nothing in between, the two steps are the handler. -/
theorem carryOut_planned (state : ReceiveState) (evt : SignalingEvent) (msg : Msg) :
    carryOut state (planned state evt msg) = signalingEvent state evt msg := by
  cases evt with
  | requestAccepted =>
    rw [planned, signalingEvent]
    split_ifs <;> rfl
  | sdpOffer =>
    rw [planned, signalingEvent]
    split_ifs
    · rfl
    · cases text : msg.jsonPayload.bind offerText <;> simp [carryOut]
  | iceCandidate =>
    rw [planned, signalingEvent]
    cases msg.jsonPayload.bind (Sender.textMember "candidate") with
    | none => rfl
    | some cand => cases msg.jsonPayload.bind (Sender.textMember "mid") <;> rfl
  | _ => rfl

/-! ### Runs -/

/-- A session. `finished` says that the server has refused it, or that its connection
has reported its end. -/
structure Rx where
  state : ReceiveState
  /-- What the signaling thread is about to do. -/
  handler : Option (SignalingEvent × Plan)
  /-- The calls made so far. -/
  calls : List Effect
  finished : Bool

/-- A step of one of the writers. -/
inductive Step
  | look (evt : SignalingEvent) (msg : Msg)
  | act
  | wrtcState (st : WebrtcState)
  /-- The last write of `session_create_locked`. -/
  | created

/-- The server refuses the session with this event. -/
def refuses : SignalingEvent → Bool
  | .requestRejected | .tokenInvalid | .tokenLockedOut => true
  | _ => false

namespace Rx

def next (rx : Rx) : Step → Rx
  | .look evt msg =>
    match rx.handler with
    -- the signaling thread is busy
    | some _ => rx
    | none => { rx with handler := some (evt, planned rx.state evt msg) }
  | .act =>
    match rx.handler with
    | none => rx
    | some (evt, plan) =>
      let (state, effects) := carryOut rx.state plan
      { state, handler := none, calls := rx.calls ++ effects, finished := rx.finished || refuses evt }
  | .wrtcState st =>
    let (state, effects) := wrtcStateCb rx.state st
    { rx with
      state, calls := rx.calls ++ effects
      finished := rx.finished || Sender.WebrtcState.isOver st }
  | .created =>
    let (state, effects) := setState rx.state .awaitingAccept
    { rx with state, calls := rx.calls ++ effects }

/-- A session as it is allocated. -/
def fresh : Rx where
  state := .connecting
  handler := none
  calls := []
  finished := false

def after (steps : List Step) : Rx := run next fresh steps

theorem after_concat (steps : List Step) (step : Step) :
    after (steps ++ [step]) = (after steps).next step :=
  run_concat next fresh steps step

end Rx

/-- A write ends in the state it writes. -/
@[simp] theorem setState_fst (state newState : ReceiveState) :
    (setState state newState).1 = newState := by
  rw [setState]
  split_ifs with same
  · exact same
  · rfl

/-- The state that a callback of the connection writes. -/
def written : WebrtcState → ReceiveState
  | .new | .connecting => .negotiating
  | .connected => .connected
  | .failed => .failed
  | .closed => .closed

@[simp] theorem wrtcStateCb_fst (state : ReceiveState) (st : WebrtcState) :
    (wrtcStateCb state st).1 = written st := by
  cases st <;> exact setState_fst _ _

/-! ### Handlers in progress -/

/-- What an event's handler decides in a state. -/
inductive Decides (state : ReceiveState) : SignalingEvent → Plan → Prop
  | ignores (evt : SignalingEvent)
    (other : evt ≠ .tokenInvalid ∧ evt ≠ .tokenLockedOut) : Decides state evt .ignore
  | accepted : Decides state .requestAccepted (.write .accepted)
  | refused (evt : SignalingEvent) (other : evt ≠ .requestRejected) :
    Decides state evt (.write .failed)
  | offer (sdp : Option Bytes) (attentive : ignoresOffer state = false) :
    Decides state .sdpOffer (.offer sdp)
  | candidate (cand mid : Bytes) : Decides state .iceCandidate (.candidate cand mid)

theorem planned_decides (state : ReceiveState) (evt : SignalingEvent) (msg : Msg) :
    Decides state evt (planned state evt msg) := by
  cases evt with
  | requestAccepted =>
    rw [planned]
    split_ifs
    · exact .ignores _ (by decide)
    · exact .accepted
  | sdpOffer =>
    rw [planned]
    split_ifs with ignored
    · exact .ignores _ (by decide)
    · exact .offer _ (by simpa using ignored)
  | iceCandidate =>
    rw [planned]
    split
    · exact .candidate _ _
    · exact .ignores _ (by decide)
  | tokenInvalid => exact .refused _ (by decide)
  | tokenLockedOut => exact .refused _ (by decide)
  | _ => exact .ignores _ (by decide)

/-- The handler in progress has decided in some state. -/
def Rx.Handles (rx : Rx) : Prop :=
  ∀ evt plan, rx.handler = some (evt, plan) → ∃ state, Decides state evt plan

theorem handles_after (steps : List Step) : (Rx.after steps).Handles := by
  refine run_invariant Rx.next Rx.fresh ?_ (by simp [Rx.Handles, Rx.fresh]) steps
  intro rx step handles
  cases step with
  | look evt msg =>
    rw [Rx.next]
    cases rx.handler with
    | some handler => exact handles
    | none =>
      intro evt' plan same
      obtain ⟨rfl, rfl⟩ := Prod.mk.inj (Option.some.inj same)
      exact ⟨rx.state, planned_decides rx.state evt msg⟩
  | act =>
    rw [Rx.next]
    cases busy : rx.handler with
    | none => exact handles
    | some handler => simp [Rx.Handles]
  | wrtcState st => exact handles
  | created => exact handles

/-! ### One offer -/

/-- An offer is applied to the connection. -/
def Effect.isOffer : Effect → Bool
  | .applyRemoteSdp _ _ => true
  | _ => false

/-- How many offers have been applied. -/
def Rx.offers (rx : Rx) : ℕ := rx.calls.countP Effect.isOffer

theorem countP_setState (state newState : ReceiveState) :
    (setState state newState).2.countP Effect.isOffer = 0 := by
  rw [setState]
  split_ifs <;> rfl

theorem countP_carryOut (state : ReceiveState) (plan : Plan) :
    (carryOut state plan).2.countP Effect.isOffer =
      match plan with
      | .offer (some _) => 1
      | _ => 0 := by
  cases plan with
  | write newState => exact countP_setState state newState
  | offer sdp =>
    rw [carryOut, List.countP_append, countP_setState]
    cases sdp <;> rfl
  | _ => rfl

theorem countP_wrtcStateCb (state : ReceiveState) (st : WebrtcState) :
    (wrtcStateCb state st).2.countP Effect.isOffer = 0 := by
  cases st <;> exact countP_setState _ _

/-- Once an offer has been applied, the step is no late write of the creator and
no acceptance that was let through. -/
def Rx.NoReturn (rx : Rx) : Step → Prop
  | .created => rx.offers = 0
  | .act => ∀ evt, rx.handler = some (evt, .write .accepted) → rx.offers = 0
  | _ => True

/-- At most one offer has been applied, and then the next one is ignored. -/
structure Rx.OneOffer (rx : Rx) : Prop where
  once : rx.offers ≤ 1
  ignored : rx.offers ≠ 0 → ignoresOffer rx.state = true

/-- While a handler is about to apply an offer, none has been applied. -/
structure Rx.Guarded (rx : Rx) : Prop extends rx.OneOffer where
  first : ∀ evt sdp, rx.handler = some (evt, .offer sdp) → rx.offers = 0

theorem written_ignores (st : WebrtcState) : ignoresOffer (written st) = true := by
  cases st <;> rfl

theorem guarded_next {rx : Rx} (guarded : rx.Guarded) (handles : rx.Handles) {step : Step}
    (noReturn : rx.NoReturn step) : (rx.next step).Guarded := by
  cases step with
  | look evt msg =>
    rw [Rx.next]
    cases busy : rx.handler with
    | some handler => exact guarded
    | none =>
      refine ⟨⟨guarded.once, guarded.ignored⟩, ?_⟩
      intro evt' sdp same
      obtain ⟨rfl, offers⟩ := Prod.mk.inj (Option.some.inj same)
      -- the state that the handler has looked at lets an offer through
      by_contra applied
      have ignored := guarded.ignored applied
      have decides := planned_decides rx.state evt msg
      rw [offers] at decides
      cases decides
      simp_all
  | act =>
    rw [Rx.next]
    cases busy : rx.handler with
    | none => exact guarded
    | some handler =>
      obtain ⟨evt, plan⟩ := handler
      have counted : (rx.calls ++ (carryOut rx.state plan).2).countP Effect.isOffer =
          rx.offers + (carryOut rx.state plan).2.countP Effect.isOffer := List.countP_append
      refine ⟨⟨?_, ?_⟩, by simp⟩
      · -- an offer that is about to be applied is the first
        show (rx.calls ++ (carryOut rx.state plan).2).countP Effect.isOffer ≤ 1
        rw [counted, countP_carryOut]
        split
        · rw [guarded.first evt _ busy]
        · exact guarded.once
      · show (rx.calls ++ (carryOut rx.state plan).2).countP Effect.isOffer ≠ 0 →
          ignoresOffer (carryOut rx.state plan).1 = true
        rw [counted, countP_carryOut]
        intro applied
        -- in which state the handler has looked does not matter, what it has decided does
        obtain ⟨seen, decides⟩ := handles evt plan busy
        cases decides with
        | ignores => exact guarded.ignored applied
        | candidate => exact guarded.ignored applied
        | offer => rw [carryOut, setState_fst]; rfl
        | refused => rw [carryOut, setState_fst]; rfl
        | accepted => exact absurd (noReturn _ busy) applied
  | wrtcState st =>
    have counted : (rx.next (.wrtcState st)).offers = rx.offers := by
      simp only [Rx.next, Rx.offers, List.countP_append, countP_wrtcStateCb, Nat.add_zero]
    refine ⟨⟨counted ▸ guarded.once, fun _ => ?_⟩, ?_⟩
    · simp only [Rx.next, wrtcStateCb_fst]
      exact written_ignores st
    · rw [counted]
      exact guarded.first
  | created =>
    have counted : (rx.next .created).offers = rx.offers := by
      simp only [Rx.next, Rx.offers, List.countP_append, countP_setState, Nat.add_zero]
    refine ⟨⟨counted ▸ guarded.once, fun applied => ?_⟩, ?_⟩
    · rw [counted] at applied
      exact absurd noReturn applied
    · rw [counted]
      exact guarded.first

/-- A step that leads back opens the way for the next offer. -/
theorem noReturn_of_oneOffer {rx : Rx} {step : Step} (after : (rx.next step).OneOffer) :
    rx.NoReturn step := by
  have ignored := after.ignored
  cases step with
  | look evt msg => trivial
  | wrtcState st => trivial
  | created =>
    simp only [Rx.next, Rx.offers, List.countP_append, countP_setState, setState_fst] at ignored
    -- the state written late lets the next offer through
    by_contra applied
    have late := ignored applied
    cases late
  | act =>
    intro evt busy
    simp only [Rx.next, busy, Rx.offers, List.countP_append, carryOut, countP_setState,
      setState_fst] at ignored
    by_contra applied
    have late := ignored applied
    cases late

/-- All along a run, at most one offer is applied and later ones are ignored, if
and only if no step leads back once an offer has been applied. -/
theorem one_offer_iff (steps : List Step) :
    (∀ before later, steps = before ++ later → (Rx.after before).OneOffer) ↔
      EveryStep (fun before step => (Rx.after before).NoReturn step) steps := by
  apply always_iff_everyStep (fun steps => (Rx.after steps).Guarded)
  · exact ⟨⟨Nat.zero_le _, fun applied => absurd rfl applied⟩, by simp [Rx.after, Rx.fresh]⟩
  · intro before step guarded noReturn
    rw [Rx.after_concat]
    exact guarded_next guarded (handles_after before) noReturn
  · exact fun steps guarded => guarded.toOneOffer
  · intro before step _ after
    rw [Rx.after_concat] at after
    exact noReturn_of_oneOffer after

/-- The two steps of a handler. -/
def handled (evt : SignalingEvent) (payload : String) : List Step :=
  [.look evt ⟨none, some (bytes payload)⟩, .act]

/-- An offer is applied, the connection fails, and the sender accepts and offers
again. -/
def secondOfferRun : List Step :=
  .created :: handled .requestAccepted "" ++ handled .sdpOffer "\"sdp\":\"a\"" ++
    .wrtcState .failed :: handled .requestAccepted "" ++ handled .sdpOffer "\"sdp\":\"b\""

/-- The second offer is applied to the same connection. -/
theorem second_offer_applied : (Rx.after secondOfferRun).offers = 2 ∧
    .applyRemoteSdp (bytes "offer") (bytes "a") ∈ (Rx.after secondOfferRun).calls ∧
    .applyRemoteSdp (bytes "offer") (bytes "b") ∈ (Rx.after secondOfferRun).calls := by
  decide +kernel

/-! ### The end -/

/-- Failed, or closed. -/
def IsTerminal (state : ReceiveState) : Prop := state = .failed ∨ state = .closed

instance : DecidablePred IsTerminal := fun _ => inferInstanceAs (Decidable (_ ∨ _))

/-- Once the session is over, the step writes no other state; and it is no
rejection while the session is not at its end already. -/
def Rx.StaysOver (rx : Rx) : Step → Prop
  | .look _ _ => True
  | .act => ∀ evt plan, rx.handler = some (evt, plan) →
    (rx.finished → plan ≠ .write .accepted ∧ ∀ sdp, plan ≠ .offer sdp) ∧
      (evt = .requestRejected → IsTerminal rx.state)
  | .wrtcState st => rx.finished → Sender.WebrtcState.isOver st
  | .created => ¬ rx.finished

/-- A session that is over is failed or closed. -/
def Rx.Ended (rx : Rx) : Prop := rx.finished → IsTerminal rx.state

theorem written_terminal (st : WebrtcState) :
    IsTerminal (written st) ↔ Sender.WebrtcState.isOver st := by
  cases st <;> decide

/-- One step keeps the end exactly if it stays over. -/
theorem ended_next_iff {rx : Rx} (ended : rx.Ended) (handles : rx.Handles) (step : Step) :
    (rx.next step).Ended ↔ rx.StaysOver step := by
  cases step with
  | look evt msg =>
    refine iff_of_true ?_ trivial
    rw [Rx.next]
    cases rx.handler <;> exact ended
  | wrtcState st =>
    simp only [Rx.Ended, Rx.StaysOver, Rx.next, wrtcStateCb_fst, written_terminal, Bool.or_eq_true]
    constructor
    · exact fun stays finished => stays (.inl finished)
    · rintro stays (finished | reports)
      · exact stays finished
      · exact reports
  | created =>
    simp [Rx.Ended, Rx.StaysOver, Rx.next, IsTerminal]
  | act =>
    cases busy : rx.handler with
    | none =>
      refine iff_of_true ?_ (by simp [Rx.StaysOver, busy])
      rw [Rx.next, busy]
      exact ended
    | some handler =>
      obtain ⟨evt, plan⟩ := handler
      have stays : rx.StaysOver .act ↔
          (rx.finished → plan ≠ .write .accepted ∧ ∀ sdp, plan ≠ .offer sdp) ∧
            (evt = .requestRejected → IsTerminal rx.state) := by
        simp [Rx.StaysOver, busy]
      rw [stays]
      simp only [Rx.Ended, Rx.next, busy, Bool.or_eq_true]
      obtain ⟨seen, decides⟩ := handles evt plan busy
      cases decides with
      -- a rejection is ignored, and yet the session is over
      | ignores _ other =>
        have refused : refuses evt = true ↔ evt = .requestRejected := by
          cases evt <;> simp_all [refuses]
        rw [carryOut, refused]
        constructor
        · exact fun stays => ⟨by simp, fun rejected => stays (.inr rejected)⟩
        · rintro ⟨-, stays⟩ (finished | rejected)
          · exact ended finished
          · exact stays rejected
      | candidate cand mid =>
        refine iff_of_true ?_ (by simp)
        rintro (finished | refused)
        · exact ended finished
        · cases refused
      | refused _ other =>
        refine iff_of_true (fun _ => ?_) ⟨by simp, fun same => absurd same other⟩
        rw [carryOut, setState_fst]
        exact .inl rfl
      | offer sdp =>
        simp [carryOut, refuses, IsTerminal]
      | accepted =>
        simp [carryOut, refuses, IsTerminal]

/-- All along a run, a session that is over is failed or closed if and only if
every step stays over. -/
theorem over_iff (steps : List Step) :
    (∀ before later, steps = before ++ later → (Rx.after before).Ended) ↔
      EveryStep (fun before step => (Rx.after before).StaysOver step) steps := by
  apply always_iff_everyStep (fun steps => (Rx.after steps).Ended)
  · exact fun finished => absurd finished (by decide)
  · intro before step ended stays
    rw [Rx.after_concat]
    exact (ended_next_iff ended (handles_after before) step).mpr stays
  · exact fun steps ended => ended
  · intro before step ended after
    rw [Rx.after_concat] at after
    exact (ended_next_iff ended (handles_after before) step).mp after

/-- The connection fails, and the sender accepts once more. -/
def acceptedAfterFailureRun : List Step :=
  .created :: handled .requestAccepted "" ++ .wrtcState .failed :: handled .requestAccepted ""

/-- The session is waiting for an offer again. -/
theorem accepted_after_failure : (Rx.after acceptedAfterFailureRun).finished = true ∧
    (Rx.after acceptedAfterFailureRun).state = .accepted := by
  decide +kernel

end Tether.Plugin.ReceiveSession
