import Tether.Plugin.ReceiveStates

/-!
# Offers that cannot be applied

The session counts as negotiating as soon as an offer arrives. Its text is looked for
behind that, and whether the peer connection takes it is not looked at, so an offer that
comes to nothing stands in the way of every later one.

## Main definitions

* `applyRemoteSdp` — `tether_webrtc_apply_remote_sdp`
* `ReceiveSession.BadOffer` — an offer without a text, or with one that is refused
* `ReceiveSession.RxEvent`, `ReceiveSession.heard` — what a session hears, and its state then

## Main results

* `busy_run` — a session that ignores offers does so until it has failed or is closed
* `bad_offer_blocks` — after a bad offer the next one is not applied
-/

namespace Tether.Plugin

open Text Semantics

/-- What the peer connection answers to a remote description, and to the request for its own
one. -/
structure Rtc where
  setRemoteDescription : Bytes → Bytes → ℤ
  setLocalDescription : ℤ

/-- `tether_webrtc_apply_remote_sdp` -/
def applyRemoteSdp (rtc : Rtc) (sdpType sdp : Bytes) : Bool :=
  if rtc.setRemoteDescription sdp sdpType < 0 then false
  else if sdpType = bytes "offer" then !decide (rtc.setLocalDescription < 0)
  else true

namespace ReceiveSession

/-- No text is found in the offer, or the peer connection refuses it. -/
def BadOffer (rtc : Rtc) (msg : Msg) : Prop :=
  ∀ sdp ∈ msg.jsonPayload.bind offerText, applyRemoteSdp rtc (bytes "offer") sdp = false

/-- What a session hears, from the signaling server and from its peer connection. -/
inductive RxEvent
  | signaling (evt : SignalingEvent) (msg : Msg)
  | media (state : WebrtcState)

/-- The state after an event. -/
def heard (state : ReceiveState) : RxEvent → ReceiveState
  | .signaling evt msg => (signalingEvent state evt msg).1
  | .media webrtc => (wrtcStateCb state webrtc).1

/-- The event ends the session. -/
def RxEvent.Ends : RxEvent → Prop
  | .signaling evt _ => evt = .tokenInvalid ∨ evt = .tokenLockedOut
  | .media webrtc => webrtc = .failed ∨ webrtc = .closed

/-- An offer that is looked at changes the state, whatever there is in it. -/
theorem offer_negotiates {state : ReceiveState} (accepts : ignoresOffer state = false) (msg : Msg) :
    (signalingEvent state .sdpOffer msg).1 = .negotiating := by
  rw [signalingEvent, accepts]
  cases msg.jsonPayload.bind offerText <;> exact setState_fst state .negotiating

theorem offer_ignored {state : ReceiveState} (ignores : ignoresOffer state = true) (msg : Msg) :
    signalingEvent state .sdpOffer msg = (state, []) := by
  rw [signalingEvent, if_pos ignores]

/-- The session is in the middle of something. -/
def Busy (state : ReceiveState) : Prop := state = .negotiating ∨ state = .connected

theorem Busy.ignores {state : ReceiveState} (busy : Busy state) : ignoresOffer state = true := by
  obtain rfl | rfl := busy <;> rfl

/-- It stays so until it ends. -/
theorem busy_heard {state : ReceiveState} (busy : Busy state) {event : RxEvent}
    (goesOn : ¬ event.Ends) : Busy (heard state event) := by
  cases event with
  | signaling evt msg =>
    cases evt with
    | requestAccepted =>
      simp only [ReceiveSession.heard, signalingEvent]
      -- accepted again: a session that negotiates keeps its state
      rw [if_pos (show _ ∨ _ from busy)]
      exact busy
    | tokenInvalid => exact absurd (Or.inl rfl) goesOn
    | tokenLockedOut => exact absurd (Or.inr rfl) goesOn
    | sdpOffer =>
      rw [ReceiveSession.heard, offer_ignored busy.ignores]
      exact busy
    | iceCandidate =>
      rw [ReceiveSession.heard, signalingEvent]
      -- a candidate leaves the state, whether it is passed on or not
      split <;> exact busy
    | _ => exact busy
  | media webrtc =>
    cases webrtc with
    | new => exact .inl (setState_fst state _)
    | connecting => exact .inl (setState_fst state _)
    | connected => exact .inr (setState_fst state _)
    | failed => exact absurd (Or.inl rfl) goesOn
    | closed => exact absurd (Or.inr rfl) goesOn

theorem busy_run {state : ReceiveState} (busy : Busy state) {between : List RxEvent}
    (goesOn : ∀ event ∈ between, ¬ event.Ends) : Busy (run heard state between) := by
  induction between generalizing state with
  | nil => exact busy
  | cons event rest ih =>
    obtain ⟨here, later⟩ := List.forall_mem_cons.mp goesOn
    exact ih (busy_heard busy here) later

/-- A bad offer always changes the state of a session that accepts offers; and from then on,
until the session has failed or is closed, no other offer is applied. -/
theorem bad_offer_blocks (rtc : Rtc) (state : ReceiveState) (msg : Msg)
    (accepts : ignoresOffer state = false) (_ : BadOffer rtc msg) :
    (signalingEvent state .sdpOffer msg).1 ≠ state ∧
      ∀ between : List RxEvent, (∀ event ∈ between, ¬ event.Ends) → ∀ offer : Msg,
        signalingEvent (run heard (signalingEvent state .sdpOffer msg).1 between) .sdpOffer offer =
          (run heard (signalingEvent state .sdpOffer msg).1 between, []) := by
  rw [offer_negotiates accepts]
  refine ⟨?_, fun between goesOn offer => ?_⟩
  · rintro rfl
    contradiction
  · have busy : Busy .negotiating := .inl rfl
    exact offer_ignored (busy_run busy goesOn).ignores offer

/-- A peer connection that takes everything. -/
def willing : Rtc := ⟨fun _ _ => 0, 0⟩

/-- An offer without a text. -/
def emptyOffer : Msg where
  peerId := none
  jsonPayload := some (bytes "\x7b\"type\":\"sdp\",\"sdp_type\":\"offer\"\x7d")

theorem emptyOffer_bad (rtc : Rtc) : BadOffer rtc emptyOffer := by
  intro sdp found
  have none : emptyOffer.jsonPayload.bind offerText = none := by decide +kernel
  rw [none] at found
  contradiction

theorem bad_offer_blocks_empty :
    (signalingEvent .accepted .sdpOffer emptyOffer).1 ≠ .accepted ∧
      ∀ between : List RxEvent, (∀ event ∈ between, ¬ event.Ends) → ∀ offer : Msg,
        signalingEvent (run heard (signalingEvent .accepted .sdpOffer emptyOffer).1 between)
            .sdpOffer offer =
          (run heard (signalingEvent .accepted .sdpOffer emptyOffer).1 between, []) :=
  bad_offer_blocks willing .accepted emptyOffer rfl (emptyOffer_bad willing)

/-- An offer without a text, at a session that has been accepted. -/
theorem empty_offer_negotiates :
    BadOffer willing emptyOffer ∧
      ¬ (signalingEvent .accepted .sdpOffer emptyOffer).1 = .accepted := by
  refine ⟨emptyOffer_bad willing, ?_⟩
  rw [offer_negotiates rfl]
  simp

end ReceiveSession

end Tether.Plugin
