import Tether.Backend.Step

/-!
# The relay gate

Which `sdp` and `ice` frames the room passes on. A receiver that addresses the
sender by its alias is not asked whether it has been accepted, and two records
of the same role are not kept apart; in every other case the gate holds.

## Main definitions

* `AcceptedBefore` — a sender has accepted the record earlier in the run
* `Gated` — the frame passes between the sender and a receiver it has accepted

## Main results

* `accepted_has_history` — an accepted receiver has been accepted by a sender
* `relay_gated_iff` — when a forwarded frame is one that should be
-/

namespace Tether.Backend

open Js Semantics

section

variable (engine : Engine) (env : Env)

/-- Earlier in the run, a sender's accept has named this identifier. -/
def AcceptedBefore (events : List Event) (id : Uuid) : Prop :=
  ∃ before event later d peer, events = before ++ event :: later ∧
    (after engine env before).received? engine event = some d ∧
    Room.isType "accept" d.msg ∧
    (after engine env before).findPeerByWs d.ws = some peer ∧ peer.role = .sender ∧
    d.msg.get? (str "peer_id") = some (.str id.str)

/-- The socket belongs to a sender's record. -/
def Room.IsSenderSocket (room : Room) (ws : Socket) : Prop :=
  ∃ p ∈ room.peers, p.role = .sender ∧ p.ws = ws

/-- Exactly one of two records is on a sender's connection, and the other is a
receiver that a sender has accepted earlier in the run. -/
def Gated (events : List Event) (source target : PeerConn) : Prop :=
  let Accepted (p : PeerConn) := p.role = .receiver ∧ p.accepted ∧
    AcceptedBefore engine env events p.id
  (source.role = .sender ∧ ¬ (after engine env events).IsSenderSocket target.ws ∧
      Accepted target) ∨
    (target.role = .sender ∧ ¬ (after engine env events).IsSenderSocket source.ws ∧
      Accepted source)

end

section Relay

variable {engine : Engine} {env : Env}

theorem AcceptedBefore.concat {events : List Event} {id : Uuid}
    (earlier : AcceptedBefore engine env events id) (event : Event) :
    AcceptedBefore engine env (events ++ [event]) id := by
  obtain ⟨before, accept, later, d, peer, rfl, rest⟩ := earlier
  exact ⟨before, accept, later ++ [event], d, peer, by simp, rest⟩

/-- Along every run, a receiver is marked as accepted only after a sender has
accepted it. -/
theorem accepted_has_history (engine : Engine) (env : Env) (events : List Event) :
    ∀ p ∈ (after engine env events).peers, p.role = .receiver → p.accepted →
      AcceptedBefore engine env events p.id := by
  induction events using history_induction with
  | base => simp [after, Room.initial, Room.load]
  | step before event ih =>
    intro p member receiver isAccepted
    have change := peers_next engine env (after engine env before) event
    rw [after_concat] at member
    generalize ((after engine env before).next engine env event).peers = peers at change member
    cases change with
    | fewer sublist => exact (ih p (sublist.subset member) receiver isAccepted).concat event
    | sender d received hello =>
      rcases mem_setPeer member with rfl | ⟨old, -⟩
      · simp [Room.senderRecord] at receiver
      · exact (ih p old receiver isAccepted).concat event
    | receiver d received hello passes =>
      rcases mem_setPeer member with rfl | ⟨old, -⟩
      · simp [Room.receiverRecord] at isAccepted
      · exact (ih p old receiver isAccepted).concat event
    | accept d received type peer source role id named =>
      obtain ⟨q, old, rfl⟩ := List.mem_map.mp member
      split_ifs at receiver isAccepted ⊢ with marked
      · exact ⟨before, event, [], d, peer, rfl, received, type, source, role, marked ▸ named⟩
      · exact (ih q old receiver isAccepted).concat event

/-- The frame passes between a sender and a receiver, the two are not on
connections that both belong to a sender, and a receiver that uses the alias
has been accepted. -/
def Permitted (room : Room) (source target : PeerConn) (msg : Value) : Prop :=
  source.role ≠ target.role ∧
    ¬ (room.IsSenderSocket source.ws ∧ room.IsSenderSocket target.ws) ∧
    (source.role = .receiver → Room.isAlias msg → source.accepted)

/-- In every run, a frame that is forwarded passes between the sender and a
receiver it has accepted exactly when the frame is permitted. -/
theorem relay_gated_iff (events : List Event) (event : Event) (d : Room.Delivery)
    (received : (after engine env events).received? engine event = some d)
    (signal : Room.isSignal d.msg) (dest : Socket) (frame : Value)
    (forwarded : .send dest frame ∈ effectsAt engine env events event) :
    ∃ source target,
      (after engine env events).findPeerByWs d.ws = some source ∧
      addressee (after engine env events) source d.msg = some target ∧ dest = target.ws ∧
      (Gated engine env events source target ↔
        Permitted (after engine env events) source target d.msg) := by
  have history := accepted_has_history engine env events
  rw [effectsAt, handle_of_signal engine env received signal] at forwarded
  cases found : (after engine env events).findPeerByWs d.ws with
  | none => simp [found] at forwarded
  | some source =>
    have present := (Room.findPeerByWs_some found).1
    rw [found, Option.elim_some] at forwarded
    obtain ⟨target, member, addressed, sent, gate⟩ := mem_relayToPeer forwarded
    obtain ⟨rfl, -⟩ := Effect.send.inj sent
    refine ⟨source, target, rfl, addressed, rfl, ?_, ?_⟩
    · rintro (⟨sends, other, receives, -⟩ | ⟨receives, other, sends, isAccepted, -⟩)
      · refine ⟨by simp [sends, receives], fun both => other both.2, ?_⟩
        simp [sends]
      · exact ⟨by simp [sends, receives], fun both => other both.1, fun _ _ => isAccepted⟩
    · rintro ⟨roles, apart, knocks⟩
      -- in each direction the receiver of the two is the one that must have been accepted
      cases role : source.role with
      | sender =>
        have receives : target.role = .receiver := by
          cases other : target.role
          · exact absurd (role.trans other.symm) roles
          · rfl
        have isAccepted : target.accepted := by
          rcases gate with ⟨receiver, -⟩ | ⟨accepts, -⟩
          · simp [role] at receiver
          · exact accepts role
        left
        refine ⟨role, fun other => apart ⟨⟨source, present, role, rfl⟩, other⟩, receives,
          isAccepted, history target member receives isAccepted⟩
      | receiver =>
        have sends : target.role = .sender := by
          cases other : target.role
          · rfl
          · exact absurd (role.trans other.symm) roles
        have isAccepted : source.accepted := by
          rcases gate with ⟨-, isAlias, -⟩ | ⟨-, accepts⟩
          · exact knocks role isAlias
          · exact accepts role
        right
        exact ⟨sends, fun other => apart ⟨other, ⟨target, member, sends, rfl⟩⟩, role,
          isAccepted, history source present role isAccepted⟩

end Relay

/-! ### A receiver that nobody has accepted -/

/-- A sender and a receiver say hello; the sender accepts nobody. -/
def knocked : List Event :=
  [connect, connect, arrival 0 0 0 (helloAs "sender"), arrival 1 1 1 (helloAs "receiver")]

/-- The receiver sends a frame without a `peer_id`. -/
def aliasFrame : Event := arrival 1 2 2 (message "sdp" [])

private theorem aliasFrame_received :
    ∃ d, (after asciiEngine .deployed knocked).received? asciiEngine aliasFrame = some d ∧
      d.ws = 1 ∧ Room.isSignal d.msg ∧ Room.isAlias d.msg := by
  have facts : (((after asciiEngine .deployed knocked).received? asciiEngine aliasFrame).any
      fun d => d.ws = 1 && (Room.isSignal d.msg && Room.isAlias d.msg)) = true := by
    decide +kernel
  obtain ⟨d, received, shape⟩ := (Option.any_eq_true ..).mp facts
  simp only [Bool.and_eq_true, decide_eq_true_eq] at shape
  exact ⟨d, received, shape⟩

private theorem aliasFrame_forwarded :
    ∃ frame, .send 0 frame ∈ effectsAt asciiEngine .deployed knocked aliasFrame := by
  have facts : ((effectsAt asciiEngine .deployed knocked aliasFrame).any
      fun effect => match effect with | .send 0 _ => true | _ => false) = true := by
    decide +kernel
  obtain ⟨effect, member, shape⟩ := List.any_eq_true.mp facts
  split at shape
  · exact ⟨_, member⟩
  · simp at shape

/-- The frame reaches the sender all the same. -/
theorem unaccepted_frame_forwarded :
    ∃ d source target frame,
      (after asciiEngine .deployed knocked).received? asciiEngine aliasFrame = some d ∧
      Room.isSignal d.msg ∧
      (after asciiEngine .deployed knocked).findPeerByWs d.ws = some source ∧
      addressee (after asciiEngine .deployed knocked) source d.msg = some target ∧
      .send target.ws frame ∈ effectsAt asciiEngine .deployed knocked aliasFrame ∧
      ¬ Gated asciiEngine .deployed knocked source target := by
  obtain ⟨d, received, socket, signal, isAlias⟩ := aliasFrame_received
  obtain ⟨frame, sent⟩ := aliasFrame_forwarded
  have sourceFacts : ((after asciiEngine .deployed knocked).findPeerByWs 1).any
      (fun p => p.role = .receiver && !p.accepted) = true := by decide +kernel
  have targetFacts : (after asciiEngine .deployed knocked).findSender.any (·.ws = 0) = true := by
    decide +kernel
  obtain ⟨source, found, knocking⟩ := (Option.any_eq_true ..).mp sourceFacts
  obtain ⟨target, sender, atZero⟩ := (Option.any_eq_true ..).mp targetFacts
  simp only [Bool.and_eq_true, decide_eq_true_eq, Bool.not_eq_true'] at knocking atZero
  refine ⟨d, source, target, frame, received, signal, by rw [socket, found], ?_,
    by rw [atZero]; exact sent, ?_⟩
  · rw [addressee, if_pos (by simp [knocking.1, isAlias]), sender]
  · rintro (⟨sends, -⟩ | ⟨-, -, -, isAccepted, -⟩)
    · simp [knocking.1] at sends
    · simp [knocking.2] at isAccepted

theorem relay_gated_iff_aliasFrame :
    ∃ d source target,
      (after asciiEngine .deployed knocked).received? asciiEngine aliasFrame = some d ∧
      (after asciiEngine .deployed knocked).findPeerByWs d.ws = some source ∧
      addressee (after asciiEngine .deployed knocked) source d.msg = some target ∧
      0 = target.ws ∧
      (Gated asciiEngine .deployed knocked source target ↔
        Permitted (after asciiEngine .deployed knocked) source target d.msg) := by
  obtain ⟨d, received, -, signal, -⟩ := aliasFrame_received
  obtain ⟨frame, sent⟩ := aliasFrame_forwarded
  obtain ⟨source, target, gate⟩ :=
    relay_gated_iff knocked aliasFrame d received signal 0 frame sent
  exact ⟨d, source, target, received, gate⟩

end Tether.Backend
