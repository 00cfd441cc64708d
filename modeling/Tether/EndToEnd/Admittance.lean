import Tether.Backend.Authority
import Tether.Backend.Relay
import Tether.Backend.WaitingRoom
import Tether.EndToEnd.Delivery
import Tether.Plugin.ReceiveStates

/-!
# Who lets a receiver in

A receiving session believes what the room sends it: that it has been accepted, and the
offers and candidates that it hands to its connection. Frames are under way while the room
and the session go on by themselves. No order of steps lets a session in for which nobody
has spoken: either a sender has accepted its record, or a receiver that a sender has
accepted has sent a signal to it, which the room passes on to whoever it names.

## Main definitions

* `Visit`, `Visit.next` — a session at its room, with the frames that are under way
* `Knocked`, `Vouched` — the records that a connection has got, and who may speak for them
* `LetIn` — what the session does when it believes that it has been accepted

## Main results

* `heard_step` — what the room says to a receiver that lets it in
* `let_in_is_vouched` — a session is let in only if somebody has spoken for its record
-/

namespace Tether.EndToEnd

open Text Js Semantics Plugin
open Plugin.ReceiveSession (Rx Plan carryOut planned)
open Backend (Room Env Event Socket Uuid PeerConn senderSockets isSenderHello isReceiverHello
  AcceptedBefore Admitted heard)

/-! ### Events that let a session in -/

/-- An acceptance, an offer or a candidate. -/
def admits : SignalingEvent → Bool
  | .requestAccepted | .sdpOffer | .iceCandidate => true
  | _ => false

/-- The frame does not let the session in. -/
def Harmless (frame : Value) : Prop :=
  ∀ evt msg, raised frame = some (evt, msg) → admits evt = false

/-- A message of the room is found by its type. -/
theorem type_message (type : String) (members : List (String × Value)) :
    firstHit (str "type") (Backend.message type members) = some (str type) := rfl

theorem harmless_message {type : String} (accepted : str type ≠ str "accepted")
    (sdp : str type ≠ str "sdp") (ice : str type ≠ str "ice") (members : List (String × Value)) :
    Harmless (Backend.message type members) := by
  intro evt msg event
  rw [raised] at event
  simp only [type_message, Option.some.injEq, if_neg accepted, if_neg sdp, if_neg ice] at event
  split_ifs at event
  all_goals
    obtain ⟨rfl, -⟩ := Prod.mk.inj (Option.some.inj event)
    rfl

/-! ### The room's side -/

section Records

variable (engine : Engine) (env : Env)

/-- The event is no sender hello on this connection. -/
def Guest (ws : Socket) (before : List Event) (event : Event) : Prop :=
  ∀ d, (Backend.after engine env before).received? engine event = some d → d.ws = ws →
    isSenderHello d.msg = false

instance (ws : Socket) (before : List Event) (event : Event) :
    Decidable (Guest engine env ws before event) :=
  decidable_of_iff (∀ d ∈ (Backend.after engine env before).received? engine event, d.ws = ws →
    isSenderHello d.msg = false) (by simp only [Guest, Option.mem_def])

/-- Earlier in the run, a hello on this connection has been admitted under the identifier. -/
def Knocked (ws : Socket) (events : List Event) (id : Uuid) : Prop :=
  ∃ before event later d, events = before ++ event :: later ∧
    (Backend.after engine env before).received? engine event = some d ∧ d.ws = ws ∧
    isReceiverHello d.msg ∧
    Admitted engine (Backend.after engine env before) d.tokenParam d.now d.msg ∧ d.uuid = id

/-- Earlier in the run, a receiver that a sender has accepted has sent a signal that names
the identifier. -/
def NamedByGuest (events : List Event) (id : Uuid) : Prop :=
  ∃ before event later d peer, events = before ++ event :: later ∧
    (Backend.after engine env before).received? engine event = some d ∧ Room.isSignal d.msg ∧
    (Backend.after engine env before).findPeerByWs d.ws = some peer ∧ peer.role = .receiver ∧
    AcceptedBefore engine env before peer.id ∧
    d.msg.get? (str "peer_id") = some (.str id.str)

/-- Somebody has spoken for a record of this connection. -/
def Vouched (ws : Socket) (events : List Event) : Prop :=
  ∃ id, Knocked engine env ws events id ∧
    (AcceptedBefore engine env events id ∨ NamedByGuest engine env events id)

variable {engine env} {ws : Socket}

theorem Knocked.concat {events : List Event} {id : Uuid} (earlier : Knocked engine env ws events id)
    (event : Event) : Knocked engine env ws (events ++ [event]) id := by
  obtain ⟨before, hello, later, d, rfl, rest⟩ := earlier
  exact ⟨before, hello, later ++ [event], d, by simp, rest⟩

theorem NamedByGuest.concat {events : List Event} {id : Uuid}
    (earlier : NamedByGuest engine env events id) (event : Event) :
    NamedByGuest engine env (events ++ [event]) id := by
  obtain ⟨before, signal, later, d, peer, rfl, rest⟩ := earlier
  exact ⟨before, signal, later ++ [event], d, peer, by simp, rest⟩

theorem Vouched.concat {events : List Event} (earlier : Vouched engine env ws events)
    (event : Event) : Vouched engine env ws (events ++ [event]) := by
  obtain ⟨id, knocked, accepted | named⟩ := earlier
  · exact ⟨id, knocked.concat event, .inl (accepted.concat event)⟩
  · exact ⟨id, knocked.concat event, .inr (named.concat event)⟩

/-- The records of a connection that never says hello as a sender are those that it has
knocked with. -/
theorem knocked_of_record (events : List Event) (guest : EveryStep (Guest engine env ws) events) :
    ∀ p ∈ (Backend.after engine env events).peers, p.ws = ws →
      p.role = .receiver ∧ Knocked engine env ws events p.id := by
  refine guarded_induction (fun events => ∀ p ∈ (Backend.after engine env events).peers, p.ws = ws →
    p.role = .receiver ∧ Knocked engine env ws events p.id) ?_ ?_ events guest
  · simp [Backend.after, Room.initial, Room.load]
  intro before event ih noSender p member here
  have kept (q : PeerConn) (old : q ∈ (Backend.after engine env before).peers) (there : q.ws = ws) :
      q.role = .receiver ∧ Knocked engine env ws (before ++ [event]) q.id :=
    ⟨(ih q old there).1, (ih q old there).2.concat event⟩
  have change := Backend.peers_next engine env (Backend.after engine env before) event
  rw [Backend.after_concat] at member
  generalize ((Backend.after engine env before).next engine env event).peers = peers
    at change member
  cases change with
  | fewer sublist => exact kept p (sublist.subset member) here
  | sender d received hello =>
    rcases Backend.mem_setPeer member with rfl | ⟨old, -⟩
    · rw [noSender d received here] at hello
      cases hello
    · exact kept p old here
  | receiver d received hello passes =>
    rcases Backend.mem_setPeer member with rfl | ⟨old, -⟩
    · exact ⟨rfl, before, event, [], d, rfl, received, here, hello, passes, rfl⟩
    · exact kept p old here
  | accept d received type peer source role id named =>
    -- an accept changes neither the socket nor the role of a record
    obtain ⟨q, old, rfl⟩ := List.mem_map.mp member
    split_ifs at here ⊢ with marked
    · exact kept q old here
    · exact kept q old here

section Said

variable {room : Room} {peer : PeerConn} {msg frame : Value}

theorem harmless_welcome {dest : Socket} {id : Uuid}
    (said : .send ws frame ∈ (room.welcome dest id msg).2) : Harmless frame := by
  obtain ⟨-, rfl⟩ := Backend.Effect.send.inj (Room.mem_send said)
  exact harmless_message (by decide) (by decide) (by decide) _

/-- A receiver hello is refused, or the senders are told of it. -/
theorem harmless_receiverHello {dest : Socket} {tokenParam : Option Str} {now : ℤ} {id : Uuid}
    (said : .send ws frame ∈ (room.receiverHello engine env dest tokenParam now id msg).2) :
    Harmless frame := by
  by_cases passes : Admitted engine room tokenParam now msg
  · rw [Backend.receiverHello_of_admitted passes] at said
    obtain ⟨_, -, same⟩ := Room.mem_notify said
    obtain ⟨-, rfl⟩ := Backend.Effect.send.inj same
    exact harmless_message (by decide) (by decide) (by decide) _
  · rcases Backend.refusal_of_receiverHello engine env room dest tokenParam now id msg passes said
      with rfl | rfl
    · exact harmless_message (by decide) (by decide) (by decide) _
    · exact harmless_message (by decide) (by decide) (by decide) _

theorem harmless_handleReject (said : .send ws frame ∈ (room.handleReject peer msg).2) :
    Harmless frame := by
  rcases Backend.handleReject_cases room peer msg with same | ⟨r, -, -, -, effects⟩
  · rw [same] at said
    cases said
  · rcases effects _ said with same | closes
    · obtain ⟨-, rfl⟩ := Backend.Effect.send.inj same
      exact harmless_message (by decide) (by decide) (by decide) _
    · cases closes

theorem harmless_handleRevoke (said : .send ws frame ∈ (room.handleRevoke peer).2) :
    Harmless frame := by
  by_cases sender : peer.role = .sender
  · obtain ⟨deleted, -, -, effects⟩ := Backend.handleRevoke_eq room sender
    obtain ⟨p, -, same | closes⟩ := effects _ said
    · obtain ⟨-, rfl⟩ := Backend.Effect.send.inj same
      exact harmless_message (by decide) (by decide) (by decide) _
    · cases closes
  · rw [Backend.handleRevoke_of_receiver room sender] at said
    cases said

theorem harmless_onClose {closing : Socket} (said : .send ws frame ∈ (room.onClose closing).2) :
    Harmless frame := by
  rcases Backend.onClose_cases room closing with
    ⟨same, -⟩ | ⟨peer, -, -, effects⟩ | ⟨peer, closed, -, -, -, -, effects⟩
  · rw [same] at said
    cases said
  · obtain ⟨dest, same⟩ := effects _ said
    obtain ⟨-, rfl⟩ := Backend.Effect.send.inj same
    exact harmless_message (by decide) (by decide) (by decide) _
  · obtain ⟨dest, closes⟩ := effects _ said
    cases closes

/-- Only a sender that names a record of the connection has it told that it is accepted. -/
theorem named_of_handleAccept (said : .send ws frame ∈ (room.handleAccept peer msg).2) :
    ∃ p ∈ room.peers, p.ws = ws ∧ msg.get? (str "peer_id") = some (.str p.id.str) ∧
      peer.role = .sender := by
  rcases Backend.handleAccept_cases room peer msg with same | ⟨p, member, role, -, named, same⟩
  · rw [same] at said
    cases said
  · rw [same] at said
    obtain ⟨rfl, -⟩ := Backend.Effect.send.inj (Room.mem_send said)
    exact ⟨p, member, rfl, named, role⟩

/-- A signal that reaches a receiver names its record, and the relay lets it through. -/
theorem named_of_relay (noSender : ∀ p ∈ room.peers, p.ws = ws → p.role = .receiver)
    (said : .send ws frame ∈ room.relayToPeer peer msg) :
    ∃ p ∈ room.peers, p.ws = ws ∧ msg.get? (str "peer_id") = some (.str p.id.str) ∧
      (peer.role = .sender → p.accepted) ∧ (peer.role = .receiver → peer.accepted) := by
  obtain ⟨target, member, addressed, sent, gate⟩ := Backend.mem_relayToPeer said
  obtain ⟨rfl, -⟩ := Backend.Effect.send.inj sent
  have receiver := noSender target member rfl
  refine ⟨target, member, rfl, ?_, ?_⟩
  · -- the alias leads to a sender, so that the frame carries the identifier
    rw [Backend.addressee] at addressed
    split_ifs at addressed with byAlias
    · rw [(Room.findSender_some addressed).2] at receiver
      cases receiver
    · exact (Backend.getPeer_some addressed).2
  · rcases gate with ⟨-, -, sender⟩ | gate
    · rw [sender] at receiver
      cases receiver
    · exact gate

/-- What the room says to a connection without a sender's record leaves it where it is, or it
is an acceptance by a sender, or a signal that somebody whom the relay lets through has
addressed to it. -/
theorem heard_step {event : Event}
    (noSender : ∀ p ∈ room.peers, p.ws = ws → p.role = .receiver)
    (said : .send ws frame ∈ (room.handle engine env event).2) :
    Harmless frame ∨ ∃ p ∈ room.peers, p.ws = ws ∧ ∃ d peer,
      room.received? engine event = some d ∧ room.findPeerByWs d.ws = some peer ∧
      d.msg.get? (str "peer_id") = some (.str p.id.str) ∧
      (Room.isType "accept" d.msg ∧ peer.role = .sender ∨
        Room.isSignal d.msg ∧ (peer.role = .sender → p.accepted) ∧
          (peer.role = .receiver → peer.accepted)) := by
  have step := Backend.outcome engine env room event
  generalize room.handle engine env event = result at step said
  cases step with
  | fetch => cases said
  | ignored => cases said
  | reload => cases said
  | senderHello => exact .inl (harmless_welcome said)
  | receiverHello => exact .inl (harmless_receiverHello said)
  | reject => exact .inl (harmless_handleReject said)
  | revoke => exact .inl (harmless_handleRevoke said)
  | closed => exact .inl (harmless_onClose said)
  | accept d received type peer source =>
    obtain ⟨p, member, here, named, role⟩ := named_of_handleAccept said
    exact .inr ⟨p, member, here, d, peer, received, source, named, .inl ⟨type, role⟩⟩
  | relay d received signal peer source =>
    obtain ⟨p, member, here, named, gate⟩ := named_of_relay noSender said
    exact .inr ⟨p, member, here, d, peer, received, source, named, .inr ⟨signal, gate⟩⟩

end Said

/-- What the room says to a receiver leaves it where it is as long as nobody has spoken for
it. -/
theorem harmless_or_vouched {before : List Event} {event : Event} {frame : Value}
    (guest : EveryStep (Guest engine env ws) (before ++ [event]))
    (said : frame ∈ heard ws (Backend.effectsAt engine env before event)) :
    Harmless frame ∨ Vouched engine env ws (before ++ [event]) := by
  obtain ⟨earlier, -⟩ := everyStep_concat.mp guest
  have records := knocked_of_record before earlier
  have noSender (p : PeerConn) (member : p ∈ (Backend.after engine env before).peers)
      (here : p.ws = ws) := (records p member here).1
  rcases heard_step noSender (Backend.mem_heard.mp said) with
    harmless | ⟨p, member, here, d, peer, received, source, named, spoken⟩
  · exact .inl harmless
  right
  have history := Backend.accepted_has_history engine env before
  have knocked := (records p member here).2
  refine ⟨p.id, knocked.concat event, ?_⟩
  rcases spoken with ⟨type, role⟩ | ⟨signal, bySender, byReceiver⟩
  · exact .inl ⟨before, event, [], d, peer, rfl, received, type, source, role, named⟩
  cases role : peer.role with
  | sender => exact .inl ((history p member (noSender p member here) (bySender role)).concat event)
  | receiver =>
    have present := (Room.findPeerByWs_some source).1
    exact .inr ⟨before, event, [], d, peer, rfl, received, signal, source, role,
      history peer present role (byReceiver role), named⟩

end Records

/-! ### The session's side -/

/-- The session has done something that it does when it believes that it has been accepted. -/
def opens : ReceiveSession.Effect → Bool
  | .onState .accepted | .applyRemoteSdp _ _ | .addRemoteIce _ _ => true
  | .onState _ => false

/-- A session that believes that it has been accepted. -/
def LetIn (rx : Rx) : Prop := rx.state = .accepted ∨ ∃ call ∈ rx.calls, opens call

/-- What a handler has decided leaves the session where it is. -/
def Idle : Plan → Prop
  | .write state => state ≠ .accepted
  | .ignore => True
  | .offer _ | .candidate _ _ => False

/-- The session waits, and the handler in progress leaves it so. -/
structure Waits (rx : Rx) : Prop where
  outside : ¬ LetIn rx
  idle : ∀ evt plan, rx.handler = some (evt, plan) → Idle plan

theorem idle_of_admits {evt : SignalingEvent} (harmless : admits evt = false) (state : ReceiveState)
    (msg : Msg) : Idle (planned state evt msg) := by
  have decides := ReceiveSession.planned_decides state evt msg
  generalize planned state evt msg = plan at decides
  cases decides with
  | ignores => trivial
  | refused => exact fun same => by cases same
  | accepted => cases harmless
  | offer => cases harmless
  | candidate => cases harmless

theorem opens_setState {state newState : ReceiveState} (other : newState ≠ .accepted) :
    ∀ call ∈ (ReceiveSession.setState state newState).2, opens call = false := by
  intro call member
  rw [ReceiveSession.setState] at member
  split_ifs at member
  · cases member
  · obtain rfl := List.mem_singleton.mp member
    cases newState with
    | accepted => exact absurd rfl other
    | _ => rfl

/-- What a session adds to its calls and writes into its state keeps it outside. -/
theorem outside_of_write {rx next : Rx} (outside : ¬ LetIn rx)
    (effects : List ReceiveSession.Effect) (calls : next.calls = rx.calls ++ effects)
    (state : next.state ≠ .accepted) (silent : ∀ call ∈ effects, opens call = false) :
    ¬ LetIn next := by
  rintro (accepted | ⟨call, member, opening⟩)
  · exact state accepted
  · rw [calls] at member
    rcases List.mem_append.mp member with old | new
    · exact outside (.inr ⟨call, old, opening⟩)
    · rw [silent call new] at opening
      cases opening

/-- A step that looks at no event that lets it in leaves the session waiting. -/
theorem waits_next {rx : Rx} (waits : Waits rx) (step : ReceiveSession.Step)
    (harmless : ∀ evt msg, step = .look evt msg → admits evt = false) : Waits (rx.next step) := by
  have write {next : Rx} {newState : ReceiveState} (other : newState ≠ .accepted)
      (state : next.state = newState)
      (calls : next.calls = rx.calls ++ (ReceiveSession.setState rx.state newState).2) :
      ¬ LetIn next :=
    outside_of_write waits.outside _ calls (state ▸ other) (opens_setState other)
  cases step with
  | look evt msg =>
    rw [Rx.next]
    cases busy : rx.handler with
    | some handler => exact waits
    | none =>
      refine ⟨waits.outside, fun evt' plan same => ?_⟩
      obtain ⟨rfl, rfl⟩ := Prod.mk.inj (Option.some.inj same)
      exact idle_of_admits (harmless evt msg rfl) rx.state msg
  | act =>
    rw [Rx.next]
    cases busy : rx.handler with
    | none => exact waits
    | some handler =>
      obtain ⟨evt, plan⟩ := handler
      have idle := waits.idle evt plan busy
      refine ⟨?_, by simp⟩
      cases plan with
      | ignore =>
        have stays : rx.state ≠ .accepted := fun same => waits.outside (.inl same)
        exact outside_of_write waits.outside [] rfl stays (by simp)
      | write newState => exact write idle (ReceiveSession.setState_fst _ _) rfl
      | offer => exact idle.elim
      | candidate => exact idle.elim
  | wrtcState st =>
    refine ⟨?_, waits.idle⟩
    cases st with
    | new => exact write (by decide) (ReceiveSession.setState_fst _ _) rfl
    | connecting => exact write (by decide) (ReceiveSession.setState_fst _ _) rfl
    | connected => exact write (by decide) (ReceiveSession.setState_fst _ _) rfl
    | failed => exact write (by decide) (ReceiveSession.setState_fst _ _) rfl
    | closed => exact write (by decide) (ReceiveSession.setState_fst _ _) rfl
  | created => exact ⟨write (by decide) (ReceiveSession.setState_fst _ _) rfl, waits.idle⟩

/-! ### Both together -/

/-- A session that is connected to the room. The frames under way are behind one another on
one connection. -/
structure Visit where
  room : Room
  underWay : List Value
  rx : Rx

/-- A step of the room or of a writer of the session. -/
inductive Move
  | room (event : Event)
  /-- The signaling thread takes the next frame and looks at the state. -/
  | take
  | act
  | wrtcState (st : WebrtcState)
  | created

namespace Visit

section

variable (engine : Engine) (env : Env) (ws : Socket)

def next (visit : Visit) : Move → Visit
  | .room event =>
    { visit with
      room := visit.room.next engine env event
      underWay := visit.underWay ++ heard ws (visit.room.handle engine env event).2 }
  | .take =>
    match visit.rx.handler, visit.underWay with
    | none, frame :: rest =>
      { visit with
        underWay := rest
        rx := match handleMessage (utf8 (stringify frame)) with
          | none => visit.rx
          | some (evt, msg) => visit.rx.next (.look evt msg) }
    -- the thread is in a handler, or waits for a frame
    | _, _ => visit
  | .act => { visit with rx := visit.rx.next .act }
  | .wrtcState st => { visit with rx := visit.rx.next (.wrtcState st) }
  | .created => { visit with rx := visit.rx.next .created }

def initial : Visit := ⟨.initial, [], .fresh⟩

def after (moves : List Move) : Visit := run (next engine env ws) initial moves

end

/-- The events that the room takes in a run. -/
def roomEvents (moves : List Move) : List Event :=
  moves.filterMap fun move => match move with
    | .room event => some event
    | _ => none

variable {engine : Engine} {env : Env} {ws : Socket}

/-- The room is not told of its visitor's steps. -/
theorem room_after (moves : List Move) :
    (after engine env ws moves).room = Backend.after engine env (roomEvents moves) := by
  induction moves using history_induction with
  | base => rfl
  | step before move ih =>
    rw [after, run_concat, ← after, roomEvents, List.filterMap_append]
    cases move with
    | room event =>
      change ((after engine env ws before).room.next engine env event) =
        Backend.after engine env (roomEvents before ++ [event])
      rw [ih, Backend.after_concat]
    | take =>
      rw [next]
      split
      · simpa [roomEvents] using ih
      · simpa [roomEvents] using ih
    | _ => simpa [next, roomEvents] using ih

/-- The visitor waits, and so it will behind every frame that is under way. -/
structure Outside (visit : Visit) : Prop where
  waits : Waits visit.rx
  harmless : ∀ frame ∈ visit.underWay, Harmless frame

theorem outside_next {visit : Visit} (outside : visit.Outside) {move : Move}
    (said : ∀ event, move = .room event →
      ∀ frame ∈ heard ws (visit.room.handle engine env event).2, Harmless frame) :
    (visit.next engine env ws move).Outside := by
  cases move with
  | room event =>
    refine ⟨outside.waits, fun frame member => ?_⟩
    rcases List.mem_append.mp member with old | new
    · exact outside.harmless frame old
    · exact said event rfl frame new
  | take =>
    rw [next]
    split
    · rename_i frame rest idle underWay
      have harmless (frame' : Value) (member : frame' ∈ frame :: rest) : Harmless frame' :=
        outside.harmless frame' (underWay ▸ member)
      refine ⟨?_, fun frame' member => harmless frame' (List.mem_cons_of_mem _ member)⟩
      -- what the client reads out of the text is what the frame raises
      rw [handleMessage_stringify]
      cases event : raised frame with
      | none => exact outside.waits
      | some raise =>
        refine waits_next outside.waits (.look raise.1 raise.2) fun evt msg same => ?_
        obtain ⟨rfl, rfl⟩ := ReceiveSession.Step.look.inj same
        exact harmless frame List.mem_cons_self _ _ event
    · exact outside
  | act => exact ⟨waits_next outside.waits .act (fun _ _ same => by cases same), outside.harmless⟩
  | wrtcState st =>
    exact ⟨waits_next outside.waits (.wrtcState st) (fun _ _ same => by cases same),
      outside.harmless⟩
  | created =>
    exact ⟨waits_next outside.waits .created (fun _ _ same => by cases same), outside.harmless⟩

theorem roomEvents_concat (moves : List Move) (move : Move) :
    roomEvents (moves ++ [move]) = roomEvents moves ++ roomEvents [move] :=
  List.filterMap_append

/-- In every order of steps, a session believes that it has been accepted only if a sender
has accepted a record of its connection, or a receiver that a sender has accepted has sent
it a signal. -/
theorem let_in_is_vouched (moves : List Move)
    (guest : EveryStep (Guest engine env ws) (roomEvents moves))
    (letIn : LetIn (after engine env ws moves).rx) :
    Vouched engine env ws (roomEvents moves) := by
  have waiting :
      Vouched engine env ws (roomEvents moves) ∨ (after engine env ws moves).Outside := by
    clear letIn
    induction moves using history_induction with
    | base =>
      exact .inr ⟨⟨by simp [after, initial, LetIn, Rx.fresh], by simp [after, initial, Rx.fresh]⟩,
        by simp [after, initial]⟩
    | step before move ih =>
      rw [roomEvents_concat] at guest ⊢
      rcases ih guest.of_append with vouched | outside
      · left
        cases move with
        | room event => exact vouched.concat event
        | _ => simpa [roomEvents] using vouched
      by_cases vouched : Vouched engine env ws (roomEvents before ++ roomEvents [move])
      · exact .inl vouched
      · right
        rw [after, run_concat, ← after]
        refine outside_next outside fun event same frame member => ?_
        subst same
        rw [room_after] at member
        exact (harmless_or_vouched guest member).resolve_right vouched
  rcases waiting with vouched | outside
  · exact vouched
  · exact absurd letIn outside.waits.outside

/-! ### An offer of another guest -/

/-- Two receivers knock and the sender accepts the first, which sends an offer to the second. -/
def misled : List Move :=
  [.room Backend.connect, .room Backend.connect, .room Backend.connect,
    .room (Backend.arrival 0 0 0 (Backend.helloAs "sender")),
    .room (Backend.arrival 1 1 1 (Backend.helloAs "receiver")), .created,
    .room (Backend.arrival 2 2 2 (Backend.helloAs "receiver")),
    .room (Backend.arrival 0 3 3
      (Backend.message "accept" [("peer_id", .str (Backend.numbered 1).str)])),
    .room (Backend.arrival 1 4 4 (Backend.message "sdp"
      [("peer_id", .str (Backend.numbered 2).str), ("sdp_type", .str (str "offer")),
        ("sdp", .str (str "v=0"))])),
    .take, .act]

/-- The second applies the offer, with a record that nobody has accepted. -/
theorem let_in_is_vouched_misled :
    Vouched asciiEngine .deployed 2 (roomEvents misled) ∧
      (∀ p ∈ (after asciiEngine .deployed 2 misled).room.peers, p.ws = 2 → ¬ p.accepted) ∧
      (after asciiEngine .deployed 2 misled).rx.calls =
        [.onState .awaitingAccept, .onState .negotiating,
          .applyRemoteSdp (bytes "offer") (bytes "v=0")] := by
  have calls : (after asciiEngine .deployed 2 misled).rx.calls =
      [.onState .awaitingAccept, .onState .negotiating,
        .applyRemoteSdp (bytes "offer") (bytes "v=0")] := by
    decide +kernel
  refine ⟨?_, by decide +kernel, calls⟩
  apply let_in_is_vouched misled (by decide +kernel)
  right
  rw [calls]
  exact ⟨.applyRemoteSdp (bytes "offer") (bytes "v=0"), by simp, rfl⟩

end Visit

end Tether.EndToEnd
