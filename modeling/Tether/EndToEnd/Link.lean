import Tether.Backend.Hosting
import Tether.EndToEnd.Delivery
import Tether.Plugin.Decisions

/-!
# A room and a sender

The two parties with the frames between them. Frames of the sender reach the room in the
order in which they were sent, and frames of the room the sender; receivers, the user and
the connections of the sessions do what they like, when they like.

## Main definitions

* `Link`, `Link.next` — the parties with their channels, and what can happen
* `Link.start`, `Link.after` — the runs
* `Link.InStep` — an event after which both sides still fit
-/

namespace Tether.EndToEnd

open Text Js Semantics Plugin
open Backend (Room Env Millis Uuid Socket IsNotice)

/-- A room and a sender. -/
structure Link where
  room : Room
  sender : Sender
  /-- The sender's connection. -/
  ws : Socket
  /-- The calls whose frames are on their way to the room, the oldest first. -/
  up : List Signal
  /-- The frames on their way to the sender. -/
  down : List Value
  /-- What `crypto.randomUUID()` has returned for the frames of receivers. -/
  issued : List Uuid

/-- An event of the sender that is not a frame of the room. -/
def IsOwn : Sender.Event → Prop
  | .message .. => False
  | _ => True

namespace Link

/-! ### What can happen -/

inductive Event
  /-- A receiver connects. -/
  | connect (roomHint tokenParam : Option Str)
  /-- A frame of a receiver reaches the room. -/
  | receiver (ws : Socket) (now : Millis) (uuid : Uuid) (data : List Char)
  /-- A receiver's connection ends. -/
  | closed (ws : Socket)
  /-- The sender's oldest frame reaches the room. -/
  | toRoom (now : Millis) (uuid : Uuid)
  /-- The room's oldest frame reaches the sender. -/
  | toSender (now : UInt64) (connected : Connected)
  /-- A call of the user interface, or a callback of a session. -/
  | own (event : Sender.Event) (isOwn : IsOwn event)

section

variable (engine : Engine) (env : Env)

/-- An event of the room, whose frames for the sender are under way then. -/
def atRoom (link : Link) (event : Backend.Event) : Link :=
  let (room, effects) := link.room.handle engine env event
  { link with room := room, down := link.down ++ Backend.heard link.ws effects }

/-- An event of the sender, whose calls are under way then. -/
def atSender (link : Link) (event : Sender.Event) : Link :=
  let (sender, effects) := link.sender.handle event
  { link with sender := sender, up := link.up ++ Sender.signals effects }

/-- A receiver's events are those of other connections than the sender's. -/
def next (link : Link) : Event → Link
  | .connect roomHint tokenParam => link.atRoom engine env (.fetch roomHint tokenParam)
  | .receiver ws now uuid data =>
    if ws = link.ws then link
    else { link with issued := uuid :: link.issued }.atRoom engine env (.message ws now uuid data)
  | .closed ws => if ws = link.ws then link else link.atRoom engine env (.closed ws)
  | .toRoom now uuid =>
    match link.up with
    | [] => link
    | call :: later =>
      match decodeUtf8 call.text with
      -- a text frame that is no text is not delivered
      | none => { link with up := later }
      | some data => { link with up := later }.atRoom engine env (.message link.ws now uuid data)
  | .toSender now connected =>
    match link.down with
    | [] => link
    | frame :: later =>
      { link with down := later }.atSender (.message (utf8 (stringify frame)) now connected)
  | .own event _ => link.atSender event

/-- The sender has said hello in a room without records, and the hello has gone through. -/
def start (room : Room) (ws : Socket) (now : ℤ) (uuid : Uuid) (hello : Value) (fresh : Sender) :
    Link where
  room := ((room.armed engine env now hello).welcome ws uuid hello).1
  sender := fresh
  ws := ws
  up := []
  down := Backend.heard ws ((room.armed engine env now hello).welcome ws uuid hello).2
  issued := []

def after (start : Link) (events : List Event) : Link := run (next engine env) start events

theorem after_concat (start : Link) (events : List Event) (event : Event) :
    start.after engine env (events ++ [event]) =
      (start.after engine env events).next engine env event :=
  run_concat (next engine env) start events event

end

/-! ### In step -/

/-- The frame tells that this peer has left. -/
def Departs (peerId : Bytes) (frame : Value) : Prop :=
  Room.isType "peer_gone" frame ∧ Value.isStr (ofAscii peerId) (frame.get? (str "peer_id"))

instance (peerId : Bytes) : DecidablePred (Departs peerId) := fun _ =>
  inferInstanceAs (Decidable (_ ∧ _))

/-- The sender is going to hear that this peer has left. -/
def Leaving (link : Link) (peerId : Bytes) : Prop := ∃ frame ∈ link.down, Departs peerId frame

instance (link : Link) (peerId : Bytes) : Decidable (link.Leaving peerId) :=
  inferInstanceAs (Decidable (∃ frame ∈ link.down, _))

/-- The peer has a record that no reject or revoke under way will delete, or the sender is
going to hear that it has left. -/
def Survives (link : Link) (peerId : Bytes) : Prop :=
  (∃ g ∈ link.room.guests, g.id.text = peerId ∧ .reject peerId ∉ link.up ∧
    .revokeToken ∉ link.up) ∨ link.Leaving peerId

instance (link : Link) (peerId : Bytes) : Decidable (link.Survives peerId) :=
  inferInstanceAs (Decidable ((∃ g ∈ link.room.guests, _ ∧ _ ∧ _) ∨ _))

/-- An identifier, and not the sender's own. -/
def NamesGuest (link : Link) (peerId : Bytes) : Prop :=
  peerId.length = 36 ∧ (∀ b ∈ peerId, Backend.IsUuidByte b) ∧
    ∀ p ∈ link.room.peers, p.role = .sender → p.id.text ≠ peerId

instance (link : Link) (peerId : Bytes) : Decidable (link.NamesGuest peerId) :=
  inferInstanceAs (Decidable (_ ∧ (∀ b ∈ peerId, _) ∧ ∀ p ∈ link.room.peers, _ → _))

/-- The peer and the frame of a knock that a sender takes notice of. -/
def knock? : Option (SignalingEvent × Msg) → Option (Bytes × Bytes)
  | some (.requestPending, ⟨some peerId, some json⟩) => some (peerId, json)
  | _ => none

/-- The peer of a departure that a sender takes notice of. -/
def departure? : Option (SignalingEvent × Msg) → Option Bytes
  | some (.peerGone, ⟨some peerId, _⟩) => some peerId
  | _ => none

/-- A frame of the room is read by the sender as what it is, and a knock that meets a pin
is that of a peer that survives. -/
def Reads (link : Link) (frame : Value) : Prop :=
  (∀ knock ∈ knock? (raised frame), IsNotice frame ∧
    ((link.sender.adm.cfg.autoAcceptPinned &&
      link.sender.adm.pinMatches (Sender.textBuffer "fingerprint" knock.2)) = true →
        link.Survives knock.1)) ∧
  ∀ _peerId ∈ departure? (raised frame), IsNotice frame

instance : DecidablePred IsNotice := fun _ => inferInstanceAs (Decidable (_ ∨ _))

instance (link : Link) (frame : Value) : Decidable (link.Reads frame) :=
  inferInstanceAs (Decidable ((∀ knock ∈ _, _ ∧ (_ → _)) ∧ ∀ _peerId ∈ _, _))

/-- A frame of the sender is read by the room as what it is, and whom it sends away can be
reached. -/
def Obeys (engine : Engine) (link : Link) : Signal → Prop
  | .accept _ => True
  | .reject peerId =>
    ∀ g ∈ link.room.guests, g.id.text = peerId → link.room.IsOpen g.ws
  | .revokeToken =>
    (∀ g ∈ link.room.guests, link.room.IsOpen g.ws) ∧ (link.room.guests.map (·.ws)).Nodup
  | call => ∀ msg ∈ (decodeUtf8 call.text).bind (parse engine), ¬ Backend.Decides msg

instance (engine : Engine) (link : Link) : (call : Signal) → Decidable (link.Obeys engine call)
  | .accept _ => isTrue trivial
  | .reject _ => inferInstanceAs (Decidable (∀ g ∈ link.room.guests, _ → _))
  | .revokeToken => inferInstanceAs (Decidable ((∀ g ∈ link.room.guests, _) ∧ _))
  | .sendSdp .. | .sendIce .. => inferInstanceAs (Decidable (∀ msg ∈ Option.bind _ _, _))

/-- An event that leaves both sides in step. -/
def InStep (engine : Engine) (link : Link) : Event → Prop
  | .connect .. | .closed _ => True
  | .receiver ws now uuid data =>
    ∀ d ∈ link.room.received? engine (.message ws now uuid data), ¬ Backend.isSenderHello d.msg
  | .toRoom _ _ => ∀ call ∈ link.up.head?, link.Obeys engine call
  | .toSender _ _ => ∀ frame ∈ link.down.head?, link.Reads frame
  | .own event _ =>
    match event with
    | .accept peerId _ _ => link.sender.adm.Lists peerId → link.Survives peerId
    | .disconnectPeer peerId => link.NamesGuest peerId
    | .sessionState session state => Sender.WebrtcState.isOver state →
      ∀ r ∈ link.sender.sessions[session]?,
        link.sender.adm.Accepts r.peerId → link.Leaving r.peerId
    | _ => True

instance (engine : Engine) (link : Link) : (event : Event) → Decidable (link.InStep engine event)
  | .connect .. | .closed _ => isTrue trivial
  | .receiver .. => inferInstanceAs (Decidable (∀ d ∈ Room.received? _ _ _, _))
  | .toRoom _ _ => inferInstanceAs (Decidable (∀ call ∈ link.up.head?, _))
  | .toSender _ _ => inferInstanceAs (Decidable (∀ frame ∈ link.down.head?, _))
  | .own (.accept ..) _ => inferInstanceAs (Decidable (_ → _))
  | .own (.disconnectPeer peerId) _ => inferInstanceAs (Decidable (link.NamesGuest peerId))
  | .own (.sessionState ..) _ =>
    inferInstanceAs (Decidable (_ → ∀ r ∈ link.sender.sessions[_]?, _ → _))
  | .own (.message ..) _ | .own (.reject _) _ | .own .revokeToken _ | .own (.localSdp ..) _
  | .own (.localIce ..) _ | .own (.frame ..) _ => isTrue trivial

/-- `crypto.randomUUID()` returns an identifier that is new. -/
def FreshId (link : Link) : Event → Prop
  | .receiver _ _ uuid _ => uuid ∉ link.issued ∧ ∀ p ∈ link.room.peers, p.id ≠ uuid
  | _ => True

instance (link : Link) : (event : Event) → Decidable (link.FreshId event)
  | .receiver .. => inferInstanceAs (Decidable (_ ∧ ∀ p ∈ link.room.peers, _))
  | .connect .. | .closed _ | .toRoom .. | .toSender .. | .own .. => isTrue trivial

/-- The room has an accepted record of this receiver. -/
def RoomAccepts (link : Link) (peerId : Bytes) : Prop :=
  ∃ p ∈ link.room.peers, p.role = .receiver ∧ p.accepted = true ∧ p.id.text = peerId

end Link

end Tether.EndToEnd
