import Tether.Backend.Relay
import Tether.EndToEnd.Delivery

/-!
# Who a frame comes from

The room sets the `peer_id` of a receiver's frame and serialises the object again,
with all the other members that the receiver chose. The sender's client takes the
first textual match instead, so an earlier match decides what the sender sees.

## Main definitions

* `Attributed` — the client raises the frame's own event, under the id of the
  record that the frame comes from
* `Unambiguous` — no earlier match in the object says otherwise

## Main results

* `attributed_iff` — a receiver's frame is attributed exactly when it is unambiguous
* `spoofed_identity` — a nested `peer_id` is taken for the room's
-/

namespace Tether.EndToEnd

open Text Js Plugin
open Backend (PeerConn Room addressee)

/-! ### Attribution -/

/-- The members in front of the object's own `peer_id`; all of them if it has none. -/
def beforePeerId : Value → List (Str × Value)
  | .obj members => members.takeWhile (·.1 ≠ str "peer_id")
  | _ => []

/-- The frame's own type. -/
def frameType (msg : Value) : Option Str :=
  match msg.get? (str "type") with
  | some (.str type) => some type
  | _ => none

/-- The first string member, at any depth, that can be taken for `type` holds the
frame's own type; and the members in front of the frame's own `peer_id` hold no
string member that can be taken for it, or it names the source. -/
def Unambiguous (source : PeerConn) (msg : Value) : Prop :=
  firstHit (str "type") msg = frameType msg ∧
    (firstHitMembers (str "peer_id") (beforePeerId msg)).all (· = source.id.str)

/-- The event of a frame of this type. -/
def Carries (evt : SignalingEvent) (msg : Value) : Prop :=
  Room.isType "sdp" msg ∧ (evt = .sdpOffer ∨ evt = .sdpAnswer) ∨
    Room.isType "ice" msg ∧ evt = .iceCandidate

/-- What the client raises is the event of the receiver's frame `msg`, and names
the record that the frame comes from. -/
def Attributed (source : PeerConn) (msg frame : Value) : Prop :=
  ∃ evt m, handleMessage (utf8 (stringify frame)) = some (evt, m) ∧
    m.peerId = some source.id.text ∧ Carries evt msg

/-! ### What the room sends -/

/-- A frame that is addressed to somebody says so with a text, or not at all. -/
theorem firstHit_peerId {room : Room} {source target : PeerConn} {msg value : Value}
    (addressed : addressee room source msg = some target)
    (held : msg.get? (str "peer_id") = some value) (name : Str) : firstHit name value = none := by
  have plain (isText : Value.isFalsy (some value) ∨ ∃ s, value = .str s) :
      firstHit name value = none := by
    cases value with
    | arr elements | obj members => simp [Value.isFalsy] at isText
    | _ => rfl
  rw [addressee, held] at addressed
  split_ifs at addressed with byAlias
  · rw [Bool.and_eq_true, Room.isAlias, held, Bool.or_eq_true] at byAlias
    refine plain (byAlias.2.imp_right fun alias' => ?_)
    exact ⟨_, Option.some.inj (Value.isStr_iff.mp alias')⟩
  · have named := (Backend.getPeer_some addressed).2
    exact plain (.inr ⟨_, Option.some.inj named⟩)

section Attributed

variable {room : Room} {source target : PeerConn} {members : List (Str × Value)}

/-- The room's own `peer_id` is found, unless something in front of it is. -/
theorem firstHit_attributed_peerId :
    firstHit (str "peer_id") (Room.attributed source (.obj members)) =
      (firstHitMembers (str "peer_id") (beforePeerId (.obj members))).or (some source.id.str) := by
  have hit (rest : List (Str × Value)) : firstHitMembers (str "peer_id")
      ((str "peer_id", .str source.id.str) :: rest) = some source.id.str := by
    have self : hits (str "peer_id") (str "peer_id") = true := by decide
    simp [firstHitMembers, hitMember, self]
  rw [Room.attributed, firstHit, setMember_eq, firstHitMembers_append, hit, beforePeerId]

theorem firstHit_attributed_type
    (addressed : addressee room source (.obj members) = some target) :
    firstHit (str "type") (Room.attributed source (.obj members)) =
      firstHit (str "type") (.obj members) := by
  rw [Room.attributed, firstHit, firstHit]
  exact firstHitMembers_setMember_of_ne (by decide) rfl
    fun value held => firstHit_peerId addressed held (str "type")

end Attributed

/-- The client shows the id that the lookup finds. -/
theorem named_iff {id : Backend.Uuid} (before : Option Str) :
    (before.or (some id.str)).map body = some id.text ↔ before.all (· = id.str) := by
  cases before with
  | none => simp [body_uuid]
  | some s =>
    rw [Option.some_or, Option.map_some, Option.all_some, ← body_uuid id, Option.some.injEq,
      body_injective.eq_iff, decide_eq_true_eq]

theorem frameType_of_isType {type : String} {msg : Value} (isType : Room.isType type msg) :
    frameType msg = some (str type) := by
  rw [frameType, Value.isStr_iff.mp isType]

/-- A frame that raises an event of the frame it is made from, for each of the two
types of frames. -/
theorem carried_iff {msg frame : Value} (signal : Room.isSignal msg) (id : Bytes) :
    (∃ evt m, handleMessage (utf8 (stringify frame)) = some (evt, m) ∧ m.peerId = some id ∧
        Carries evt msg) ↔
      firstHit (str "type") frame = frameType msg ∧
        (firstHit (str "peer_id") frame).map body = some id := by
  simp only [handleMessage_stringify]
  constructor
  · rintro ⟨evt, m, event, named, carries⟩
    obtain ⟨sdp, ice⟩ := type_of_raised event
    rcases carries with ⟨isType, shape⟩ | ⟨isType, shape⟩
    · rw [raised_of_sdp (sdp shape)] at event
      obtain ⟨-, rfl⟩ := Prod.mk.inj (Option.some.inj event)
      exact ⟨(sdp shape).trans (frameType_of_isType isType).symm, named⟩
    · rw [raised_of_ice (ice shape)] at event
      obtain ⟨-, rfl⟩ := Prod.mk.inj (Option.some.inj event)
      exact ⟨(ice shape).trans (frameType_of_isType isType).symm, named⟩
  · rintro ⟨type, named⟩
    rcases Bool.or_eq_true_iff.mp signal with isType | isType
    · rw [frameType_of_isType isType] at type
      refine ⟨_, _, raised_of_sdp type, named, .inl ⟨isType, ?_⟩⟩
      split_ifs
      · exact .inl rfl
      · exact .inr rfl
    · rw [frameType_of_isType isType] at type
      exact ⟨_, _, raised_of_ice type, named, .inr ⟨isType, rfl⟩⟩

/-- Whatever frame gets to the sender, the sender's client attributes it to the
record that it comes from exactly when it is unambiguous. -/
theorem attributed_iff {room : Room} {source target : PeerConn} {msg frame : Value} {ws : ℕ}
    (signal : Room.isSignal msg) (addressed : addressee room source msg = some target)
    (sender : target.role = .sender) (sent : .send ws frame ∈ room.relayToPeer source msg) :
    Attributed source msg frame ↔ Unambiguous source msg := by
  obtain ⟨members, rfl⟩ : ∃ members, msg = .obj members := by
    cases msg with
    | obj members => exact ⟨members, rfl⟩
    | _ => simp [Room.isSignal, Room.isType, Value.get?, Value.isStr] at signal
  obtain ⟨other, -, same, effect, -⟩ := Backend.mem_relayToPeer sent
  obtain rfl : target = other := Option.some.inj (addressed.symm.trans same)
  rw [if_pos sender] at effect
  obtain ⟨-, rfl⟩ := Backend.Effect.send.inj effect
  rw [Attributed, carried_iff signal, firstHit_attributed_type addressed,
    firstHit_attributed_peerId, named_iff, Unambiguous]

/-! ### A sample -/

/-- The room in which a sender and a receiver have said hello. -/
def sampleRoom : Room := Backend.after asciiEngine .deployed Backend.knocked

private theorem sampleRoom_peers :
    (∃ source, sampleRoom.findPeerByWs 1 = some source ∧ source.role = .receiver ∧
      source.id = Backend.numbered 1) ∧
    ∃ sender, sampleRoom.findSender = some sender ∧ sender.ws = 0 ∧ sender.role = .sender := by
  have receiver : (sampleRoom.findPeerByWs 1).any
      (fun p => p.role = .receiver && p.id = Backend.numbered 1) = true := by
    decide +kernel
  have sender : sampleRoom.findSender.any (fun p => p.ws = 0 && p.role = .sender) = true := by
    decide +kernel
  obtain ⟨source, found, isReceiver⟩ := (Option.any_eq_true ..).mp receiver
  obtain ⟨target, first, isSender⟩ := (Option.any_eq_true ..).mp sender
  simp only [Bool.and_eq_true, decide_eq_true_eq] at isReceiver isSender
  exact ⟨⟨source, found, isReceiver⟩, target, first, isSender⟩

/-- The sample's sender gets every frame without an addressee. -/
private theorem sample_sent {source : PeerConn} (receiver : source.role = .receiver) {msg : Value}
    (isAlias : Room.isAlias msg) :
    ∃ target, addressee sampleRoom source msg = some target ∧ target.role = .sender ∧
      .send 0 (Room.attributed source msg) ∈ sampleRoom.relayToPeer source msg := by
  obtain ⟨-, target, first, socket, sender⟩ := sampleRoom_peers
  have byAlias : (source.role = .receiver && Room.isAlias msg) = true := by
    simp [receiver, isAlias]
  have isOpen : sampleRoom.IsOpen 0 := by decide +kernel
  refine ⟨target, by rw [addressee, if_pos byAlias, first], sender, ?_⟩
  rw [Room.relayToPeer, if_pos byAlias, first]
  simp [socket, Room.send, Room.trySend, isOpen]

/-- An answer as the client writes it. -/
def sampleAnswer : Value :=
  Backend.message "sdp" [("peer_id", .str (str "sender")), ("sdp_type", .str (str "answer")),
    ("sdp", .str (str "v=0"))]

theorem attributed_iff_sampleAnswer :
    ∃ source, sampleRoom.findPeerByWs 1 = some source ∧
      (Attributed source sampleAnswer (Room.attributed source sampleAnswer) ↔
        Unambiguous source sampleAnswer) ∧ Unambiguous source sampleAnswer := by
  obtain ⟨source, found, receiver, id⟩ := sampleRoom_peers.1
  obtain ⟨target, addressed, sender, sent⟩ :=
    sample_sent receiver (by decide +kernel : Room.isAlias sampleAnswer)
  refine ⟨source, found, attributed_iff (by decide +kernel) addressed sender sent, ?_⟩
  constructor
  · decide +kernel
  · rw [id]
    decide +kernel

/-! ### An earlier match -/

/-- A frame with another id in a nested object. -/
def spoof : Value :=
  .obj [(str "type", .str (str "sdp")),
    (str "x", .obj [(str "peer_id", .str (Backend.numbered 9).str)]),
    (str "sdp", .str (str "v=0"))]

/-- The sender's client takes the nested id for the room's, which comes last. -/
theorem spoofed_identity :
    ∃ source, sampleRoom.findPeerByWs 1 = some source ∧ source.role = .receiver ∧
      .send 0 (Room.attributed source spoof) ∈ sampleRoom.relayToPeer source spoof ∧
      ¬ Attributed source spoof (Room.attributed source spoof) := by
  obtain ⟨source, found, receiver, id⟩ := sampleRoom_peers.1
  obtain ⟨-, -, -, sent⟩ := sample_sent receiver (by decide +kernel : Room.isAlias spoof)
  refine ⟨source, found, receiver, sent, ?_⟩
  have nested : firstHit (str "peer_id") (Room.attributed source spoof) =
      some (Backend.numbered 9).str := by
    rw [spoof, firstHit_attributed_peerId]
    rfl
  have other : (Backend.numbered 9).text ≠ (Backend.numbered 1).text := by decide
  rw [Attributed, carried_iff (by decide +kernel), nested, Option.map_some, body_uuid, id]
  exact fun spoofed => other (Option.some.inj spoofed.2)

end Tether.EndToEnd
