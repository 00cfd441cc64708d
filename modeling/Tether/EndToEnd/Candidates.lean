import Tether.EndToEnd.Frames
import Tether.EndToEnd.TokenGrammar

/-!
# Candidates from end to end

A candidate is put into its frame as it is. As long as it holds nothing that JSON would
escape, the room reads the frame as the object that it stands for and passes it on, and the
connection at the other end is given the candidate and the media identifier that went in.

## Main definitions

* `Paired` — the room's sender and a receiver that it has accepted
* `iceFrame` — the object of an `ice` frame

## Main results

* `relay_to_alias`, `relay_to_accepted` — where the room passes a frame of the exchange on
* `handleMessage_iceFrame`, `textMember_iceFrame` — what a client reads out of the object
* `candidate_to_receiver`, `candidate_to_sender` — candidates cross the room as they are
-/

namespace Tether.EndToEnd

open Text Js Plugin
open Backend (PeerConn Room Env Millis Uuid)

/-! ### The room -/

section Relay

variable {engine : Engine} {env : Env} {room : Room} {ws : ℕ} {tokenParam : Option Str}
  {source target : PeerConn} {msg : Value}

/-- The room relays a frame of the exchange that comes from a socket with a record. -/
theorem handle_exchange (listening : room.listeners.lookup ws = some tokenParam)
    (found : room.findPeerByWs ws = some source) {data : List Char}
    (parsed : parse engine data = some msg) (signal : Room.isSignal msg) (now : Millis)
    (uuid : Uuid) :
    room.handle engine env (.message ws now uuid data) = (room, room.relayToPeer source msg) := by
  have received : room.received? engine (.message ws now uuid data) =
      some ⟨ws, tokenParam, now, uuid, msg⟩ :=
    (Backend.received_message engine).mpr ⟨tokenParam, msg, listening, parsed,
      Backend.throws_of_not_hello engine (Backend.not_hello_of_signal signal), rfl⟩
  rw [Backend.handle_of_signal engine env received signal, found, Option.elim_some]

/-- A receiver's frame for the alias goes to the sender, in the receiver's name. -/
theorem relay_to_alias (receiver : source.role = .receiver) (byAlias : Room.isAlias msg)
    (opened : room.findSender = some target) :
    room.relayToPeer source msg = room.send target.ws (Room.attributed source msg) := by
  rw [Room.relayToPeer, if_pos (by rw [receiver, byAlias]; rfl), opened]

/-- The sender's frame for an accepted receiver goes there as it is. -/
theorem relay_to_accepted (sender : source.role = .sender)
    (addressed : msg.get? (str "peer_id") = some (.str target.id.str))
    (known : Backend.getPeer (some (.str target.id.str)) room.peers = some target)
    (receiver : target.role = .receiver) (accepted : target.accepted) :
    room.relayToPeer source msg = room.send target.ws msg := by
  have present : Value.isFalsy (some (.str target.id.str)) = false := by
    rw [Value.isFalsy, List.isEmpty_eq_false_iff]
    exact target.id.str_ne_nil
  rw [Room.relayToPeer, addressed, present, known]
  simp [sender, receiver, accepted]

/-- A message to a socket that is open is sent. -/
theorem send_of_isOpen (isOpen : room.IsOpen ws) (msg : Value) :
    room.send ws msg = [.send ws msg] := by
  rw [Room.send, Room.trySend, if_pos isOpen, Option.getD_some]

/-- A socket that is open is listened to. -/
theorem listens_of_isOpen (isOpen : room.IsOpen ws) :
    ∃ tokenParam, room.listeners.lookup ws = some tokenParam := by
  obtain ⟨⟨listener, param⟩, listed, rfl⟩ := List.mem_map.mp isOpen.1
  cases found : room.listeners.lookup listener with
  | some tokenParam => exact ⟨tokenParam, rfl⟩
  | none =>
    rw [List.lookup_eq_none_iff] at found
    simpa using found _ listed

end Relay

/-- The sender of a room and a receiver that it has accepted, both connected. -/
structure Paired (room : Room) (host guest : PeerConn) : Prop where
  sender : host.role = .sender
  receiver : guest.role = .receiver
  accepted : guest.accepted
  opened : room.findSender = some host
  known : Backend.getPeer (some (.str guest.id.str)) room.peers = some guest
  hostFound : room.findPeerByWs host.ws = some host
  guestFound : room.findPeerByWs guest.ws = some guest
  hostOpen : room.IsOpen host.ws
  guestOpen : room.IsOpen guest.ws

namespace Paired

variable {engine : Engine} {env : Env} {room : Room} {host guest : PeerConn} {msg : Value}

/-- The sender's frame for the receiver goes to the receiver. -/
theorem to_receiver (paired : Paired room host guest) {data : List Char}
    (parsed : parse engine data = some msg) (signal : Room.isSignal msg)
    (addressed : msg.get? (str "peer_id") = some (.str guest.id.str)) (now : Millis)
    (uuid : Uuid) :
    room.handle engine env (.message host.ws now uuid data) = (room, [.send guest.ws msg]) := by
  obtain ⟨tokenParam, listening⟩ := listens_of_isOpen paired.hostOpen
  rw [handle_exchange listening paired.hostFound parsed signal,
    relay_to_accepted paired.sender addressed paired.known paired.receiver paired.accepted,
    send_of_isOpen paired.guestOpen]

/-- The receiver's frame for the alias goes to the sender. -/
theorem to_sender (paired : Paired room host guest) {data : List Char}
    (parsed : parse engine data = some msg) (signal : Room.isSignal msg)
    (byAlias : Room.isAlias msg) (now : Millis) (uuid : Uuid) :
    room.handle engine env (.message guest.ws now uuid data) =
      (room, [.send host.ws (Room.attributed guest msg)]) := by
  obtain ⟨tokenParam, listening⟩ := listens_of_isOpen paired.guestOpen
  rw [handle_exchange listening paired.guestFound parsed signal,
    relay_to_alias paired.receiver byAlias paired.opened, send_of_isOpen paired.hostOpen]

end Paired

/-! ### The frame -/

/-- The object of an `ice` frame. -/
def iceFrame (peerId : Str) (candidate mid : List Char) (mlineIndex : ℤ) : Value :=
  .obj [(str "type", .str (str "ice")), (str "peer_id", .str peerId),
    (str "candidate", .str (utf16 candidate)), (str "mid", .str (utf16 mid)),
    (str "mline", .num (integer mlineIndex))]

section Frame

variable {candidate mid : List Char}

/-- The room reads a frame of plain texts as its object. -/
theorem parse_sendIce {engine : Engine} {mlineIndex : ℤ} {peerId : Bytes}
    (ascii : ∀ b ∈ peerId, b.toNat < 128)
    (plainPeer : Plain (spell peerId)) (plainCandidate : Plain candidate) (plainMid : Plain mid)
    (reads : engine.numeral (integer mlineIndex).text = integer mlineIndex) :
    ∃ data, decodeUtf8 (Signal.sendIce peerId (utf8 candidate) (utf8 mid) mlineIndex).text =
        some data ∧
      parse engine data = some (iceFrame (ofAscii peerId) candidate mid mlineIndex) := by
  have numbers : ReadsNumbers engine
      (Frame.sendIce (spell peerId) candidate mid mlineIndex).members := by
    intro member listed n field
    simp only [Frame.members, List.mem_cons, List.not_mem_nil, or_false] at listed
    rcases listed with rfl | rfl | rfl | rfl | rfl
    all_goals cases field
    exact reads
  have parsed := (parse_frame_iff _ numbers).mpr
    ⟨plainPeer, plainCandidate, plainMid⟩
  have text : (Frame.sendIce (spell peerId) candidate mid mlineIndex).text =
      (Signal.sendIce peerId (utf8 candidate) (utf8 mid) mlineIndex).text := by
    rw [Frame.text, utf8_spell ascii]
  have object : (Frame.sendIce (spell peerId) candidate mid mlineIndex).object =
      iceFrame (ofAscii peerId) candidate mid mlineIndex := by
    rw [← utf16_spell ascii]
    rfl
  rw [text, object] at parsed
  obtain ⟨data, decoded, read⟩ := Option.bind_eq_some_iff.mp parsed
  exact ⟨data, decoded, read⟩

/-- The client sees a candidate, under the frame's `peer_id`. -/
theorem handleMessage_iceFrame (id : Uuid) (candidate mid : List Char) (mlineIndex : ℤ) :
    handleMessage (utf8 (stringify (iceFrame id.str candidate mid mlineIndex))) =
      some (.iceCandidate,
        ⟨some id.text, some (utf8 (stringify (iceFrame id.str candidate mid mlineIndex)))⟩) := by
  have type : firstHit (str "type") (iceFrame id.str candidate mid mlineIndex) =
      some (str "ice") := rfl
  have peer : firstHit (str "peer_id") (iceFrame id.str candidate mid mlineIndex) =
      some id.str := rfl
  rw [handleMessage_stringify, raised_of_ice type, peer, Option.map_some, body_uuid]

/-- A plain text is read up to its closing quote. -/
theorem upToQuote_of_plain {text : List Char} (plain : Plain text) :
    Sender.upToQuote (utf16 text) = utf8 text := by
  have whole : body (utf16 text) = utf8 text := by rw [body, quoteBody_of_plain plain]
  rw [Sender.upToQuote, whole]
  refine List.takeWhile_eq_self_iff.mpr fun b member => ?_
  obtain ⟨c, inText, inChar⟩ := List.mem_flatMap.mp member
  exact bne_iff_ne.mpr (clean_of_mem_utf8EncodeChar (plain c inText) inChar).2.1

theorem textMember_iceFrame (peerId : Str) (mlineIndex : ℤ) (plainCandidate : Plain candidate)
    (plainMid : Plain mid) :
    Sender.textMember "candidate" (utf8 (stringify (iceFrame peerId candidate mid mlineIndex))) =
        some (utf8 candidate) ∧
      Sender.textMember "mid" (utf8 (stringify (iceFrame peerId candidate mid mlineIndex))) =
        some (utf8 mid) := by
  have first : firstHit (ofAscii (bytes "candidate"))
      (iceFrame peerId candidate mid mlineIndex) = some (utf16 candidate) := rfl
  have second : firstHit (ofAscii (bytes "mid"))
      (iceFrame peerId candidate mid mlineIndex) = some (utf16 mid) := rfl
  constructor
  · rw [Sender.textMember_stringify (by decide) (by decide), first, Option.map_some,
      upToQuote_of_plain plainCandidate]
  · rw [Sender.textMember_stringify (by decide) (by decide), second, Option.map_some,
      upToQuote_of_plain plainMid]

end Frame

/-! ### The round trip -/

/-- The bytes of an identifier are plain characters. -/
theorem plain_spell_uuid (id : Uuid) : Plain (spell id.text) := by
  have plain : ∀ n < 256, Backend.IsUuidByte (UInt8.ofNat n) →
      ¬ Special (Char.ofNat (UInt8.ofNat n).toNat) := by
    decide +kernel
  intro c member
  obtain ⟨b, inText, rfl⟩ := List.mem_map.mp member
  have digit := id.digits b inText
  rw [← UInt8.ofNat_toNat (x := b)] at digit ⊢
  exact plain b.toNat b.toNat_lt digit

theorem ascii_uuid (id : Uuid) : ∀ b ∈ id.text, b.toNat < 128 := by
  intro b member
  rcases id.digits b member with ⟨-, high⟩ | ⟨-, high⟩ | rfl
  · omega
  · omega
  · decide

section RoundTrip

variable {engine : Engine} {env : Env} {room : Room} {host guest : PeerConn}
  {candidate mid : List Char} {mlineIndex : ℤ}

/-- A candidate that a session of the sender reports reaches the receiver's connection. -/
theorem candidate_to_receiver (paired : Paired room host guest) (plainCandidate : Plain candidate)
    (plainMid : Plain mid) (reads : engine.numeral (integer mlineIndex).text = integer mlineIndex)
    {s : Sender} {i : ℕ} {r : Session} (session : s.sessions[i]? = some r)
    (named : r.peerId = guest.id.text) (now : Millis) (uuid : Uuid) :
    ∃ call data frame,
      s.handle (.localIce i (utf8 candidate) (utf8 mid) mlineIndex) = (s, [.signal call]) ∧
      decodeUtf8 call.text = some data ∧
      room.handle engine env (.message host.ws now uuid data) = (room, [.send guest.ws frame]) ∧
      ∀ state, ReceiveSession.onMessage state (utf8 (stringify frame)) =
        (state, [.addRemoteIce (utf8 candidate) (utf8 mid)]) := by
  obtain ⟨data, decoded, parsed⟩ := parse_sendIce (ascii_uuid guest.id)
    (plain_spell_uuid guest.id) plainCandidate plainMid reads
  refine ⟨.sendIce guest.id.text (utf8 candidate) (utf8 mid) mlineIndex, data,
    iceFrame guest.id.str candidate mid mlineIndex, ?_, decoded, ?_, fun state => ?_⟩
  · simp only [Sender.handle, session, named]
  · exact paired.to_receiver parsed rfl rfl now uuid
  · obtain ⟨cand, line⟩ := textMember_iceFrame guest.id.str mlineIndex plainCandidate
      plainMid
    rw [ReceiveSession.onMessage, handleMessage_iceFrame]
    simp only [ReceiveSession.signalingEvent, Option.bind_some, cand, line]

/-- A candidate that the receiver reports reaches the connection of its session. -/
theorem candidate_to_sender (paired : Paired room host guest) (plainCandidate : Plain candidate)
    (plainMid : Plain mid) (reads : engine.numeral (integer mlineIndex).text = integer mlineIndex)
    {s : Sender} {r : Session} {wrtc : ℕ} (session : s.findSession guest.id.text = some r)
    (live : r.wrtc = some wrtc) (now : Millis) (uuid : Uuid) :
    ∃ data frame,
      decodeUtf8 (ReceiveSession.wrtcLocalIce (utf8 candidate) (utf8 mid) mlineIndex).text =
        some data ∧
      room.handle engine env (.message guest.ws now uuid data) = (room, [.send host.ws frame]) ∧
      ∀ clock connected, s.onMessage (utf8 (stringify frame)) clock connected =
        (s, [.addRemoteIce wrtc (utf8 candidate) (utf8 mid)]) := by
  have ascii : ∀ b ∈ bytes "sender", b.toNat < 128 := by decide
  obtain ⟨data, decoded, parsed⟩ := parse_sendIce ascii (by decide) plainCandidate plainMid reads
  refine ⟨data, iceFrame guest.id.str candidate mid mlineIndex, decoded, ?_,
    fun clock connected => ?_⟩
  · exact paired.to_sender parsed rfl rfl now uuid
  · obtain ⟨cand, line⟩ := textMember_iceFrame guest.id.str mlineIndex plainCandidate
      plainMid
    have same : (Sender.findSession { s with sig := s.sig } guest.id.text) = some r := session
    rw [Sender.onMessage, handleMessage_iceFrame]
    simp only [Signaling.keepToken, Sender.onSignalingEvent, same, Option.bind_some, live, cand,
      line]

end RoundTrip

end Tether.EndToEnd
