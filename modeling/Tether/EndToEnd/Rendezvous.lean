import Tether.EndToEnd.Agreement
import Tether.EndToEnd.Candidates
import Tether.EndToEnd.KnockData

/-!
# The rendezvous

A user types the token of a sender that is waiting in its room. From the receiver's hello to
the candidates, every frame of the meeting is one that the next party understands: the sender
is told of the receiver, the receiver of the decision, and what the connections of the two
have to say to each other reaches the connection at the other end.

## Main definitions

* `Awaits` — a room in which a receiver of this token will be let in
* `joined` — the room with one more record
* `Meeting` — the exchange, from the hello to a pair that is connected

## Main results

* `handle_knock`, `handle_decision` — the room's part
* `enter_pending`, `enter_accepted` — the sender's part
* `rendezvous` — whoever types the token of a waiting sender meets it
-/

namespace Tether.EndToEnd

open Text Js Plugin
open Backend (PeerConn Room Env Millis Uuid Socket Hosts)

/-! ### The room -/

/-- A room of this token, with its sender, that lets a new receiver in at this time. -/
structure Awaits (room : Room) (host : PeerConn) (token : Token) (ws : Socket) (now : Millis)
    (id : Uuid) : Prop where
  hosts : Hosts room host
  token : room.token = some (ofAscii token.text)
  inTime : ¬ Number.gt (.fin now) room.expiresAt
  unlocked : ¬ (now : ℤ) < room.lockedOutUntil
  isOpen : room.IsOpen ws
  unknown : ∀ p ∈ room.peers, p.ws ≠ ws ∧ p.id ≠ id

/-- The room with one more record. -/
def joined (room : Room) (guest : PeerConn) : Room :=
  { room with peers := room.peers ++ [guest] }

section Room

variable {engine : Engine} {room : Room} {host guest : PeerConn} {token : Token} {ws : Socket}
  {now : Millis} {id : Uuid}

theorem ofAscii_text_ne_nil (token : Token) : ofAscii token.text ≠ [] := by
  intro empty
  have length := congrArg List.length empty
  rw [ofAscii, List.length_map, Token.text_length] at length
  cases length

theorem findSender_joined (awaits : Awaits room host token ws now id) (guest : PeerConn) :
    (joined room guest).findSender = some host := by
  rw [joined, Room.findSender, List.find?_append, ← Room.findSender, awaits.hosts.findSender,
    Option.some_or]

theorem findPeerByWs_joined (awaits : Awaits room host token ws now id) (guest : PeerConn) :
    (joined room guest).findPeerByWs host.ws = some host := by
  rw [joined, Room.findPeerByWs, List.find?_append, ← Room.findPeerByWs, awaits.hosts.findPeerByWs,
    Option.some_or]

/-- No other record has this identifier. -/
theorem getPeer_joined (awaits : Awaits room host token ws now id) (named : guest.id = id) :
    Backend.getPeer (some (.str id.str)) (joined room guest).peers = some guest := by
  have absent : room.peers.find? (fun p => Value.isStr p.id.str (some (.str id.str))) = none := by
    refine List.find?_eq_none.mpr fun p member same => (awaits.unknown p member).2 ?_
    rw [Value.isStr_some_str, decide_eq_true_eq] at same
    exact Backend.Uuid.str_injective same.symm
  rw [Backend.getPeer, joined, List.find?_append, absent, Option.none_or]
  exact List.find?_cons_of_pos (by simp [named])

/-- The room lets the receiver's hello in. -/
theorem Awaits.admitted (reads : ReadsAscii engine) (awaits : Awaits room host token ws now id)
    (tokenParam : Option Str) :
    Backend.Admitted engine room tokenParam now (helloValue engine (ofAscii token.text)) := by
  have claimed : Room.claimed engine tokenParam (helloValue engine (ofAscii token.text)) =
      some (ofAscii token.text) := by
    have member : (helloValue engine (ofAscii token.text)).get? (str "token") =
        some (.str (ofAscii token.text)) := rfl
    rw [Room.claimed, member]
    exact congrArg some (toUpperCase_text reads token)
  have named : room.noToken = false := by
    rw [Room.noToken, awaits.token, Option.getD_some, decide_eq_false (ofAscii_text_ne_nil token)]
  refine ⟨_, claimed, ?_, awaits.inTime, awaits.unlocked⟩
  simp [named, awaits.token]

/-- The record of a receiver joins those that are there. -/
theorem setPeer_of_unknown (awaits : Awaits room host token ws now id) (hello : Value) :
    Backend.setPeer (Room.receiverRecord id ws hello) room.peers =
      room.peers ++ [Room.receiverRecord id ws hello] :=
  Backend.setPeer_of_fresh fun q member => (awaits.unknown q member).2

/-- The sender is told of the receiver. -/
theorem handle_knock (reads : ReadsAscii engine) (env : Env)
    (awaits : Awaits room host token ws now id) :
    ∃ data, decodeUtf8 (helloText (ReceiveSession.signaling token.text)) = some data ∧
      room.handle engine env (.message ws now id data) =
        (joined room (Room.receiverRecord id ws (helloValue engine (ofAscii token.text))),
          [.send host.ws (Backend.pending id (helloValue engine (ofAscii token.text)))]) := by
  refine ⟨stringify (helloValue engine (ofAscii token.text)), ?_, ?_⟩
  · rw [helloText_eq reads, decodeUtf8_utf8]
  · obtain ⟨tokenParam, listening⟩ := listens_of_isOpen awaits.isOpen
    have received : room.received? engine
        (.message ws now id (stringify (helloValue engine (ofAscii token.text)))) =
          some ⟨ws, tokenParam, now, id, helloValue engine (ofAscii token.text)⟩ :=
      (Backend.received_message engine).mpr ⟨tokenParam, _, listening, parse_helloValue reads _,
        Backend.throws_of_not_hello engine rfl, rfl⟩
    have isOpen : (joined room (Room.receiverRecord id ws
        (helloValue engine (ofAscii token.text)))).IsOpen host.ws := awaits.hosts.isOpen
    rw [Backend.handle_of_receiverHello engine env received rfl,
      Backend.receiverHello_of_admitted (awaits.admitted reads tokenParam),
      setPeer_of_unknown awaits]
    change (joined room _, (joined room _).notify _) = _
    rw [Room.notify, findSender_joined awaits, Option.elim_some, send_of_isOpen isOpen]

/-- The sender's acceptance marks the record, and the receiver hears of it. -/
theorem handle_decision (engine : Engine) (env : Env)
    (awaits : Awaits room host token ws now id) (named : guest.id = id) (socket : guest.ws = ws)
    (receiver : guest.role = .receiver) (later : Millis) (uuid : Uuid) :
    ∃ data, decodeUtf8 (Signal.accept id.text).text = some data ∧
      (joined room guest).handle engine env (.message host.ws later uuid data) =
        (joined room { guest with accepted := true }, [.send ws Backend.accepted]) := by
  refine ⟨stringify (Link.decisionFrame "accept" id), ?_, ?_⟩
  · rw [Signal.text, Link.text_decision "accept" (by decide) (by decide), decodeUtf8_utf8]
  · have isOpen : (joined room guest).IsOpen host.ws := awaits.hosts.isOpen
    obtain ⟨tokenParam, listening⟩ := listens_of_isOpen isOpen
    have received : (joined room guest).received? engine
        (.message host.ws later uuid (stringify (Link.decisionFrame "accept" id))) =
          some ⟨host.ws, tokenParam, later, uuid, Link.decisionFrame "accept" id⟩ :=
      (Backend.received_message engine).mpr ⟨tokenParam, _, listening,
        parse_stringify engine (Link.canonical_decision engine _ id),
        Backend.throws_of_not_hello engine (Link.not_hello_decision (by decide) id), rfl⟩
    have marked : Backend.markAccepted guest.id (joined room guest).peers =
        room.peers ++ [{ guest with accepted := true }] := by
      rw [joined, Backend.markAccepted, List.map_append, List.map_singleton, if_pos rfl,
        List.append_left_inj]
      refine (List.map_congr_left fun p member => ?_).trans (List.map_id _)
      rw [named]
      exact if_neg (awaits.unknown p member).2
    have reached : (joined room { guest with accepted := true }).IsOpen ws := awaits.isOpen
    have present := Hosts.not_falsy (Link.named_decision "accept" id)
    rw [Link.named_decision] at present
    have decides : (joined room guest).handleAccept host (Link.decisionFrame "accept" id) =
        ({ joined room guest with peers := Backend.markAccepted guest.id (joined room guest).peers },
          Room.send { joined room guest with
            peers := Backend.markAccepted guest.id (joined room guest).peers } guest.ws
              Backend.accepted) := by
      rw [Room.handleAccept, Link.named_decision, getPeer_joined awaits named]
      simp [awaits.hosts.role, present, receiver]
    rw [Hosts.handle_of_accept received (Link.isType_decision "accept" id),
      findPeerByWs_joined awaits, Option.elim_some, decides, marked, socket]
    exact congrArg (Prod.mk _) (send_of_isOpen reached _)

/-- Then the two are a pair. -/
theorem paired_joined (awaits : Awaits room host token ws now id) {guest : PeerConn}
    (named : guest.id = id) (socket : guest.ws = ws) (receiver : guest.role = .receiver)
    (accepted : guest.accepted) : Paired (joined room guest) host guest where
  sender := awaits.hosts.role
  receiver := receiver
  accepted := accepted
  opened := findSender_joined awaits guest
  known := by
    rw [named]
    exact getPeer_joined awaits named
  hostFound := findPeerByWs_joined awaits guest
  guestFound := by
    have absent : room.peers.find? (·.ws = guest.ws) = none := by
      refine List.find?_eq_none.mpr fun p member same => (awaits.unknown p member).1 ?_
      exact (of_decide_eq_true same).trans socket
    rw [joined, Room.findPeerByWs, List.find?_append, absent, Option.none_or]
    exact List.find?_cons_of_pos (by simp)
  hostOpen := awaits.hosts.isOpen
  guestOpen := by
    rw [socket]
    exact awaits.isOpen

end Room

/-! ### The sender -/

section Sender

variable {s : Sender} {clock : UInt64} {id : Uuid}

/-- The entry of the receiver waits for a decision. -/
theorem enter_pending (engine : Engine) (token : Str) (admits : s.adm.Admits id.text clock)
    (unpinned : (s.adm.cfg.autoAcceptPinned && s.adm.pinMatches []) = false)
    (connected : Connected) :
    ∃ s' : Sender, s.handle (.message
        (utf8 (stringify (Backend.pending id (helloValue engine token)))) clock connected) =
          (s', [.onPending id.text (bytes "Tether") []]) ∧
      s'.adm.findPeer id.text = some (Admission.newPeer id.text (bytes "Tether") [] clock) ∧
      s'.sessions = s.sessions ∧ s'.connections = s.connections := by
  let k : Knock := ⟨id, helloValue engine token, trivial, trivial⟩
  have name : Sender.textBuffer "name" k.frame = bytes "Tether" := by
    have called : k.called = str "Tether" := rfl
    rw [k.nameBuffer_frame, called]
    decide +kernel
  have fingerprint : Sender.textBuffer "fingerprint" k.frame = [] := by
    have announced : k.announced = [] := rfl
    rw [textBuffer_frame, announced]
    rfl
  -- the store lets the peer in, and no pin speaks for it
  have added := (Admission.admits_iff (bytes "Tether") [] clock).mp admits
  obtain ⟨-, ⟨-, refused⟩ | ⟨peers, notified, unknown, -⟩⟩ :=
    s.adm.addPending_cases id.text (bytes "Tether") [] clock
  · rw [refused] at added
    cases added
  have entry : s.adm.knockedPeer id.text (bytes "Tether") [] clock =
      Admission.newPeer id.text (bytes "Tether") [] clock := by
    rw [Admission.knockedPeer, unpinned]
    rfl
  rw [entry] at peers notified
  obtain ⟨adm, called⟩ : ∃ adm, s.adm.addPending id.text (bytes "Tether") [] clock =
      (adm, some (Admission.newPeer id.text (bytes "Tether") [] clock)) :=
    ⟨_, Prod.ext rfl notified⟩
  rw [called] at peers
  have performed : s.callAdmission (.addPending id.text (bytes "Tether") [] clock) connected =
      ({ s with adm := adm }, []) := by
    rw [Sender.callAdmission, Admission.perform, called]
    rfl
  refine ⟨{ s with adm := adm }, ?_, ?_, rfl, rfl⟩
  · change s.handle (.message k.frame clock connected) = _
    rw [Sender.handle, Sender.onMessage, handleMessage_frame]
    change s.onSignalingEvent .requestPending ⟨some id.text, some k.frame⟩ clock connected = _
    rw [Sender.onSignalingEvent_knock, name, fingerprint]
    simp only [performed, List.nil_append]
  · have own : (Admission.newPeer id.text (bytes "Tether") [] clock).peerId = id.text :=
      strncpy_of_lt (by rw [id.length]; decide)
    have first := unknown
    rw [Admission.findPeer] at first
    rw [Admission.findPeer, peers, List.find?_append, first, Option.none_or]
    exact List.find?_cons_of_pos (by simp [own])

/-- The user lets the peer in: it is told so, and it gets a session of its own. -/
theorem enter_accepted {p : Peer} (waits : s.adm.findPeer id.text = some p) (pin : Bool)
    (trackIds : List ℤ) :
    ∃ (s' : Sender) (r : Session), s.handle (.accept id.text pin (some trackIds)) =
        (s', [.signal (.accept id.text), .negotiate s.connections]) ∧
      s'.sessions = s.sessions ++ [r] ∧ r.peerId = id.text ∧ r.wrtc = some s.connections := by
  have named : p.peerId = id.text := by simpa using List.find?_some waits
  have performed : s.adm.perform (.accept id.text pin) =
      ({ s.adm with
          peers := Admission.updateFirst id.text (Peer.set .accepted pin) s.adm.peers },
        some (p.set .accepted pin)) := by
    rw [Admission.perform, Admission.accept, Admission.setPeerState, waits]
  have state : (p.set .accepted pin).state = .accepted := rfl
  have peerId : (p.set .accepted pin).peerId = id.text := named
  rw [Sender.handle, Sender.callAdmission, performed]
  simp only [Sender.onAdmissionChanged, state, Sender.createSession, peerId]
  exact ⟨_, _, rfl, rfl, strncpy_of_lt (by rw [id.length]; decide), rfl⟩

end Sender

/-! ### Descriptions -/

section Descriptions

variable {engine : Engine} {env : Env} {room : Room} {host guest : PeerConn} {sdp : List Char}

/-- An offer of a session reaches the receiver's connection as it is. -/
theorem offer_to_receiver (paired : Paired room host guest) (chars : ∀ c ∈ sdp, IsSdpChar c)
    {s : Sender} {i : ℕ} {r : Session} (session : s.sessions[i]? = some r)
    (named : r.peerId = guest.id.text) (now : Millis) (uuid : Uuid) :
    ∃ call data frame, s.handle (.localSdp i (bytes "offer") (utf8 sdp)) = (s, [.signal call]) ∧
      decodeUtf8 call.text = some data ∧
      room.handle engine env (.message host.ws now uuid data) = (room, [.send guest.ws frame]) ∧
      ReceiveSession.onMessage .accepted (utf8 (stringify frame)) = (.negotiating,
        [.onState .negotiating, .applyRemoteSdp (bytes "offer") (utf8 sdp)]) := by
  have kind : body (str "offer") = bytes "offer" := rfl
  refine ⟨.sendSdp guest.id.text (bytes "offer") (utf8 sdp),
    stringify (sdpFrame guest.id.str (str "offer") sdp), sdpFrame guest.id.str (str "offer") sdp,
    ?_, ?_, ?_, ?_⟩
  · simp only [Sender.handle, session, named]
  · rw [← kind, ← body_uuid, sendSdp_text _ _ chars, decodeUtf8_utf8]
  · exact paired.to_receiver (parse_sdpFrame engine _ _ _) rfl rfl now uuid
  · have member : firstHit (ofAscii (bytes "sdp")) (sdpFrame guest.id.str (str "offer") sdp) =
        some (utf16 sdp) := rfl
    have text : ReceiveSession.offerText
        (utf8 (stringify (sdpFrame guest.id.str (str "offer") sdp))) = some (utf8 sdp) := by
      rw [ReceiveSession.offerText_stringify, member, Option.map_some, ← escape_utf8 chars,
        unescape_escape]
    rw [ReceiveSession.onMessage, handleMessage_sdpFrame, if_pos rfl]
    simp [ReceiveSession.signalingEvent, ReceiveSession.ignoresOffer, ReceiveSession.setState, text]

/-- An answer reaches the connection of its session with the escapes that it was sent with, and
up to the first quote. -/
theorem answer_to_sender (paired : Paired room host guest) (chars : ∀ c ∈ sdp, IsSdpChar c)
    {s : Sender} {r : Session} {wrtc : ℕ} (session : s.findSession guest.id.text = some r)
    (live : r.wrtc = some wrtc) (now : Millis) (uuid : Uuid) :
    ∃ data frame,
      decodeUtf8 (ReceiveSession.wrtcLocalSdp (bytes "answer") (utf8 sdp)).text = some data ∧
      room.handle engine env (.message guest.ws now uuid data) = (room, [.send host.ws frame]) ∧
      ∀ clock connected, s.onMessage (utf8 (stringify frame)) clock connected =
        (s, [.applyRemoteSdp wrtc (bytes "answer")
          ((escape (utf8 sdp)).takeWhile (· != quote))]) := by
  have kind : body (str "answer") = bytes "answer" := rfl
  have alias' : body (str "sender") = bytes "sender" := rfl
  refine ⟨stringify (sdpFrame (str "sender") (str "answer") sdp),
    sdpFrame guest.id.str (str "answer") sdp, ?_, ?_, fun clock connected => ?_⟩
  · rw [ReceiveSession.wrtcLocalSdp, ← kind, ← alias', sendSdp_text _ _ chars, decodeUtf8_utf8]
  · exact paired.to_sender (parse_sdpFrame engine _ _ _) rfl rfl now uuid
  · have member : firstHit (ofAscii (bytes "sdp")) (sdpFrame guest.id.str (str "answer") sdp) =
        some (utf16 sdp) := rfl
    have text : Sender.textMember "sdp"
        (utf8 (stringify (sdpFrame guest.id.str (str "answer") sdp))) =
          some ((escape (utf8 sdp)).takeWhile (· != quote)) := by
      rw [Sender.textMember_stringify (by decide) (by decide), member, Option.map_some,
        Sender.upToQuote, escape_utf8 chars]
    have notOffer : str "answer" ≠ str "offer" := by decide
    have same : (Sender.findSession { s with sig := s.sig } guest.id.text) = some r := session
    rw [Sender.onMessage, handleMessage_sdpFrame, if_neg notOffer]
    simp only [Signaling.keepToken, Sender.onSignalingEvent, same, Option.bind_some, live, text]

end Descriptions

/-! ### The meeting -/

/-- What the connections of a sender's session and of its receiver say to each other reaches
the other one, and leaves room and sender as they are: `i` is the place of the session, and
`wrtc` its connection. -/
structure Meeting (engine : Engine) (env : Env) (room : Room) (host guest : PeerConn) (s : Sender)
    (i wrtc : ℕ) : Prop where
  offer : ∀ sdp, (∀ c ∈ sdp, IsSdpChar c) → ∀ now uuid, ∃ call data frame,
    s.handle (.localSdp i (bytes "offer") (utf8 sdp)) = (s, [.signal call]) ∧
    decodeUtf8 call.text = some data ∧
    room.handle engine env (.message host.ws now uuid data) = (room, [.send guest.ws frame]) ∧
    ReceiveSession.onMessage .accepted (utf8 (stringify frame)) = (.negotiating,
      [.onState .negotiating, .applyRemoteSdp (bytes "offer") (utf8 sdp)])
  answer : ∀ sdp, (∀ c ∈ sdp, IsSdpChar c) → ∀ now uuid, ∃ data frame,
    decodeUtf8 (ReceiveSession.wrtcLocalSdp (bytes "answer") (utf8 sdp)).text = some data ∧
    room.handle engine env (.message guest.ws now uuid data) = (room, [.send host.ws frame]) ∧
    ∀ clock connected, s.onMessage (utf8 (stringify frame)) clock connected =
      (s, [.applyRemoteSdp wrtc (bytes "answer") ((escape (utf8 sdp)).takeWhile (· != quote))])
  toReceiver : ∀ candidate mid mlineIndex, Plain candidate → Plain mid →
    engine.numeral (integer mlineIndex).text = integer mlineIndex → ∀ now uuid,
    ∃ call data frame,
      s.handle (.localIce i (utf8 candidate) (utf8 mid) mlineIndex) = (s, [.signal call]) ∧
      decodeUtf8 call.text = some data ∧
      room.handle engine env (.message host.ws now uuid data) = (room, [.send guest.ws frame]) ∧
      ∀ state, ReceiveSession.onMessage state (utf8 (stringify frame)) =
        (state, [.addRemoteIce (utf8 candidate) (utf8 mid)])
  toSender : ∀ candidate mid mlineIndex, Plain candidate → Plain mid →
    engine.numeral (integer mlineIndex).text = integer mlineIndex → ∀ now uuid,
    ∃ data frame,
      decodeUtf8 (ReceiveSession.wrtcLocalIce (utf8 candidate) (utf8 mid) mlineIndex).text =
        some data ∧
      room.handle engine env (.message guest.ws now uuid data) = (room, [.send host.ws frame]) ∧
      ∀ clock connected, s.onMessage (utf8 (stringify frame)) clock connected =
        (s, [.addRemoteIce wrtc (utf8 candidate) (utf8 mid)])

/-- The hello of the session that `session_create_locked` opens for what the user has typed. -/
def typedHello (typed : Bytes) : Option Bytes :=
  (tokenNormalise typed 20).map fun canon => helloText (ReceiveSession.signaling canon)

/-- Whoever types the token of a sender that waits in its room meets it: the receiver's hello
is announced to the sender; when the user lets it in, the receiver hears of it and moves on;
and from then on the two connections hear each other. -/
theorem rendezvous {engine : Engine} (reads : ReadsAscii engine) (env : Env) {room : Room}
    {host : PeerConn} {token : Token} {ws : Socket} {now : Millis} {id : Uuid}
    (awaits : Awaits room host token ws now id) {typed : Bytes}
    (types : tokenNormalise typed 20 = some token.text) {s : Sender} {clock : UInt64}
    (admits : s.adm.Admits id.text clock)
    (unpinned : (s.adm.cfg.autoAcceptPinned && s.adm.pinMatches []) = false)
    (stranger : s.findSession id.text = none) (pin : Bool) (trackIds : List ℤ) (later : Millis)
    (uuid : Uuid) :
    ∃ (hello decision : List Char) (notice : Value) (knocked met : Room) (s' t : Sender)
      (guest : PeerConn),
      (typedHello typed).bind decodeUtf8 = some hello ∧
      room.handle engine env (.message ws now id hello) = (knocked, [.send host.ws notice]) ∧
      s.handle (.message (utf8 (stringify notice)) clock none) =
        (s', [.onPending id.text (bytes "Tether") []]) ∧
      s'.handle (.accept id.text pin (some trackIds)) =
        (t, [.signal (.accept id.text), .negotiate s.connections]) ∧
      decodeUtf8 (Signal.accept id.text).text = some decision ∧
      knocked.handle engine env (.message host.ws later uuid decision) =
        (met, [.send guest.ws Backend.accepted]) ∧
      ReceiveSession.onMessage .awaitingAccept (utf8 (stringify Backend.accepted)) =
        (.accepted, [.onState .accepted]) ∧
      guest.ws = ws ∧ guest.id = id ∧
      Meeting engine env met host guest t s.sessions.length s.connections := by
  let asks := helloValue engine (ofAscii token.text)
  let guest : PeerConn := { Room.receiverRecord id ws asks with accepted := true }
  obtain ⟨hello, encoded, knocks⟩ := handle_knock reads env awaits
  obtain ⟨s', enters, waits, sessions, connections⟩ :=
    enter_pending engine (ofAscii token.text) admits unpinned none
  obtain ⟨t, r, decides, opened, named, live⟩ := enter_accepted waits pin trackIds
  have asked : (Room.receiverRecord id ws asks).id = id := rfl
  obtain ⟨decision, decoded, admitted⟩ :=
    handle_decision engine env awaits asked rfl rfl later uuid
  have paired : Paired (joined room guest) host guest := paired_joined awaits rfl rfl rfl rfl
  rw [connections] at decides live
  rw [sessions] at opened
  -- the session is the last one, and the first one of this peer
  have session : t.sessions[s.sessions.length]? = some r := by
    rw [opened, List.getElem?_concat_length]
  have found : t.findSession id.text = some r := by
    rw [Sender.findSession] at stranger
    rw [Sender.findSession, opened, List.find?_append, stranger, Option.none_or]
    exact List.find?_cons_of_pos (by simp [named])
  have told : ReceiveSession.onMessage .awaitingAccept (utf8 (stringify Backend.accepted)) =
      (.accepted, [.onState .accepted]) := by
    rw [ReceiveSession.onMessage, handleMessage_stringify]
    rfl
  refine ⟨hello, decision, _, _, joined room guest, s', t, guest, ?_, knocks, enters, decides,
    decoded, admitted, told, rfl, rfl, ?_⟩
  · rw [typedHello, types, Option.map_some, Option.bind_some, encoded]
  · constructor
    · intro sdp chars now uuid
      exact offer_to_receiver paired chars session named now uuid
    · intro sdp chars now uuid
      exact answer_to_sender paired chars found live now uuid
    · intro candidate mid mlineIndex plainCandidate plainMid reads now uuid
      exact candidate_to_receiver paired plainCandidate plainMid reads session named now uuid
    · intro candidate mid mlineIndex plainCandidate plainMid reads now uuid
      exact candidate_to_sender paired plainCandidate plainMid reads found live now uuid

/-! ### A sample -/

/-- A sender has opened its room, and somebody has connected. -/
def waitingRoom : Room :=
  ((Backend.after asciiEngine .deployed [Backend.connect, Backend.connect]).senderHello asciiEngine
    .deployed 0 1 (Backend.numbered 0) (Backend.helloAs "sender")).1

/-- The token of the room. -/
def waitingToken : Token where
  first := ⟨bytes "ABCD", by decide, by decide⟩
  second := ⟨bytes "EFGH", by decide, by decide⟩
  third := ⟨bytes "JKMN", by decide, by decide⟩

theorem awaits_waitingRoom :
    Awaits waitingRoom (Room.senderRecord (Backend.numbered 0) 0 (Backend.helloAs "sender"))
      waitingToken 1 ⟨2, by decide⟩ (Backend.numbered 1) where
  hosts := by
    rw [waitingRoom, Backend.senderHello_eq asciiEngine .deployed rfl rfl]
    exact (Hosts.opened rfl (by decide +kernel) 1 (Backend.numbered 0)
      (Backend.helloAs "sender")).1
  token := by decide +kernel
  inTime := by decide +kernel
  unlocked := by decide +kernel
  isOpen := by decide +kernel
  unknown := by decide +kernel

/-- Somebody types the sample's token in small letters, and is let in. -/
theorem rendezvous_typed : ∃ s hello knocked notice, Sender.create Sender.sampleConfig = some s ∧
    (typedHello (bytes " tthr-abcd-efgh-jkmn")).bind decodeUtf8 = some hello ∧
    waitingRoom.handle asciiEngine .deployed (.message 1 ⟨2, by decide⟩ (Backend.numbered 1) hello) =
      (knocked, [.send 0 notice]) := by
  have created : Sender.create Sender.sampleConfig = some _ := rfl
  have facts : ((Sender.create Sender.sampleConfig).any fun s =>
      decide (s.adm.Admits (Backend.numbered 1).text 3) &&
        !(s.adm.cfg.autoAcceptPinned && s.adm.pinMatches []) &&
        decide (s.findSession (Backend.numbered 1).text = none)) = true := by
    decide +kernel
  rw [created, Option.any_some, Bool.and_eq_true, Bool.and_eq_true, decide_eq_true_eq,
    decide_eq_true_eq, Bool.not_eq_true'] at facts
  obtain ⟨⟨admits, unpinned⟩, stranger⟩ := facts
  have types : tokenNormalise (bytes " tthr-abcd-efgh-jkmn") 20 = some waitingToken.text := by
    decide +kernel
  obtain ⟨hello, -, notice, knocked, -, -, -, -, typed, knocks, -⟩ :=
    rendezvous readsAscii_asciiEngine .deployed awaits_waitingRoom types admits unpinned stranger
      false [1] ⟨4, by decide⟩ (Backend.numbered 2)
  exact ⟨_, hello, knocked, notice, created, typed, knocks⟩

end Tether.EndToEnd
