import Tether.EndToEnd.Handshakes

/-!
# Who is accepted, on both sides

Every event of a room and a sender is a move of the handshakes, as long as it leaves the
two in step. Where the sender gives a peer up without a word to the room, or accepts one
that the room has given up, they part.

## Main results

* `step_view` — every event in step is a move of each handshake, or none
* `accepted_on_both_sides` — in runs of such events the sides agree when nothing is under way
* `failed_peer_stays_accepted` — a connection fails, and only the sender takes notice
-/

namespace Tether.EndToEnd.Link

open Text Js Semantics Plugin
open Backend (Room Env Millis Uuid Socket PeerConn Hosts IsNotice NoNotice standing)

variable {engine : Engine} {env : Env} {host : PeerConn} {link : Link}

/-! ### Frames of decisions -/

section Frames

/-- The frame in which the sender decides about one peer. -/
def decisionFrame (type : String) (id : Uuid) : Value :=
  Backend.message type [("peer_id", .str id.str)]

theorem utf8_pair (first second : List Char) :
    utf8 ('\x7b' :: (first ++ ',' :: (second ++ ['\x7d']))) =
      braced (utf8 first ++ 44 :: utf8 second) := by
  have opening : String.utf8EncodeChar '\x7b' = [123] := rfl
  have comma : String.utf8EncodeChar ',' = [44] := rfl
  have closing : String.utf8EncodeChar '\x7d' = [125] := rfl
  simp [braced, opening, comma, closing]

/-- What the client sends is serialised JSON. -/
theorem text_decision (type : String) (plain : ∀ b ∈ bytes type, PlainByte b)
    (ascii : ∀ c ∈ type.toList, c.toNat < 128) (id : Uuid) :
    braced (member "type" (bytes type) ++ 44 :: member "peer_id" id.text) =
      utf8 (stringify (decisionFrame type id)) := by
  -- the client glues the members together as the serialiser does
  have shape : stringify (decisionFrame type id) =
      '\x7b' :: ((quoteText (str "type") ++ ':' :: stringify (.str (str type))) ++
        ',' :: ((quoteText (str "peer_id") ++ ':' :: stringify (.str id.str)) ++ ['\x7d'])) := by
    simp [decisionFrame, Backend.message, stringify, stringifyMembers]
  rw [shape, utf8_pair, utf8_member "type" (by decide) (by decide),
    utf8_member "peer_id" (by decide) (by decide), body_uuid, ← ofAscii_bytes ascii,
    body_ofAscii plain]

theorem canonical_decision (engine : Engine) (type : String) (id : Uuid) :
    Canonical engine (decisionFrame type id) := by
  change Canonical engine
    (.obj [(str "type", .str (str type)), (str "peer_id", .str id.str)])
  exact ⟨rfl, trivial, rfl, trivial, trivial⟩

theorem named_decision (type : String) (id : Uuid) :
    (decisionFrame type id).get? (str "peer_id") = some (.str id.str) :=
  Backend.peerId_message type id.str []

theorem isType_decision (type : String) (id : Uuid) :
    Room.isType type (decisionFrame type id) := by
  rw [decisionFrame, Backend.isType_message, decide_eq_true rfl]

theorem not_hello_decision {type : String} (different : str type ≠ str "hello") (id : Uuid) :
    Backend.isSenderHello (decisionFrame type id) = false := by
  rw [Backend.isSenderHello, decisionFrame, Backend.isType_message, decide_eq_false different,
    Bool.false_and]

theorem text_revoke : Signal.revokeToken.text = utf8 (stringify (Backend.message "revoke" [])) := by
  decide +kernel

end Frames

/-! ### Frames of notices -/

section Notices

/-- A knock arrives as a knock, whatever the receiver has called itself. -/
theorem raised_pending (id : Uuid) (msg : Value) : raised (Backend.pending id msg) =
    some (.requestPending, ⟨some id.text, some (utf8 (stringify (Backend.pending id msg)))⟩) := by
  have type : firstHit (str "type") (Backend.pending id msg) = some (str "pending") := rfl
  have peer : firstHit (str "peer_id") (Backend.pending id msg) = some id.str := by
    change firstHit (str "peer_id") (.obj ((str "type", .str (str "pending")) ::
      (str "peer_id", .str id.str) :: _)) = some id.str
    rfl
  rw [raised]
  simp only [type, peer, Option.map_some, body_uuid]
  rfl

theorem raised_peerGone (id : Uuid) :
    raised (Backend.peerGone id) = some (.peerGone, ⟨some id.text, none⟩) := by
  have type : firstHit (str "type") (Backend.peerGone id) = some (str "peer_gone") := rfl
  have peer : firstHit (str "peer_id") (Backend.peerGone id) = some id.str := by
    change firstHit (str "peer_id") (.obj ((str "type", .str (str "peer_gone")) ::
      (str "peer_id", .str id.str) :: [])) = some id.str
    rfl
  rw [raised]
  simp only [type, peer, Option.map_some, body_uuid]
  rfl

end Notices

/-! ### Events of the room -/

section RoomEvents

variable (coherent : Coherent host link)
include coherent

theorem moves_connect (roomHint tokenParam : Option Str) :
    Moves host link (link.next engine env (.connect roomHint tokenParam)) := by
  obtain ⟨hosts, guests⟩ := coherent.hosts.fetch roomHint tokenParam
  have silent : ∀ frame ∈ ([] : List Value), ¬ IsNotice frame := by simp
  exact coherent.room_quiet hosts guests silent (List.Subset.refl _) coherent.own

theorem moves_receiver {ws : Socket} {now : Millis} {uuid : Uuid} {data : List Char}
    (fresh : link.FreshId (.receiver ws now uuid data))
    (inStep : link.InStep engine (.receiver ws now uuid data)) :
    Moves host link (link.next engine env (.receiver ws now uuid data)) := by
  rw [next]
  split_ifs with here
  · exact coherent.stay
  · rw [← coherent.ws] at here
    have other : host.id ≠ uuid := by
      apply fresh.2
      rw [coherent.hosts.peers]
      exact List.mem_cons_self
    -- either a knock, or nothing that the sender takes notice of
    have step := coherent.hosts.frame env here fresh.2 inStep
    rw [coherent.ws] at step
    obtain ⟨hosts, ⟨same, quiet⟩ | ⟨g, msg, rfl, unaccepted, added, heard⟩⟩ := step
    · have silent : ∀ frame ∈ Backend.heard link.ws
          (link.room.handle engine env (.message ws now uuid data)).2, ¬ IsNotice frame :=
        fun frame member => quiet frame (Backend.mem_heard.mp member)
      apply coherent.room_quiet hosts same silent (List.subset_cons_self _ _)
      rw [List.mem_cons, not_or]
      exact ⟨other, coherent.own⟩
    · have moves := coherent.room_knock hosts msg added unaccepted fresh.1 other
      rw [← heard] at moves
      exact moves

theorem moves_closed (ws : Socket) :
    Moves host link (link.next engine env (.closed ws)) := by
  rw [next]
  split_ifs with here
  · exact coherent.stay
  · rw [← coherent.ws] at here
    have step := coherent.hosts.closed engine env here
    rw [coherent.ws] at step
    obtain ⟨hosts, ⟨same, silent⟩ | ⟨g, guest, left, heard⟩⟩ := step
    · have quiet : ∀ frame ∈ Backend.heard link.ws
          (link.room.handle engine env (.closed ws)).2, ¬ IsNotice frame := by
        rw [silent]
        exact fun frame member => absurd member List.not_mem_nil
      exact coherent.room_quiet hosts same quiet (List.Subset.refl _) coherent.own
    · have moves := coherent.room_gone hosts guest left
      rw [← heard] at moves
      exact moves

variable (env) in
/-- A frame that the client has serialised is delivered to the room. -/
theorem next_toRoom {call : Signal} {later : List Signal} (sent : link.up = call :: later)
    {frame : Value} (text : call.text = utf8 (stringify frame)) (canonical : Canonical engine frame)
    (other : Backend.isSenderHello frame = false) (now : Millis) (uuid : Uuid) :
    ∃ event tokenParam,
      link.room.received? engine event = some ⟨host.ws, tokenParam, now, uuid, frame⟩ ∧
      link.next engine env (.toRoom now uuid) = { link with
        room := link.room.next engine env event
        up := later
        down := link.down ++ Backend.heard host.ws (link.room.handle engine env event).2
        issued := link.issued } := by
  have decoded : decodeUtf8 call.text = some (stringify frame) := by rw [text, decodeUtf8_utf8]
  have parsed : parse engine (stringify frame) = some frame := parse_stringify engine canonical
  obtain ⟨tokenParam, received⟩ := coherent.hosts.received now uuid parsed other
  refine ⟨_, tokenParam, received, ?_⟩
  rw [next, sent]
  simp only [decoded]
  rw [coherent.ws]
  rfl

/-- A frame of the exchange decides nothing, whatever the room makes of it. -/
theorem moves_exchange {call : Signal} {later : List Signal} (sent : link.up = call :: later)
    (exchange : ∀ id, decision? id call = none)
    (undecided : ∀ msg ∈ (decodeUtf8 call.text).bind (parse engine), ¬ Backend.Decides msg)
    {now : Millis} {uuid : Uuid} :
    Moves host link (link.next engine env (.toRoom now uuid)) := by
  rw [next, sent]
  simp only
  cases decoded : decodeUtf8 call.text with
  | none =>
    have silent : ∀ frame ∈ ([] : List Value), ¬ IsNotice frame := by simp
    have moves := coherent.room_decided coherent.hosts sent silent coherent.guests
      fun id => by rw [exchange]; rfl
    rw [List.append_nil] at moves
    exact moves
  | some data =>
    -- whatever the engine makes of the text is a frame of the exchange
    have ignored : ∀ d, link.room.received? engine (.message host.ws now uuid data) = some d →
        ¬ Backend.Decides d.msg := by
      intro d received
      obtain ⟨_, msg, -, parsed, -, rfl⟩ := (Backend.received_message engine).mp received
      apply undecided msg
      rw [decoded]
      exact parsed
    obtain ⟨hosts, guests, quiet⟩ := coherent.hosts.other env ignored rfl
    rw [coherent.ws] at hosts guests quiet
    apply coherent.room_decided hosts sent
    · exact fun frame member => quiet frame (Backend.mem_heard.mp member)
    · rw [guests]
      exact coherent.guests
    · intro id
      rw [guests, exchange]
      rfl

theorem moves_toRoom {now : Millis} {uuid : Uuid} (inStep : link.InStep engine (.toRoom now uuid)) :
    Moves host link (link.next engine env (.toRoom now uuid)) := by
  cases sent : link.up with
  | nil =>
    have still : link.next engine env (.toRoom now uuid) = link := by rw [next, sent]
    rw [still]
    exact coherent.stay
  | cons call later =>
    have obeys : link.Obeys engine call := inStep call (by rw [sent]; rfl)
    have head : call ∈ link.up := by rw [sent]; exact List.mem_cons_self
    cases call with
    | accept peerId =>
      obtain ⟨id, known, rfl⟩ := coherent.accepts peerId head
      -- the identifier is that of a guest, never the host's own
      have other : host.id ≠ id := fun same => coherent.own (same ▸ known)
      obtain ⟨event, tokenParam, received, reached⟩ := next_toRoom env coherent sent
        (text_decision "accept" (by decide) (by decide) id) (canonical_decision engine _ id)
        (not_hello_decision (by decide) id) now uuid
      obtain ⟨hosts, guests, heard⟩ := coherent.hosts.accept env received rfl
        (isType_decision "accept" id) (named_decision "accept" id) other
      rw [reached]
      apply coherent.room_decided hosts sent
      · rw [heard]
        exact fun frame member => absurd member List.not_mem_nil
      · intro g member
        rw [guests] at member
        obtain ⟨before, guest, rfl⟩ := List.mem_map.mp member
        -- an accepted record keeps its identifier
        have key : (if before.id = id then { before with accepted := true } else before).id =
            before.id := by
          split_ifs <;> rfl
        rw [key]
        exact coherent.guests before guest
      · intro one
        rw [guests, Backend.standing_markAccepted, decision?]
        by_cases here : id = one
        · rw [if_pos here, if_pos (congrArg Uuid.text here)]
          rfl
        · rw [if_neg here, if_neg fun same => here (text_injective same)]
          rfl
    | reject peerId =>
      obtain ⟨id, other, rfl⟩ := coherent.rejects peerId head
      obtain ⟨event, tokenParam, received, reached⟩ := next_toRoom env coherent sent
        (text_decision "reject" (by decide) (by decide) id) (canonical_decision engine _ id)
        (not_hello_decision (by decide) id) now uuid
      obtain ⟨hosts, guests, heard⟩ := coherent.hosts.reject env received rfl
        (isType_decision "reject" id) (named_decision "reject" id) other
        -- a guest whose socket is gone would not be told, and the record would stay
        fun g guest same => obeys g guest (congrArg Uuid.text same)
      rw [reached]
      apply coherent.room_decided hosts sent
      · rw [heard]
        exact fun frame member => absurd member List.not_mem_nil
      · intro g member
        rw [guests] at member
        exact coherent.guests g (Backend.mem_deletePeer.mp member).1
      · intro one
        rw [guests, Backend.standing_deletePeer, decision?]
        by_cases here : id = one
        · rw [if_pos here, if_pos (congrArg Uuid.text here)]
          rfl
        · rw [if_neg here, if_neg fun same => here (text_injective same)]
          rfl
    | revokeToken =>
      obtain ⟨event, tokenParam, received, reached⟩ := next_toRoom env coherent sent
        text_revoke ⟨rfl, trivial, trivial⟩ rfl now uuid
      -- a revoke takes all guests at once
      have type : Room.isType "revoke" (Backend.message "revoke" []) := by decide
      obtain ⟨hosts, guests, heard⟩ :=
        coherent.hosts.revoke env received rfl type obeys.1 obeys.2
      rw [reached]
      apply coherent.room_decided hosts sent
      · rw [heard]
        exact fun frame member => absurd member List.not_mem_nil
      · rw [guests]
        exact fun g member => absurd member List.not_mem_nil
      · intro one
        rw [guests]
        rfl
    | sendSdp peerId sdpType sdp => exact moves_exchange coherent sent (fun _ => rfl) obeys
    | sendIce peerId candidate mid mlineIndex =>
      exact moves_exchange coherent sent (fun _ => rfl) obeys

end RoomEvents

/-! ### Events of the sender -/

theorem Coherent.guest_of_named (coherent : Coherent host link) {peerId : Bytes}
    (names : link.NamesGuest peerId) : ∃ id : Uuid, host.id ≠ id ∧ peerId = id.text := by
  obtain ⟨length, digits, foreign⟩ := names
  refine ⟨⟨peerId, length, digits⟩, fun same => ?_, rfl⟩
  have present : host ∈ link.room.peers := by
    rw [coherent.hosts.peers]
    exact List.mem_cons_self
  exact foreign host present coherent.hosts.role (congrArg Uuid.text same)

section SenderEvents

variable (coherent : Coherent host link)
include coherent

/-- A call of the user interface, or a callback of a session. -/
theorem moves_own {event : Sender.Event} {isOwn : IsOwn event}
    (inStep : link.InStep engine (.own event isOwn)) :
    Moves host link (link.next engine env (.own event isOwn)) := by
  have reached : link.next engine env (.own event isOwn) = { link with
      sender := link.sender.next event
      up := link.up ++ Sender.signals (link.sender.handle event).2
      down := link.down } := rfl
  rw [reached]
  -- the store stays as it is, or one operation on it says what is sent
  obtain ⟨same, exchange⟩ | ⟨op, calls, changed, said⟩ := link.sender.speaks event
  · exact coherent.sender_quiet (List.Subset.refl _) (fun _ => Iff.rfl)
      (congrArg Admission.peers same) exchange
  rw [said]
  cases calls with
  | knock raised => exact isOwn.elim
  | gone raised => exact isOwn.elim
  | accept peerId pin connected =>
    by_cases listed : link.sender.adm.Lists peerId
    · have verdict : Sender.verdict (link.sender.adm.perform (.accept peerId pin)).2 =
          [.accept peerId] :=
        (Sender.verdict_setPeerState _ peerId .accepted pin).trans (if_pos listed)
      rw [verdict]
      exact coherent.sender_accept listed (inStep listed) changed
    · have verdict : Sender.verdict (link.sender.adm.perform (.accept peerId pin)).2 = [] :=
        (Sender.verdict_setPeerState _ peerId .accepted pin).trans (if_neg listed)
      rw [verdict]
      exact coherent.sender_quiet (List.Subset.refl _) (fun _ => Iff.rfl)
        (congrArg Admission.peers
          (changed.trans (Admission.setPeerState_of_absent listed .accepted pin))) nofun
  | reject peerId =>
    by_cases listed : link.sender.adm.Lists peerId
    · have verdict : Sender.verdict (link.sender.adm.perform (.reject peerId)).2 =
          [.reject peerId] :=
        (Sender.verdict_setPeerState _ peerId .rejected false).trans (if_pos listed)
      obtain ⟨id, -, other, rfl⟩ := coherent.guest_of_lists listed
      rw [verdict]
      exact coherent.sender_drop other .rejected false (by decide) changed
    · have verdict : Sender.verdict (link.sender.adm.perform (.reject peerId)).2 = [] :=
        (Sender.verdict_setPeerState _ peerId .rejected false).trans (if_neg listed)
      rw [verdict]
      exact coherent.sender_quiet (List.Subset.refl _) (fun _ => Iff.rfl)
        (congrArg Admission.peers
          (changed.trans (Admission.setPeerState_of_absent listed .rejected false))) nofun
  | disconnect peerId =>
    obtain ⟨id, other, rfl⟩ := coherent.guest_of_named inStep
    rw [Sender.verdict_disconnect]
    exact coherent.sender_drop other .disconnected false (by decide) changed
  | revoke => exact coherent.sender_revoke changed
  | @ends session state peerId place isOver =>
    obtain ⟨r, found, rfl⟩ := Option.map_eq_some_iff.mp place
    rw [Sender.verdict_disconnect]
    exact coherent.sender_unmark (List.Subset.refl _) .disconnected false (by decide) changed
      (inStep isOver r found) fun _ _ => Iff.rfl

/-- The oldest frame of the room has reached the sender. -/
theorem moves_toSender {now : UInt64} {connected : Connected}
    (inStep : link.InStep engine (.toSender now connected)) :
    Moves host link (link.next engine env (.toSender now connected)) := by
  cases sent : link.down with
  | nil =>
    have still : link.next engine env (.toSender now connected) = link := by rw [next, sent]
    rw [still]
    exact coherent.stay
  | cons frame later =>
    have reads : link.Reads frame := inStep frame (by rw [sent]; rfl)
    have fewer : later ⊆ link.down := by
      rw [sent]
      exact List.subset_cons_self _ _
    have reached : link.next engine env (.toSender now connected) = { link with
        sender := link.sender.next (.message (utf8 (stringify frame)) now connected)
        up := link.up ++ Sender.signals
          (link.sender.handle (.message (utf8 (stringify frame)) now connected)).2
        down := later } := by
      rw [next, sent]
      rfl
    have kept (staying : ∀ id : Uuid, ¬ Departs id.text frame) : SameDepartures link later := by
      intro id
      simp [Leaving, sent, staying]
    have arrives := handleMessage_stringify frame
    rw [reached]
    by_cases notice : IsNotice frame
    · obtain ⟨id, issued, ⟨msg, rfl⟩ | rfl⟩ :=
        coherent.frames frame (by rw [sent]; exact List.mem_cons_self) notice
      · -- a knock: it is known already, or gets an entry, which a pin opens
        rw [raised_pending] at arrives
        obtain ⟨changed, said⟩ := link.sender.speaks_knock now connected arrives
        have staying (one : Uuid) : ¬ Departs one.text (Backend.pending id msg) :=
          not_departs_pending
        have survives := (reads.1 (id.text, utf8 (stringify (Backend.pending id msg)))
          (by rw [raised_pending]; rfl)).2
        rw [said]
        obtain ⟨-, ⟨peers, silent⟩ | ⟨added, told, absent, -⟩⟩ :=
          link.sender.adm.addPending_cases id.text _ _ now
        · have verdict := congrArg Sender.verdict silent
          change Sender.verdict (link.sender.adm.perform (.addPending ..)).2 = [] at verdict
          rw [verdict]
          exact coherent.sender_quiet fewer (kept staying)
            ((congrArg Admission.peers changed).trans peers) (by simp)
        · have fits : id.text.length < 64 := by
            rw [id.length]
            decide
          apply coherent.sender_knock fewer (kept staying) issued
            (Admission.knockedPeer_peerId.trans (strncpy_of_lt fits))
            (Admission.findPeer_eq_none.mp absent) ((congrArg Admission.peers changed).trans added)
          · exact fun accepted => survives (Admission.knockedPeer_accepted.mp accepted)
          · exact (congrArg Sender.verdict told).trans
              (Sender.verdict_knocked link.sender.adm fits _ _ now)
      · -- a departure: the entry is closed, and nobody else's departure is lost
        rw [raised_peerGone] at arrives
        obtain ⟨changed, said⟩ := link.sender.speaks_gone now connected arrives
        rw [said, Sender.verdict_disconnect]
        apply coherent.sender_unmark fewer .disconnected false (by decide) changed
        · exact fun _ => ⟨_, by rw [sent]; exact List.mem_cons_self, departs_peerGone.mpr rfl⟩
        · intro one different
          have staying : ¬ Departs one.text (Backend.peerGone id) :=
            fun departs => different (departs_peerGone.mp departs)
          simp [Leaving, sent, staying]
    · -- what is no notice is not read as one
      have noKnock (peerId payload : Bytes) : handleMessage (utf8 (stringify frame)) ≠
          some (.requestPending, ⟨some peerId, some payload⟩) := by
        intro knock
        exact notice (reads.1 (peerId, payload) (by rw [← arrives, knock]; rfl)).1
      have noDeparture (peerId : Bytes) (payload : Option Bytes) :
          handleMessage (utf8 (stringify frame)) ≠ some (.peerGone, ⟨some peerId, payload⟩) := by
        intro departure
        exact notice (reads.2 peerId (by rw [← arrives, departure]; rfl))
      obtain ⟨same, silent⟩ := link.sender.speaks_silent now connected noKnock noDeparture
      rw [silent]
      exact coherent.sender_quiet fewer
        (kept fun id departs => notice (isNotice_of_departs departs))
        (congrArg Admission.peers same) (by simp)

end SenderEvents

/-! ### Runs -/

variable (env) in
/-- An event in step is a move of each handshake, or none. -/
theorem step_view (coherent : Coherent host link) {event : Event} (fresh : link.FreshId event)
    (inStep : link.InStep engine event) : Moves host link (link.next engine env event) := by
  cases event with
  | connect roomHint tokenParam => exact moves_connect coherent roomHint tokenParam
  | receiver ws now uuid data => exact moves_receiver coherent fresh inStep
  | closed ws => exact moves_closed coherent ws
  | toRoom now uuid => exact moves_toRoom coherent inStep
  | toSender now connected => exact moves_toSender coherent inStep
  | own event isOwn => exact moves_own coherent inStep

variable (engine env) in
/-- At the beginning the sender's record is the only one, and nobody is known. -/
theorem coherent_start {room : Room} {ws : Socket} (empty : room.peers = [])
    (isOpen : room.IsOpen ws) (now : ℤ) (uuid : Uuid) (hello : Value) {fresh : Sender}
    (unknown : fresh.adm.peers = []) :
    Coherent (Room.senderRecord uuid ws hello) (start engine env room ws now uuid hello fresh) ∧
      ∀ id, ((start engine env room ws now uuid hello fresh).view id).Sound := by
  obtain ⟨hosts, nobody⟩ : Hosts ((room.armed engine env now hello).welcome ws uuid hello).1
      (Room.senderRecord uuid ws hello) ∧
      ((room.armed engine env now hello).welcome ws uuid hello).1.guests = [] :=
    Hosts.opened empty isOpen now uuid hello
  -- the token that is issued is no notice
  have silent : ∀ frame ∈
      Backend.heard ws ((room.armed engine env now hello).welcome ws uuid hello).2,
      ¬ IsNotice frame := by
    intro frame member
    have sent := Backend.mem_heard.mp member
    rw [(Backend.Effect.send.inj (Room.mem_send sent)).2]
    exact Backend.not_isNotice_message _ (by decide) (by decide)
  have noEntry : ∀ p, p ∉ fresh.adm.peers := by
    rw [unknown]
    exact fun p => List.not_mem_nil
  have noGuest : ∀ g, g ∉ ((room.armed engine env now hello).welcome ws uuid hello).1.guests := by
    rw [nobody]
    exact fun g => List.not_mem_nil
  constructor
  · exact {
      hosts := hosts
      ws := rfl
      own := List.not_mem_nil
      guests := fun g guest => absurd guest (noGuest g)
      entries := fun p member => absurd member (noEntry p)
      distinct := by
        change (fresh.adm.peers.map (·.peerId)).Nodup
        rw [unknown]
        exact List.nodup_nil
      accepts := fun peerId sent => absurd sent List.not_mem_nil
      rejects := fun peerId sent => absurd sent List.not_mem_nil
      frames := fun frame member notice => absurd notice (silent frame member) }
  · intro id
    apply Handshake.Sound.start
    · exact Backend.standing_eq_none.mpr fun g guest => absurd guest (noGuest g)
    · rintro ⟨frame, member, departs⟩
      exact silent frame member (isNotice_of_departs departs)
    · rintro ⟨p, member, -⟩
      exact noEntry p member

/-- If nothing is under way, both sides accept the same peers. -/
theorem Coherent.agree (coherent : Coherent host link) (sound : ∀ id, (link.view id).Sound)
    (noCall : link.up = []) (noFrame : link.down = []) (peerId : Bytes) :
    link.sender.adm.Accepts peerId ↔ link.RoomAccepts peerId := by
  have quiet (id : Uuid) :
      link.sender.adm.Accepts id.text ↔ standing id link.room.guests = some true := by
    apply (sound id).agree
    · rw [view, noCall]
      rfl
    · rintro ⟨frame, member, -⟩
      rw [noFrame] at member
      cases member
  have nodup : (link.room.guests.map (·.id)).Nodup :=
    coherent.hosts.nodup.sublist (List.filter_sublist.map _)
  constructor
  · intro accepted
    obtain ⟨p, member, rfl, state⟩ := accepted
    obtain ⟨id, -, named⟩ := coherent.entries p member
    have marked := (quiet id).mp ⟨p, member, named, state⟩
    obtain ⟨g, guest, rfl, accepted⟩ := (Backend.standing_eq_true nodup).mp marked
    obtain ⟨present, role⟩ := Hosts.mem_guests.mp guest
    exact ⟨g, present, role, accepted, named.symm⟩
  · rintro ⟨g, present, role, accepted, rfl⟩
    apply (quiet g.id).mpr
    exact (Backend.standing_eq_true nodup).mpr
      ⟨g, Hosts.mem_guests.mpr ⟨present, role⟩, rfl, accepted⟩

variable (engine env) in
/-- In every run whose events are in step, whenever no frame is under way between room and
sender, the sender's store accepts exactly the peers whose records the room has accepted. -/
theorem accepted_on_both_sides {room : Room} {ws : Socket} (empty : room.peers = [])
    (isOpen : room.IsOpen ws) (now : ℤ) (uuid : Uuid) (hello : Value) {cfg : SenderConfig}
    {fresh : Sender} (created : Sender.create cfg = some fresh) (events : List Event)
    (freshIds : EveryStep (fun before event => FreshId
      ((start engine env room ws now uuid hello fresh).after engine env before) event) events)
    (inStep : EveryStep (fun before event => InStep engine
      ((start engine env room ws now uuid hello fresh).after engine env before) event) events) :
    ∀ before later, events = before ++ later →
      ((start engine env room ws now uuid hello fresh).after engine env before).up = [] →
      ((start engine env room ws now uuid hello fresh).after engine env before).down = [] →
      ∀ peerId,
        ((start engine env room ws now uuid hello fresh).after engine env before).sender.adm.Accepts
          peerId ↔
        ((start engine env room ws now uuid hello fresh).after engine env before).RoomAccepts
          peerId := by
  rintro before later rfl noCall noFrame peerId
  have freshBefore := freshIds.of_append
  have inStepBefore := inStep.of_append
  have begins := coherent_start engine env empty isOpen now uuid hello
    (Sender.empty_of_create created).1
  generalize start engine env room ws now uuid hello fresh = link at *
  clear freshIds inStep
  -- both sides stay coherent, and each handshake is moved soundly
  have reached : Coherent (Room.senderRecord uuid ws hello) (link.after engine env before) ∧
      ∀ id, ((link.after engine env before).view id).Sound := by
    clear noCall noFrame
    induction before using List.reverseRecOn with
    | nil => exact begins
    | append_singleton before event ih =>
      obtain ⟨freshEarlier, freshNow⟩ := everyStep_concat.mp freshBefore
      obtain ⟨inStepEarlier, inStepNow⟩ := everyStep_concat.mp inStepBefore
      obtain ⟨coherent, sound⟩ := ih freshEarlier inStepEarlier
      obtain ⟨still, steps⟩ := step_view env coherent freshNow inStepNow
      rw [after_concat]
      exact ⟨still, fun id => (sound id).step (steps id)⟩
  exact reached.1.agree reached.2 noCall noFrame peerId

/-! ### A connection that fails -/

/-- A sender has said hello in a room with the sample's token. -/
def sampleStart (fresh : Sender) : Link :=
  start asciiEngine .deployed (Backend.after asciiEngine .deployed [Backend.connect]) 0 1
    (Backend.numbered 0) (Backend.helloAs "sender") fresh

/-- A receiver knocks, the user accepts it, and the room hears of that. -/
def acceptance : List Event :=
  [.connect (some Backend.sampleToken) (some Backend.sampleToken),
    .receiver 1 ⟨2, by decide⟩ (Backend.numbered 1) (stringify (Backend.helloAs "receiver")),
    .toSender 3 none, .toSender 4 none,
    .own (.accept (Backend.numbered 1).text false (some [1])) trivial,
    .toRoom ⟨5, by decide⟩ (Backend.numbered 2)]

instance (link : Link) (peerId : Bytes) : Decidable (link.RoomAccepts peerId) :=
  inferInstanceAs (Decidable (∃ p ∈ link.room.peers, _ ∧ _ ∧ _))

/-- The room accepts the receiver of the sample, since the sender does. -/
theorem accepted_on_both_sides_sample :
    ∃ fresh, Sender.create Sender.sampleConfig = some fresh ∧
      ((sampleStart fresh).after asciiEngine .deployed acceptance).RoomAccepts
        (Backend.numbered 1).text := by
  have created : Sender.create Sender.sampleConfig = some _ := rfl
  have facts : ((Sender.create Sender.sampleConfig).any fun fresh =>
      decide (EveryStep (fun before event =>
          FreshId ((sampleStart fresh).after asciiEngine .deployed before) event) acceptance) &&
        (decide (EveryStep (fun before event => InStep asciiEngine
          ((sampleStart fresh).after asciiEngine .deployed before) event) acceptance) &&
        (((sampleStart fresh).after asciiEngine .deployed acceptance).up.isEmpty &&
        (((sampleStart fresh).after asciiEngine .deployed acceptance).down.isEmpty &&
        decide (((sampleStart fresh).after asciiEngine .deployed acceptance).sender.adm.Accepts
          (Backend.numbered 1).text))))) = true := by
    decide +kernel
  rw [created, Option.any_some] at facts
  simp only [Bool.and_eq_true, decide_eq_true_eq, List.isEmpty_iff] at facts
  obtain ⟨freshIds, inStep, noCall, noFrame, accepted⟩ := facts
  refine ⟨_, created, ?_⟩
  exact (accepted_on_both_sides asciiEngine .deployed rfl (by decide) 1 (Backend.numbered 0)
    (Backend.helloAs "sender") created acceptance freshIds inStep acceptance [] rfl noCall noFrame
    _).mp accepted

/-- Then the receiver's connection fails. -/
def failure : List Event := acceptance ++ [.own (.sessionState 0 .failed) trivial]

/-- Nothing is under way, the room's record is accepted, and the sender's entry is not. -/
theorem failed_peer_stays_accepted :
    ∃ fresh, Sender.create Sender.sampleConfig = some fresh ∧
      EveryStep (fun before event =>
        FreshId ((sampleStart fresh).after asciiEngine .deployed before) event) failure ∧
      ((sampleStart fresh).after asciiEngine .deployed failure).up = [] ∧
      ((sampleStart fresh).after asciiEngine .deployed failure).down = [] ∧
      ((sampleStart fresh).after asciiEngine .deployed failure).RoomAccepts
        (Backend.numbered 1).text ∧
      ¬ ((sampleStart fresh).after asciiEngine .deployed failure).sender.adm.Accepts
        (Backend.numbered 1).text := by
  have created : Sender.create Sender.sampleConfig = some _ := rfl
  have facts : ((Sender.create Sender.sampleConfig).any fun fresh =>
      decide (EveryStep (fun before event =>
          FreshId ((sampleStart fresh).after asciiEngine .deployed before) event) failure) &&
        (((sampleStart fresh).after asciiEngine .deployed failure).up.isEmpty &&
        (((sampleStart fresh).after asciiEngine .deployed failure).down.isEmpty &&
        (decide (((sampleStart fresh).after asciiEngine .deployed failure).RoomAccepts
          (Backend.numbered 1).text) &&
        !decide (((sampleStart fresh).after asciiEngine .deployed failure).sender.adm.Accepts
          (Backend.numbered 1).text))))) = true := by
    decide +kernel
  rw [created, Option.any_some] at facts
  simp only [Bool.and_eq_true, Bool.not_eq_true', decide_eq_true_eq, decide_eq_false_iff_not,
    List.isEmpty_iff] at facts
  exact ⟨_, created, facts⟩

end Tether.EndToEnd.Link
