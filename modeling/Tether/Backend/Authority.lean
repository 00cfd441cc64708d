import Mathlib.Data.List.Nodup
import Tether.Backend.Step

/-!
# Whose room it is

A hello picks its own role, so every connection that knows the token can make
itself a second sender. As long as no hello does that while there is a sender,
the connection that opened the room keeps it to itself.

## Main definitions

* `senderSockets` — the sockets of the records with the role of the sender
* `Exclusive` — no sender hello arrives while there is a sender
* `FreshId` — `crypto.randomUUID()` returns an identifier that is not in use

## Main results

* `ids_nodup` — the records of a room have different identifiers
* `senderSockets_of_open` — an open connection stays the only sender
* `sender_keeps_authority` — nobody else decides anything or hears of knocks
-/

namespace Tether.Backend

open Js Semantics

/-! ### Identifiers -/

theorem setPeer_of_fresh {p : PeerConn} {peers : List PeerConn}
    (fresh : ∀ q ∈ peers, q.id ≠ p.id) : setPeer p peers = peers ++ [p] := by
  rw [setPeer, if_neg]
  intro present
  obtain ⟨q, member, same⟩ := List.any_eq_true.mp present
  exact fresh q member (by simpa using same)

theorem nodup_setPeer {peers : List PeerConn} (nodup : (peers.map (·.id)).Nodup) (p : PeerConn) :
    ((setPeer p peers).map (·.id)).Nodup := by
  rw [map_id_setPeer]
  split_ifs with present
  · exact nodup
  · refine List.nodup_append.mpr ⟨nodup, by simp, ?_⟩
    intro id member other last same
    obtain ⟨q, old, rfl⟩ := List.mem_map.mp member
    refine present (List.any_eq_true.mpr ⟨q, old, ?_⟩)
    simpa using same.trans (List.mem_singleton.mp last)

/-- The sockets of the records with the role of the sender. -/
def senderSockets (peers : List PeerConn) : List Socket :=
  (peers.filter (·.role = .sender)).map (·.ws)

theorem mem_senderSockets {peers : List PeerConn} {ws : Socket} :
    ws ∈ senderSockets peers ↔ ∃ p ∈ peers, p.role = .sender ∧ p.ws = ws := by
  simp [senderSockets, and_assoc]

theorem map_id_markAccepted (id : Uuid) (peers : List PeerConn) :
    (markAccepted id peers).map (·.id) = peers.map (·.id) := by
  rw [markAccepted, List.map_map]
  refine List.map_congr_left fun p _ => ?_
  rw [Function.comp_apply]
  split_ifs <;> rfl

theorem senderSockets_markAccepted (id : Uuid) (peers : List PeerConn) :
    senderSockets (markAccepted id peers) = senderSockets peers := by
  rw [senderSockets, markAccepted, List.filter_map, List.map_map]
  have role (p : PeerConn) :
      (if p.id = id then { p with accepted := true } else p).role = p.role := by
    split_ifs <;> rfl
  have socket (p : PeerConn) :
      (if p.id = id then { p with accepted := true } else p).ws = p.ws := by
    split_ifs <;> rfl
  simp only [Function.comp_def, role, socket, senderSockets]

theorem senderSockets_setPeer {p : PeerConn} {peers : List PeerConn}
    (fresh : ∀ q ∈ peers, q.id ≠ p.id) :
    senderSockets (setPeer p peers) = senderSockets peers ++ senderSockets [p] := by
  rw [setPeer_of_fresh fresh, senderSockets, senderSockets, senderSockets, List.filter_append,
    List.map_append]

section

variable (engine : Engine) (env : Env)

/-- The identifier drawn for a message is not in use. -/
def FreshId (before : List Event) (event : Event) : Prop :=
  ∀ d, (after engine env before).received? engine event = some d →
    ∀ p ∈ (after engine env before).peers, p.id ≠ d.uuid

/-- A sender hello arrives only while there is no sender. -/
def Exclusive (before : List Event) (event : Event) : Prop :=
  ∀ d, (after engine env before).received? engine event = some d → isSenderHello d.msg →
    senderSockets (after engine env before).peers = []

end

/-- A message by which a sender decides about a receiver or about the token. -/
def isDecision (msg : Value) : Bool :=
  Room.isType "accept" msg || Room.isType "reject" msg || Room.isType "revoke" msg

section Authority

variable {engine : Engine} {env : Env}

/-- The records of a room have different identifiers. -/
theorem ids_nodup (events : List Event) :
    ((after engine env events).peers.map (·.id)).Nodup := by
  have base : (Room.initial.peers.map (·.id)).Nodup := List.nodup_nil
  have step (room : Room) (event : Event) (nodup : (room.peers.map (·.id)).Nodup) :
      ((room.next engine env event).peers.map (·.id)).Nodup := by
    have change := peers_next engine env room event
    generalize (room.next engine env event).peers = peers at change
    cases change with
    | fewer sublist => exact (sublist.map _).nodup nodup
    | sender => exact nodup_setPeer nodup _
    | receiver => exact nodup_setPeer nodup _
    | accept _ _ _ _ _ _ id =>
      rw [map_id_markAccepted]
      exact nodup
  exact run_invariant _ _ step base events

/-- Only a sender hello adds a sender. -/
theorem senderSockets_next (env : Env) {room : Room} {event : Event}
    (fresh : ∀ d, room.received? engine event = some d → ∀ p ∈ room.peers, p.id ≠ d.uuid) :
    (senderSockets (room.next engine env event).peers).Sublist (senderSockets room.peers) ∨
    ∃ d, room.received? engine event = some d ∧ isSenderHello d.msg ∧
      senderSockets (room.next engine env event).peers = senderSockets room.peers ++ [d.ws] := by
  have change := peers_next engine env room event
  generalize (room.next engine env event).peers = peers at change
  cases change with
  | fewer sublist => exact .inl ((sublist.filter _).map _)
  | sender d received hello => exact .inr ⟨d, received, hello, senderSockets_setPeer (fresh d received)⟩
  | receiver d received hello passes =>
    left
    rw [senderSockets_setPeer (fresh d received)]
    simp [senderSockets, Room.receiverRecord]
  | accept _ _ _ _ _ _ id =>
    left
    rw [senderSockets_markAccepted]

/-- There is never more than one sender. -/
theorem senderSockets_length (events : List Event) (fresh : EveryStep (FreshId engine env) events)
    (exclusive : EveryStep (Exclusive engine env) events) :
    (senderSockets (after engine env events).peers).length ≤ 1 := by
  induction events using history_induction with
  | base => simp [after, Room.initial, Room.load, senderSockets]
  | step before event ih =>
    obtain ⟨freshBefore, freshNow⟩ := everyStep_concat.mp fresh
    obtain ⟨exclusiveBefore, exclusiveNow⟩ := everyStep_concat.mp exclusive
    have earlier := ih freshBefore exclusiveBefore
    rw [after_concat]
    rcases senderSockets_next env freshNow with sublist | ⟨d, received, hello, grows⟩
    · exact sublist.length_le.trans earlier
    · rw [grows, exclusiveNow d received hello]
      simp

/-- A sender's record lasts as long as its connection is open. -/
theorem record_survives {room : Room} {event : Event} {p : PeerConn}
    (nodup : (room.peers.map (·.id)).Nodup)
    (fresh : ∀ d, room.received? engine event = some d → ∀ p ∈ room.peers, p.id ≠ d.uuid)
    (member : p ∈ room.peers) (role : p.role = .sender)
    (isOpen : (room.next engine env event).IsOpen p.ws) :
    p ∈ (room.next engine env event).peers := by
  have unique {q : PeerConn} (present : q ∈ room.peers) (same : p.id = q.id) : p = q :=
    List.inj_on_of_nodup_map nodup member present same
  rw [Room.next] at isOpen ⊢
  have step := outcome engine env room event
  generalize room.handle engine env event = result at step isOpen
  cases step with
  | fetch roomHint tokenParam =>
    rwa [fetch_peers]
  | senderHello d received hello =>
    rw [welcome_peers]
    exact mem_setPeer_of_ne member (fresh d received p member)
  | receiverHello d received hello =>
    rcases receiverHello_state engine env room d.ws d.tokenParam d.now d.uuid d.msg with
      ⟨-, state⟩ | ⟨_, _, _, -, state⟩
    · rw [state]
      exact mem_setPeer_of_ne member (fresh d received p member)
    · rw [state]
      exact member
  | accept d received type peer source =>
    rcases handleAccept_cases room peer d.msg with same | ⟨r, present, -, receiver, -, state⟩
    · rw [same]
      exact member
    · rw [state]
      refine List.mem_map.mpr ⟨p, member, if_neg fun same => ?_⟩
      obtain rfl := unique present same
      -- an accept marks receivers only
      simp [receiver] at role
  | reject d received type peer source =>
    rcases handleReject_cases room peer d.msg with same | ⟨r, present, -, state, -⟩
    · rw [same]
      exact member
    · rw [state] at isOpen ⊢
      refine mem_deletePeer.mpr ⟨member, fun same => ?_⟩
      obtain rfl := unique present same
      -- who is rejected has its socket closed
      exact isOpen.2 List.mem_cons_self
  | revoke d received type peer source =>
    by_cases sender : peer.role = .sender
    · obtain ⟨deleted, among, state, -⟩ := handleRevoke_eq room sender
      rw [state]
      refine List.mem_filter.mpr ⟨member, decide_eq_true fun listed => ?_⟩
      obtain ⟨q, chosen, same⟩ := List.mem_map.mp listed
      obtain rfl := unique (among q chosen).1 same.symm
      simp [(among p chosen).2] at role
    · rw [handleRevoke_of_receiver room sender]
      exact member
  | relay => exact member
  | ignored => exact member
  | closed ws =>
    -- a socket that has ended is not listened to any more
    have other : p.ws ≠ ws := by
      rintro rfl
      have gone : (p.ws : Socket) ∉ (room.listeners.filter (·.1 ≠ p.ws)).map Prod.fst := by simp
      rcases onClose_cases { room with listeners := room.listeners.filter (·.1 ≠ p.ws) } p.ws with
        ⟨same, -⟩ | ⟨peer, -, state, -⟩ | ⟨peer, closed, -, -, state, -, -⟩
      · rw [same] at isOpen
        exact gone isOpen.1
      · rw [state] at isOpen
        exact gone isOpen.1
      · rw [state] at isOpen
        exact gone isOpen.1
    rcases onClose_cases { room with listeners := room.listeners.filter (·.1 ≠ ws) } ws with
      ⟨same, -⟩ | ⟨peer, found, state, -⟩ | ⟨peer, closed, found, -, state, all, -⟩
    · rw [same]
      exact member
    · obtain ⟨present, socket⟩ := Room.findPeerByWs_some found
      rw [state]
      refine mem_deletePeer.mpr ⟨member, fun same => ?_⟩
      obtain rfl := unique present same
      exact other socket
    · obtain ⟨present, socket⟩ := Room.findPeerByWs_some found
      have different : p.id ≠ peer.id := by
        intro same
        obtain rfl := unique present same
        exact other socket
      rw [state] at isOpen
      exact absurd (List.mem_append_left _ (all p member different)) isOpen.2
  | reload => simp [Room.IsOpen, Room.load] at isOpen

theorem sender_survives {room : Room} {event : Event} {p : PeerConn}
    (nodup : (room.peers.map (·.id)).Nodup)
    (fresh : ∀ d, room.received? engine event = some d → ∀ p ∈ room.peers, p.id ≠ d.uuid)
    (member : p ∈ room.peers) (role : p.role = .sender)
    (isOpen : (room.next engine env event).IsOpen p.ws) :
    p.ws ∈ senderSockets (room.next engine env event).peers :=
  mem_senderSockets.mpr ⟨p, record_survives nodup fresh member role isOpen, role, rfl⟩

/-- From its hello on, an open connection is the only sender. -/
theorem senderSockets_of_open {before later : List Event} {hello : Event} {d : Room.Delivery}
    (fresh : EveryStep (FreshId engine env) (before ++ hello :: later))
    (exclusive : EveryStep (Exclusive engine env) (before ++ hello :: later))
    (received : (after engine env before).received? engine hello = some d)
    (sender : isSenderHello d.msg)
    (isOpen : (after engine env (before ++ hello :: later)).IsOpen d.ws) :
    senderSockets (after engine env (before ++ hello :: later)).peers = [d.ws] := by
  have created : ∀ later, d.ws < (after engine env (before ++ hello :: later)).sockets := by
    intro later
    induction later using List.reverseRecOn with
    | nil =>
      have known := listeners_lt engine env before _ (received_listening engine received)
      rw [after_concat]
      exact Nat.lt_of_lt_of_le known (sockets_next engine env _ hello).created
    | append_singleton later event ih =>
      rw [← List.cons_append, ← List.append_assoc, after_concat]
      exact Nat.lt_of_lt_of_le ih (sockets_next engine env _ event).created
  induction later using List.reverseRecOn with
  | nil =>
    obtain ⟨-, freshNow⟩ := everyStep_concat.mp fresh
    obtain ⟨-, exclusiveNow⟩ := everyStep_concat.mp exclusive
    have nobody := exclusiveNow d received sender
    rw [after_concat, Room.next, handle_of_senderHello engine env received sender,
      welcome_peers, senderSockets_setPeer (freshNow d received), nobody]
    rfl
  | append_singleton later event ih =>
    rw [← List.cons_append, ← List.append_assoc] at fresh exclusive isOpen ⊢
    obtain ⟨freshBefore, freshNow⟩ := everyStep_concat.mp fresh
    obtain ⟨exclusiveBefore, exclusiveNow⟩ := everyStep_concat.mp exclusive
    rw [after_concat] at isOpen ⊢
    have earlier := ih freshBefore exclusiveBefore
      (isOpen_of_next engine env (created later) isOpen)
    have first : d.ws ∈ senderSockets (after engine env (before ++ hello :: later)).peers := by
      rw [earlier]
      exact List.mem_singleton_self _
    obtain ⟨p, member, role, socket⟩ := mem_senderSockets.mp first
    rw [← socket] at isOpen
    -- the record is still there, so the sockets can only have become fewer than one
    have survives := sender_survives (ids_nodup _) freshNow member role isOpen
    rcases senderSockets_next env freshNow with sublist | ⟨d', received', hello', -⟩
    · rw [earlier] at sublist
      rcases List.sublist_singleton.mp sublist with none | same
      · rw [none] at survives
        exact absurd survives List.not_mem_nil
      · exact same
    · -- a second hello would come while there is a sender
      rw [exclusiveNow d' received' hello'] at earlier
      exact absurd earlier (by simp)

/-- Without a sender's record, a decision changes nothing. -/
theorem next_of_decision {room : Room} {event : Event} {d : Room.Delivery}
    (received : room.received? engine event = some d) (decision : isDecision d.msg)
    (powerless : d.ws ∉ senderSockets room.peers) : room.next engine env event = room := by
  have notHello : ¬ Room.isType "hello" d.msg := by
    rcases Bool.or_eq_true_iff.mp decision with first | revoke
    · rcases Bool.or_eq_true_iff.mp first with accept | reject
      · exact type_ne accept (by decide)
      · exact type_ne reject (by decide)
    · exact type_ne revoke (by decide)
  rw [Room.next, handle_of_received engine env received, Room.dispatch, if_neg notHello]
  cases found : room.findPeerByWs d.ws with
  | none => rfl
  | some peer =>
    obtain ⟨member, socket⟩ := Room.findPeerByWs_some found
    have receiver : peer.role ≠ .sender := fun role =>
      powerless (mem_senderSockets.mpr ⟨peer, member, role, socket⟩)
    simp only [Room.handleAccept, Room.handleReject, Room.handleRevoke, if_pos receiver,
      if_pos (Or.inl receiver : peer.role ≠ .sender ∨ _)]
    split_ifs <;> rfl

/-- A notice of a knock goes to a sender. -/
theorem pending_to_sender {room : Room} {event : Event} {dest : Socket} {frame : Value}
    (sent : .send dest frame ∈ (room.handle engine env event).2)
    (notice : Room.isType "pending" frame) : dest ∈ senderSockets room.peers := by
  have step := outcome engine env room event
  generalize room.handle engine env event = result at step sent
  -- of all messages only the notice of a knock has this type
  have other {name : String} {members : List (String × Value)}
      (same : frame = message name members) (different : str name ≠ str "pending") : False := by
    rw [same, isType_message] at notice
    exact different (of_decide_eq_true notice)
  cases step with
  | fetch => simp at sent
  | senderHello d received hello =>
    obtain ⟨-, same⟩ := Effect.send.inj (Room.mem_send sent)
    exact (other same (by decide)).elim
  | receiverHello d received hello =>
    have knocks := receiverHello_outcome engine env room d.ws d.tokenParam d.now d.uuid d.msg
    generalize room.receiverHello engine env d.ws d.tokenParam d.now d.uuid d.msg = result
      at knocks sent
    have refused {room : Room} {name : String} {members : List (String × Value)} {code : ℕ}
        {reason : String} (different : str name ≠ str "pending")
        (sent : .send dest frame ∈
          (room.sendAndClose d.ws (message name members) code reason).2) : False := by
      rcases Room.mem_sendAndClose sent with same | same
      · exact other (Effect.send.inj same).2 different
      · simp at same
    cases knocks with
    | admitted passes effects notices =>
      obtain ⟨sender, member, role, same⟩ := notices _ sent
      obtain ⟨rfl, -⟩ := Effect.send.inj same
      exact mem_senderSockets.mpr ⟨sender, member, role, rfl⟩
    | wrongToken => exact (refused (by decide) sent).elim
    | expired => exact (refused (by decide) sent).elim
    | lockedOut => exact (refused (by decide) sent).elim
    | noText => simp at sent
  | accept d received type peer source =>
    rcases handleAccept_cases room peer d.msg with same | ⟨r, -, -, -, -, same⟩
    · simp [same] at sent
    · rw [same] at sent
      exact (other (Effect.send.inj (Room.mem_send sent)).2 (by decide)).elim
  | reject d received type peer source =>
    rcases handleReject_cases room peer d.msg with same | ⟨r, -, -, -, effects⟩
    · simp [same] at sent
    · rcases effects _ sent with same | same
      · exact (other (Effect.send.inj same).2 (by decide)).elim
      · simp at same
  | revoke d received type peer source =>
    by_cases sender : peer.role = .sender
    · obtain ⟨deleted, -, -, effects⟩ := handleRevoke_eq room sender
      obtain ⟨p, -, same | same⟩ := effects _ sent
      · exact (other (Effect.send.inj same).2 (by decide)).elim
      · simp at same
    · simp [handleRevoke_of_receiver room sender] at sent
  | relay d received signal peer source =>
    obtain ⟨target, -, -, same, -⟩ := mem_relayToPeer sent
    obtain ⟨-, rfl⟩ := Effect.send.inj same
    -- what is relayed keeps its type, and that is one of two others
    have type : Room.isType "pending" d.msg := by
      by_cases role : target.role = .sender
      · rwa [if_pos role, isType_attributed] at notice
      · rwa [if_neg role] at notice
    rcases Bool.or_eq_true_iff.mp signal with sdp | ice
    · exact absurd type (type_ne sdp (by decide))
    · exact absurd type (type_ne ice (by decide))
  | ignored => simp at sent
  | closed ws =>
    rcases onClose_cases { room with listeners := room.listeners.filter (·.1 ≠ ws) } ws with
      ⟨same, -⟩ | ⟨peer, -, -, effects⟩ | ⟨peer, closed, -, -, -, -, effects⟩
    · rw [same] at sent
      exact absurd sent List.not_mem_nil
    · obtain ⟨_, same⟩ := effects _ sent
      exact (other (Effect.send.inj same).2 (by decide)).elim
    · obtain ⟨_, same⟩ := effects _ sent
      simp at same
  | reload => simp at sent

/-- In every run in which no sender hello arrives while there is a sender, there
is at most one; and from its hello until its connection is closed, nobody else's
decisions change the room and nobody else is told of a knock. -/
theorem sender_keeps_authority (events : List Event)
    (fresh : EveryStep (FreshId engine env) events)
    (exclusive : EveryStep (Exclusive engine env) events) :
    (senderSockets (after engine env events).peers).length ≤ 1 ∧
    ∀ before hello later d, events = before ++ hello :: later →
      (after engine env before).received? engine hello = some d → isSenderHello d.msg →
      (after engine env events).IsOpen d.ws → ∀ event,
        (∀ d', (after engine env events).received? engine event = some d' →
          isDecision d'.msg → d'.ws ≠ d.ws →
          (after engine env (events ++ [event])) = after engine env events) ∧
        (∀ dest frame, .send dest frame ∈ effectsAt engine env events event →
          Room.isType "pending" frame → dest = d.ws) := by
  refine ⟨senderSockets_length events fresh exclusive, ?_⟩
  rintro before hello later d rfl received sender isOpen event
  have only := senderSockets_of_open fresh exclusive received sender isOpen
  refine ⟨fun d' received' decision other => ?_, fun dest frame sent notice => ?_⟩
  · rw [after_concat]
    refine next_of_decision received' decision fun power => ?_
    rw [only] at power
    exact other (List.mem_singleton.mp power)
  · have reached := pending_to_sender sent notice
    rw [only] at reached
    exact List.mem_singleton.mp reached

end Authority

/-! ### One sender, and two -/

/-- The connection that opens a room. -/
def opened : List Event := [connect] ++ [arrival 0 0 0 (helloAs "sender")]

theorem sender_keeps_authority_opened :
    (senderSockets (after asciiEngine .deployed opened).peers).length ≤ 1 ∧
    ∀ event dest frame, .send dest frame ∈ effectsAt asciiEngine .deployed opened event →
      Room.isType "pending" frame → dest = 0 := by
  have empty : (after asciiEngine .deployed [connect]).peers = [] := rfl
  have fresh : EveryStep (FreshId asciiEngine .deployed) opened := by
    refine everyStep_concat.mpr ⟨everyStep_concat.mpr ⟨.nil, ?_⟩, ?_⟩
    · intro d received p member
      exact absurd member List.not_mem_nil
    · intro d received p member
      exact absurd (empty ▸ member) List.not_mem_nil
  have exclusive : EveryStep (Exclusive asciiEngine .deployed) opened := by
    refine everyStep_concat.mpr ⟨everyStep_concat.mpr ⟨.nil, ?_⟩, ?_⟩
    · intro d received hello
      rfl
    · intro d received hello
      rw [empty]
      rfl
  have facts : (((after asciiEngine .deployed [connect]).received? asciiEngine
      (arrival 0 0 0 (helloAs "sender"))).any fun d => d.ws = 0 && isSenderHello d.msg) = true := by
    decide +kernel
  obtain ⟨d, received, shape⟩ := (Option.any_eq_true ..).mp facts
  simp only [Bool.and_eq_true, decide_eq_true_eq] at shape
  obtain ⟨atMostOne, keeps⟩ := sender_keeps_authority opened fresh exclusive
  refine ⟨atMostOne, fun event dest frame sent notice => ?_⟩
  have isOpen : (after asciiEngine .deployed opened).IsOpen d.ws := by
    rw [shape.1]
    decide +kernel
  rw [← shape.1]
  exact (keeps [connect] _ [] d rfl received shape.2 isOpen event).2 dest frame sent notice

/-- After the sender and a receiver, a third connection says hello as a sender. -/
def usurped : List Event :=
  [connect, connect, connect, arrival 0 0 0 (helloAs "sender"),
    arrival 1 1 1 (helloAs "receiver"), arrival 2 2 2 (helloAs "sender")]

/-- The third connection is a sender too, and revokes the token. -/
theorem second_sender_revokes :
    (senderSockets (after asciiEngine .deployed usurped).peers).length = 2 ∧
    (after asciiEngine .deployed usurped).IsOpen 0 ∧
    (after asciiEngine .deployed usurped).token = some sampleToken ∧
    (after asciiEngine .deployed
      (usurped ++ [arrival 2 3 3 (message "revoke" [])])).token = none := by
  decide +kernel

end Tether.Backend
