import Tether.Backend.WaitingRoom

/-!
# Sockets and records

A hello adds a record for its socket whether or not the socket has one, and the end
of a connection removes the first record of its socket only. The two match as long
as no socket is given a second record.

## Main definitions

* `Ended` — the end of the connection has been heard of
* `Matched` — every socket has one record at most, and none when it has ended
* `Unclaimed` — a hello that adds a record comes on a socket without one

## Main results

* `matched_iff` — sockets and records match all along a run exactly if every such
  hello is unclaimed
* `second_record_stays` — a second record outlives its connection
-/

namespace Tether.Backend

open Js Semantics

section Matched

variable (engine : Engine) (env : Env)

/-- The socket has been created, and its end has been heard of. -/
def Ended (events : List Event) (ws : Socket) : Prop :=
  ∃ before later, events = before ++ .closed ws :: later ∧
    ws < (after engine env before).sockets

/-- Sockets and records match. -/
structure Matched (events : List Event) : Prop where
  single : ((after engine env events).peers.map (·.ws)).Nodup
  gone : ∀ p ∈ (after engine env events).peers, ¬ Ended engine env events p.ws
  own : ∀ p ∈ (after engine env events).peers,
    (after engine env events).findPeerByWs p.ws = some p
  alive : ∀ p, (after engine env events).findSender = some p → ¬ Ended engine env events p.ws

/-- The hello adds a record. -/
def Joins (room : Room) (d : Room.Delivery) : Prop :=
  isSenderHello d.msg ∨
    isReceiverHello d.msg ∧ Admitted engine room d.tokenParam d.now d.msg

/-- A hello that adds a record comes on a socket that has none, or has the one that
it replaces. -/
def Unclaimed (before : List Event) (event : Event) : Prop :=
  ∀ d, (after engine env before).received? engine event = some d →
    Joins engine (after engine env before) d →
      ∀ p ∈ (after engine env before).peers, p.ws = d.ws → p.id = d.uuid

end Matched

variable {engine : Engine} {env : Env}

/-! ### Ends of connections -/

theorem ended_concat {events : List Event} {event : Event} {ws : Socket} :
    Ended engine env (events ++ [event]) ws ↔
      Ended engine env events ws ∨
        event = .closed ws ∧ ws < (after engine env events).sockets := by
  constructor
  · rintro ⟨before, later, split, created⟩
    rcases List.eq_nil_or_concat later with rfl | ⟨later, last, rfl⟩
    · obtain ⟨rfl, same⟩ := List.append_inj' split rfl
      exact .inr ⟨(List.cons.inj same).1, created⟩
    · rw [List.concat_eq_append, ← List.cons_append, ← List.append_assoc] at split
      obtain ⟨rfl, -⟩ := List.append_inj' split rfl
      exact .inl ⟨before, later, rfl, created⟩
  · rintro (⟨before, later, rfl, created⟩ | ⟨rfl, created⟩)
    · exact ⟨before, later ++ [event], by simp, created⟩
    · exact ⟨events, [], rfl, created⟩

/-- The end of a connection is the end of listening. -/
theorem not_listening_closed (room : Room) (ws : Socket) :
    ∀ l ∈ (room.next engine env (.closed ws)).listeners, l.1 ≠ ws := by
  have filtered : (room.next engine env (.closed ws)).listeners =
      room.listeners.filter (·.1 ≠ ws) := by
    rw [Room.next, Room.handle]
    rcases onClose_cases { room with listeners := room.listeners.filter (·.1 ≠ ws) } ws with
      ⟨same, -⟩ | ⟨peer, -, state, -⟩ | ⟨peer, closed, -, -, state, -, -⟩
    · rw [same]
    · rw [state]
    · rw [state]
  intro l member
  rw [filtered] at member
  simpa using (List.mem_filter.mp member).2

/-- A connection that has ended is never listened to again. -/
theorem not_listening_of_ended {events : List Event} {ws : Socket}
    (ended : Ended engine env events ws) :
    ws < (after engine env events).sockets ∧
      ∀ l ∈ (after engine env events).listeners, l.1 ≠ ws := by
  induction events using history_induction with
  | base =>
    obtain ⟨before, later, split, -⟩ := ended
    simp at split
  | step before event ih =>
    rw [after_concat]
    have change := sockets_next engine env (after engine env before) event
    rcases ended_concat.mp ended with earlier | ⟨rfl, created⟩
    · obtain ⟨created, silent⟩ := ih earlier
      refine ⟨Nat.lt_of_lt_of_le created change.created, fun l member => ?_⟩
      rcases change.listeners l member with old | ⟨new, -⟩
      · exact silent l old
      · rw [new]
        exact (Nat.ne_of_lt created).symm
    · exact ⟨Nat.lt_of_lt_of_le created change.created, not_listening_closed _ ws⟩

theorem not_ended_of_received {events : List Event} {event : Event} {d : Room.Delivery}
    (received : (after engine env events).received? engine event = some d) :
    ¬ Ended engine env events d.ws :=
  fun ended => (not_listening_of_ended ended).2 _ (received_listening engine received) rfl

/-! ### Matching -/

section Step

variable {before : List Event} {event : Event}

/-- With different sockets each record is found, and the sender is one of them. -/
theorem Matched.of_nodup {events : List Event}
    (single : ((after engine env events).peers.map (·.ws)).Nodup)
    (gone : ∀ p ∈ (after engine env events).peers, ¬ Ended engine env events p.ws) :
    Matched engine env events where
  single := single
  gone := gone
  own _ member := find?_key single member
  alive p found := gone p (Room.findSender_some found).1

theorem mem_markAccepted_ws {id : Uuid} {peers : List PeerConn} {p : PeerConn}
    (member : p ∈ markAccepted id peers) : ∃ q ∈ peers, q.ws = p.ws := by
  obtain ⟨q, old, rfl⟩ := List.mem_map.mp member
  refine ⟨q, old, ?_⟩
  split_ifs <;> rfl

theorem map_ws_markAccepted (id : Uuid) (peers : List PeerConn) :
    (markAccepted id peers).map (·.ws) = peers.map (·.ws) := by
  rw [markAccepted, List.map_map]
  refine List.map_congr_left fun p _ => ?_
  rw [Function.comp_apply]
  split_ifs <;> rfl

/-- A record on a socket without one leaves the sockets different. -/
theorem nodup_ws_setPeer {p : PeerConn} {peers : List PeerConn}
    (ids : (peers.map (·.id)).Nodup) (single : (peers.map (·.ws)).Nodup)
    (unclaimed : ∀ q ∈ peers, q.ws = p.ws → q.id = p.id) :
    ((setPeer p peers).map (·.ws)).Nodup := by
  refine List.Nodup.map_on (fun first one second two same => ?_) (nodup_setPeer ids p).of_map
  rcases mem_setPeer one with rfl | ⟨old, other⟩
  · rcases mem_setPeer two with rfl | ⟨old, other⟩
    · rfl
    · exact absurd (unclaimed second old same.symm) other
  · rcases mem_setPeer two with rfl | ⟨older, -⟩
    · exact absurd (unclaimed first old same) other
    · exact List.inj_on_of_nodup_map single old older same

/-- What a hello records is matched if its socket was unclaimed. -/
theorem Matched.join (matched : Matched engine env before) {d : Room.Delivery} {p : PeerConn}
    (received : (after engine env before).received? engine event = some d)
    (shape : p.ws = d.ws ∧ p.id = d.uuid) (joins : Joins engine (after engine env before) d)
    (unclaimed : Unclaimed engine env before event)
    (peers : (after engine env (before ++ [event])).peers =
      setPeer p (after engine env before).peers) :
    Matched engine env (before ++ [event]) := by
  obtain ⟨socket, id⟩ := shape
  have open_ : ∀ ws, event ≠ .closed ws := by
    rintro ws rfl
    cases received
  apply Matched.of_nodup
  · rw [peers]
    refine nodup_ws_setPeer (ids_nodup before) matched.single fun q member same => ?_
    rw [id]
    exact unclaimed d received joins q member (same.trans socket)
  · intro q member ended
    rw [peers] at member
    obtain earlier | ⟨closes, -⟩ := ended_concat.mp ended
    · rcases mem_setPeer member with rfl | ⟨old, -⟩
      · exact not_ended_of_received received (socket ▸ earlier)
      · exact matched.gone q old earlier
    · exact open_ _ closes

/-- The end of a connection removes its record. -/
theorem Matched.close (matched : Matched engine env before) (ws : Socket) :
    ∀ p ∈ (after engine env (before ++ [.closed ws])).peers, p.ws ≠ ws := by
  rw [after_concat, Room.next, Room.handle]
  intro p member same
  rcases onClose_cases { after engine env before with
      listeners := (after engine env before).listeners.filter (·.1 ≠ ws) } ws with
    ⟨unchanged, nobody⟩ | ⟨peer, found, state, -⟩ | ⟨peer, closed, -, -, state, -, -⟩
  · rw [unchanged] at member
    have found := matched.own p member
    rw [same] at found
    exact absurd (found.symm.trans nobody) (by simp)
  · rw [state] at member
    obtain ⟨old, other⟩ := mem_deletePeer.mp member
    have own := matched.own p old
    rw [same] at own
    obtain rfl := Option.some.inj (own.symm.trans found)
    exact other rfl
  · rw [state] at member
    simp at member

/-- Sockets and records stay matched. -/
theorem Matched.concat (matched : Matched engine env before)
    (unclaimed : Unclaimed engine env before event) :
    Matched engine env (before ++ [event]) := by
  have change := peers_next engine env (after engine env before) event
  rw [← after_concat] at change
  generalize next : (after engine env (before ++ [event])).peers = peers at change
  -- a record that was there before is no older than the end of its connection
  have stays (p : PeerConn) (member : p ∈ (after engine env (before ++ [event])).peers)
      (known : ∃ q ∈ (after engine env before).peers, q.ws = p.ws) :
      ¬ Ended engine env (before ++ [event]) p.ws := by
    intro ended
    obtain ⟨q, old, same⟩ := known
    rcases ended_concat.mp ended with earlier | ⟨rfl, -⟩
    · exact matched.gone q old (same ▸ earlier)
    · exact matched.close p.ws p member rfl
  cases change with
  | fewer sublist =>
    apply Matched.of_nodup
    · rw [next]
      exact (sublist.map _).nodup matched.single
    · intro p member
      exact stays p member ⟨p, sublist.subset (next ▸ member), rfl⟩
  | sender d received hello =>
    exact matched.join received ⟨rfl, rfl⟩ (.inl hello) unclaimed next
  | receiver d received hello passes =>
    exact matched.join received ⟨rfl, rfl⟩ (.inr ⟨hello, passes⟩) unclaimed next
  | accept d received type peer source role id named =>
    apply Matched.of_nodup
    · rw [next, map_ws_markAccepted]
      exact matched.single
    · intro p member
      exact stays p member (mem_markAccepted_ws (next ▸ member))

/-- A hello adds its record. -/
theorem peers_of_joins (env : Env) {d : Room.Delivery} {room : Room}
    (received : room.received? engine event = some d) (joins : Joins engine room d) :
    ∃ p : PeerConn, p.ws = d.ws ∧ p.id = d.uuid ∧
      (room.next engine env event).peers = setPeer p room.peers := by
  rcases joins with hello | ⟨hello, passes⟩
  · refine ⟨Room.senderRecord d.uuid d.ws d.msg, rfl, rfl, ?_⟩
    rw [Room.next, handle_of_senderHello engine env received hello, welcome_peers]
  · refine ⟨Room.receiverRecord d.uuid d.ws d.msg, rfl, rfl, ?_⟩
    rw [Room.next, handle_of_receiverHello engine env received hello,
      receiverHello_of_admitted passes]

/-- A second record on a socket is a mismatch. -/
theorem Matched.unclaimed (matched : Matched engine env (before ++ [event])) :
    Unclaimed engine env before event := by
  intro d received joins p member same
  by_contra other
  obtain ⟨added, socket, id, peers⟩ := peers_of_joins env received joins
  rw [← after_concat] at peers
  have kept : p ∈ (after engine env (before ++ [event])).peers := by
    rw [peers]
    exact mem_setPeer_of_ne member (id ▸ other)
  have new : added ∈ (after engine env (before ++ [event])).peers := by
    rw [peers]
    exact mem_setPeer_self added _
  obtain rfl := List.inj_on_of_nodup_map matched.single kept new (same.trans socket.symm)
  exact other id

end Step

theorem matched_nil : Matched engine env [] := by
  apply Matched.of_nodup
  · exact List.nodup_nil
  · intro p member
    exact absurd member (by simp [after, Room.initial, Room.load])

/-- Sockets and records match all along a run exactly if every hello that adds a
record comes on an unclaimed socket. -/
theorem matched_iff (engine : Engine) (env : Env) (events : List Event) :
    (∀ before later, events = before ++ later → Matched engine env before) ↔
      EveryStep (Unclaimed engine env) events := by
  apply always_iff_everyStep (Matched engine env)
  · exact matched_nil
  · intro before event matched unclaimed
    exact matched.concat unclaimed
  · exact fun _ => id
  · intro before event _ matched
    exact matched.unclaimed

/-! ### A sample -/

/-- A receiver says hello twice on its connection, and the connection ends. -/
def twiceHello : List Event :=
  [connect, arrival 0 0 1 (helloAs "sender"), connect, arrival 1 1 2 (helloAs "receiver"),
    arrival 1 2 3 (helloAs "receiver"), .closed 1]

/-- The second record outlives its connection. -/
theorem second_record_stays :
    Ended asciiEngine .deployed twiceHello 1 ∧
    (∃ p ∈ (after asciiEngine .deployed twiceHello).peers, p.ws = 1) ∧
    ¬ Matched asciiEngine .deployed twiceHello := by
  have facts : 1 < (after asciiEngine .deployed (twiceHello.take 5)).sockets ∧
      ∃ p ∈ (after asciiEngine .deployed twiceHello).peers, p.ws = 1 := by
    decide +kernel
  have ended : Ended asciiEngine .deployed twiceHello 1 :=
    ⟨twiceHello.take 5, [], rfl, facts.1⟩
  obtain ⟨p, member, socket⟩ := facts.2
  exact ⟨ended, facts.2, fun matched => matched.gone p member (socket ▸ ended)⟩

end Tether.Backend
