import Tether.Backend.WaitingRoom

/-!
# A room with one sender

While a room has one sender, on a connection that stands, all other records are
receivers'. The lemmas below say for each event that such a room can see what becomes of
these records, and what the sender hears.

## Main definitions

* `Room.guests` — the records of the receivers
* `Hosts` — the first record is the sender's, and the others are guests

## Main results

* `Hosts.frame`, `Hosts.closed` — what receivers do
* `Hosts.accept`, `Hosts.reject`, `Hosts.revoke`, `Hosts.other` — what the sender does
-/

namespace Tether.Backend

open Text Js Semantics

/-- The records of the receivers. -/
def Room.guests (room : Room) : List PeerConn := room.peers.filter (·.role = .receiver)

/-- The record of this identifier, if there is one, and whether it is accepted. -/
def standing (id : Uuid) (guests : List PeerConn) : Option Bool :=
  (guests.find? (·.id = id)).map (·.accepted)

/-- A frame that can change the records when a sender says it. -/
def Decides (msg : Value) : Prop :=
  Room.isType "hello" msg ∨ Room.isType "accept" msg ∨ Room.isType "reject" msg ∨
    Room.isType "revoke" msg

instance : DecidablePred Decides := fun _ => inferInstanceAs (Decidable (_ ∨ _ ∨ _ ∨ _))

/-- The room has one sender, whose record is the first and whose connection stands. -/
structure Hosts (room : Room) (host : PeerConn) : Prop where
  role : host.role = .sender
  peers : room.peers = host :: room.guests
  apart : ∀ g ∈ room.guests, g.ws ≠ host.ws
  isOpen : room.IsOpen host.ws
  nodup : (room.peers.map (·.id)).Nodup

/-! ### Standing -/

section Standing

variable {id : Uuid} {guests : List PeerConn}

theorem standing_eq_none : standing id guests = none ↔ ∀ g ∈ guests, g.id ≠ id := by
  simp [standing]

theorem standing_eq_true (nodup : (guests.map (·.id)).Nodup) :
    standing id guests = some true ↔ ∃ g ∈ guests, g.id = id ∧ g.accepted = true := by
  rw [standing, Option.map_eq_some_iff]
  constructor
  · rintro ⟨g, found, accepted⟩
    exact ⟨g, List.mem_of_find?_eq_some found, by simpa using List.find?_some found, accepted⟩
  · rintro ⟨g, member, rfl, accepted⟩
    exact ⟨g, find?_key nodup member, accepted⟩

/-- A new guest. -/
theorem standing_concat (g : PeerConn) (fresh : ∀ p ∈ guests, p.id ≠ g.id) :
    standing id (guests ++ [g]) = if g.id = id then some g.accepted else standing id guests := by
  by_cases same : g.id = id
  · subst same
    -- the identifier is new, so the new guest is what is found
    have before : guests.find? (·.id = g.id) = none := List.find?_eq_none.mpr (by simpa using fresh)
    rw [if_pos rfl, standing, List.find?_append, before]
    simp
  · rw [if_neg same, standing, List.find?_append]
    simp [standing, same]

theorem standing_deletePeer (other : Uuid) :
    standing id (deletePeer other guests) = if other = id then none else standing id guests := by
  split_ifs with same
  · subst same
    exact standing_eq_none.mpr fun g member => (mem_deletePeer.mp member).2
  · rw [standing, standing, deletePeer, List.find?_filter]
    -- the filter lets through whoever has this identifier
    congr 2
    funext g
    by_cases here : g.id = id
    · simp [here, Ne.symm same]
    · simp [here]

theorem standing_markAccepted (other : Uuid) :
    standing id (markAccepted other guests) =
      if other = id then (standing id guests).map fun _ => true else standing id guests := by
  have key (g : PeerConn) :
      (if g.id = other then { g with accepted := true } else g).id = g.id := by
    split_ifs <;> rfl
  rw [standing, standing, markAccepted, List.find?_map, Option.map_map]
  simp only [Function.comp_def, key]
  cases found : guests.find? (·.id = id) with
  | none => simp
  | some g =>
    have same : g.id = id := by simpa using List.find?_some found
    by_cases here : other = id
    · simp [same, here]
    · simp [same, here, Ne.symm here]

end Standing

namespace Hosts

variable {engine : Engine} {env : Env} {room next : Room} {host : PeerConn}

theorem mem_guests {room : Room} {g : PeerConn} :
    g ∈ room.guests ↔ g ∈ room.peers ∧ g.role = .receiver := by
  simp [Room.guests]

/-! ### Records -/

theorem findSender (hosts : Hosts room host) : room.findSender = some host := by
  rw [Room.findSender, hosts.peers]
  exact List.find?_cons_of_pos (by simpa using hosts.role)

theorem findPeerByWs (hosts : Hosts room host) : room.findPeerByWs host.ws = some host := by
  rw [Room.findPeerByWs, hosts.peers]
  exact List.find?_cons_of_pos (by simp)

/-- Other connections are receivers'. -/
theorem guest_of_found (hosts : Hosts room host) {ws : Socket} {p : PeerConn}
    (found : room.findPeerByWs ws = some p) (other : ws ≠ host.ws) : p ∈ room.guests := by
  obtain ⟨member, rfl⟩ := Room.findPeerByWs_some found
  rw [hosts.peers, List.mem_cons] at member
  rcases member with rfl | guest
  · exact absurd rfl other
  · exact guest

theorem id_ne (hosts : Hosts room host) {g : PeerConn} (guest : g ∈ room.guests) :
    g.id ≠ host.id := by
  have nodup := hosts.nodup
  rw [hosts.peers, List.map_cons, List.nodup_cons] at nodup
  exact fun same => nodup.1 (List.mem_map.mpr ⟨g, guest, same⟩)

theorem notifies (hosts : Hosts room host) : room.Notifies host.ws := ⟨host, hosts.findSender, rfl⟩

/-- The guests behind the host's record, if they are guests. -/
theorem keep (hosts : Hosts room host) {guests : List PeerConn}
    (peers : next.peers = host :: guests)
    (receivers : ∀ g ∈ guests, g.role = .receiver ∧ g.ws ≠ host.ws) (isOpen : next.IsOpen host.ws)
    (nodup : (next.peers.map (·.id)).Nodup) : Hosts next host ∧ next.guests = guests := by
  have same : next.guests = guests := by
    rw [Room.guests, peers, List.filter_cons_of_neg (by simp [hosts.role]), List.filter_eq_self]
    exact fun g member => decide_eq_true (receivers g member).1
  refine ⟨⟨hosts.role, by rw [peers, same], fun g member => ?_, isOpen, nodup⟩, same⟩
  rw [same] at member
  exact (receivers g member).2

theorem keep_fewer (hosts : Hosts room host) {guests : List PeerConn}
    (peers : next.peers = host :: guests) (fewer : guests.Sublist room.guests)
    (isOpen : next.IsOpen host.ws) : Hosts next host ∧ next.guests = guests := by
  refine hosts.keep peers (fun g member => ?_) isOpen ?_
  · have guest := fewer.subset member
    exact ⟨(mem_guests.mp guest).2, hosts.apart g guest⟩
  · have sublist : next.peers.Sublist room.peers := by
      rw [peers, hosts.peers]
      exact fewer.cons_cons host
    exact hosts.nodup.sublist (sublist.map _)

/-- Deleting a guest's record. -/
theorem peers_delete (hosts : Hosts room host) {id : Uuid} (guest : host.id ≠ id) :
    deletePeer id room.peers = host :: deletePeer id room.guests := by
  rw [deletePeer, hosts.peers, List.filter_cons_of_pos (by simpa using guest)]
  rfl

/-- A sender's hello has gone through in a room without records. -/
theorem opened (empty : room.peers = []) {ws : Socket} (isOpen : room.IsOpen ws) (now : ℤ)
    (uuid : Uuid) (hello : Value) :
    Hosts ((room.armed engine env now hello).welcome ws uuid hello).1
        (Room.senderRecord uuid ws hello) ∧
      ((room.armed engine env now hello).welcome ws uuid hello).1.guests = [] := by
  have peers : ((room.armed engine env now hello).welcome ws uuid hello).1.peers =
      [Room.senderRecord uuid ws hello] := by
    rw [welcome_peers, empty]
    rfl
  have nobody : ((room.armed engine env now hello).welcome ws uuid hello).1.guests = [] := by
    rw [Room.guests, peers]
    rfl
  have stands : ((room.armed engine env now hello).welcome ws uuid hello).1.IsOpen ws := by
    obtain ⟨_, _, _, armed⟩ := armed_eq engine env room now hello
    rw [armed]
    exact isOpen
  refine ⟨⟨rfl, by rw [peers, nobody], fun g guest => ?_, stands, ?_⟩, nobody⟩
  · rw [nobody] at guest
    cases guest
  · rw [peers]
    exact List.nodup_singleton _

/-- Closing another connection leaves the host's open. -/
theorem isOpen_close (hosts : Hosts room host) {ws : Socket} (other : ws ≠ host.ws) :
    Room.IsOpen { room with closed := ws :: room.closed } host.ws := by
  obtain ⟨listening, notClosed⟩ := hosts.isOpen
  refine ⟨listening, fun closed => ?_⟩
  rcases List.mem_cons.mp closed with same | before
  · exact other same.symm
  · exact notClosed before

/-! ### Receivers -/

theorem fetch (hosts : Hosts room host) (roomHint tokenParam : Option Str) :
    Hosts (room.fetch roomHint tokenParam) host ∧
      (room.fetch roomHint tokenParam).guests = room.guests := by
  have isOpen : (room.fetch roomHint tokenParam).IsOpen host.ws := by
    obtain ⟨listening, notClosed⟩ := hosts.isOpen
    have adopted : (room.fetch roomHint tokenParam).listeners =
          room.listeners ++ [(room.sockets, tokenParam)] ∧
        (room.fetch roomHint tokenParam).closed = room.closed := by
      cases roomHint with
      | none => exact ⟨rfl, rfl⟩
      | some hint =>
        simp only [Room.fetch]
        split_ifs <;> exact ⟨rfl, rfl⟩
    rw [Room.IsOpen, adopted.1, adopted.2, List.map_append]
    exact ⟨List.mem_append_left _ listening, notClosed⟩
  exact hosts.keep_fewer (by rw [fetch_peers, hosts.peers]) (List.Sublist.refl _) isOpen

variable (engine env) in
/-- The end of a receiver's connection. -/
theorem closed (hosts : Hosts room host) {ws : Socket} (other : ws ≠ host.ws) :
    Hosts (room.next engine env (.closed ws)) host ∧
      ((room.next engine env (.closed ws)).guests = room.guests ∧
          (room.handle engine env (.closed ws)).2 = [] ∨
        ∃ g ∈ room.guests,
          (room.next engine env (.closed ws)).guests = deletePeer g.id room.guests ∧
          heard host.ws (room.handle engine env (.closed ws)).2 = [peerGone g.id]) := by
  -- only the connection that has ended stops listening
  have stands : host.ws ∈ (room.listeners.filter (·.1 ≠ ws)).map Prod.fst := by
    obtain ⟨l, member, same⟩ := List.mem_map.mp hosts.isOpen.1
    refine List.mem_map.mpr ⟨l, List.mem_filter.mpr ⟨member, ?_⟩, same⟩
    simpa [same] using other.symm
  let deaf : Room := { room with listeners := room.listeners.filter (·.1 ≠ ws) }
  cases found : room.findPeerByWs ws with
  | none =>
    have nobody : room.handle engine env (.closed ws) = (deaf, []) := by
      have same : deaf.findPeerByWs ws = none := found
      rw [Room.handle, Room.onClose, same]
    have kept : Hosts deaf host ∧ deaf.guests = room.guests :=
      hosts.keep_fewer hosts.peers (List.Sublist.refl _) ⟨stands, hosts.isOpen.2⟩
    rw [Room.next, nobody]
    exact ⟨kept.1, .inl ⟨kept.2, rfl⟩⟩
  | some g =>
    have guest := hosts.guest_of_found found other
    let left : Room := { deaf with peers := deletePeer g.id room.peers }
    have handled : room.handle engine env (.closed ws) = (left, left.notify (peerGone g.id)) :=
      handle_of_gone found (mem_guests.mp guest).2
    have peers : left.peers = host :: deletePeer g.id room.guests :=
      hosts.peers_delete (hosts.id_ne guest).symm
    have kept : Hosts left host ∧ left.guests = deletePeer g.id room.guests :=
      hosts.keep_fewer peers List.filter_sublist ⟨stands, hosts.isOpen.2⟩
    rw [Room.next, handled]
    refine ⟨kept.1, .inr ⟨g, guest, kept.2, ?_⟩⟩
    exact heard_notify kept.1.isOpen kept.1.notifies

/-- A refusal on another connection. -/
theorem refuse (hosts : Hosts room host) {ws : Socket} (other : ws ≠ host.ws) (content : Value)
    (code : ℕ) (reason : String) :
    Hosts (room.sendAndClose ws content code reason).1 host ∧
      (room.sendAndClose ws content code reason).1.guests = room.guests ∧
      NoNotice host.ws (room.sendAndClose ws content code reason).2 := by
  have elsewhere : NoNotice host.ws (room.sendAndClose ws content code reason).2 := by
    intro frame sent
    rcases Room.mem_sendAndClose sent with same | same
    · exact absurd (Effect.send.inj same).1.symm other
    · cases same
  rw [← and_assoc]
  refine ⟨?_, elsewhere⟩
  rw [Room.sendAndClose]
  cases room.trySend ws content with
  | none => exact ⟨hosts, rfl⟩
  | some sent =>
    exact hosts.keep_fewer hosts.peers (List.Sublist.refl _) (hosts.isOpen_close other)

variable (env) in
/-- A receiver that is admitted gets the last record, and the sender hears of it. -/
theorem joins (hosts : Hosts room host) {d : Room.Delivery} (other : d.ws ≠ host.ws)
    (fresh : ∀ p ∈ room.peers, p.id ≠ d.uuid)
    (passes : Admitted engine room d.tokenParam d.now d.msg) :
    Hosts (room.receiverHello engine env d.ws d.tokenParam d.now d.uuid d.msg).1 host ∧
      (room.receiverHello engine env d.ws d.tokenParam d.now d.uuid d.msg).1.guests =
        room.guests ++ [Room.receiverRecord d.uuid d.ws d.msg] ∧
      heard host.ws (room.receiverHello engine env d.ws d.tokenParam d.now d.uuid d.msg).2 =
        [pending d.uuid d.msg] := by
  rw [receiverHello_of_admitted passes]
  let next : Room :=
    { room with peers := setPeer (Room.receiverRecord d.uuid d.ws d.msg) room.peers }
  have peers : next.peers = host :: (room.guests ++ [Room.receiverRecord d.uuid d.ws d.msg]) := by
    have added : next.peers = room.peers ++ [Room.receiverRecord d.uuid d.ws d.msg] :=
      setPeer_of_fresh fresh
    rw [added, hosts.peers]
    rfl
  have kept : Hosts next host ∧
      next.guests = room.guests ++ [Room.receiverRecord d.uuid d.ws d.msg] := by
    refine hosts.keep peers (fun g member => ?_) hosts.isOpen (nodup_setPeer hosts.nodup _)
    rcases List.mem_append.mp member with guest | new
    · exact ⟨(mem_guests.mp guest).2, hosts.apart g guest⟩
    · obtain rfl := List.mem_singleton.mp new
      exact ⟨rfl, other⟩
  exact ⟨kept.1, kept.2, heard_notify kept.1.isOpen kept.1.notifies⟩

variable (env) in
/-- Of a receiver that is not admitted the sender hears nothing. -/
theorem turnsAway (hosts : Hosts room host) {d : Room.Delivery} (other : d.ws ≠ host.ws)
    (fails : ¬ Admitted engine room d.tokenParam d.now d.msg) :
    Hosts (room.receiverHello engine env d.ws d.tokenParam d.now d.uuid d.msg).1 host ∧
      (room.receiverHello engine env d.ws d.tokenParam d.now d.uuid d.msg).1.guests =
        room.guests ∧
      NoNotice host.ws
        (room.receiverHello engine env d.ws d.tokenParam d.now d.uuid d.msg).2 := by
  have refused := receiverHello_outcome engine env room d.ws d.tokenParam d.now d.uuid d.msg
  generalize room.receiverHello engine env d.ws d.tokenParam d.now d.uuid d.msg = result
    at refused
  cases refused with
  | admitted admitted => exact absurd admitted fails
  | wrongToken =>
    -- a failed attempt is charged to the room, and its records stay
    obtain ⟨attempts, lockedOutUntil, recorded⟩ := Room.recordAttempt_eq env room d.now
    have charged : Hosts (room.recordAttempt env d.now) host ∧
        (room.recordAttempt env d.now).guests = room.guests := by
      rw [recorded]
      exact hosts.keep_fewer hosts.peers (List.Sublist.refl _) hosts.isOpen
    obtain ⟨still, same, quiet⟩ := charged.1.refuse other tokenInvalid 1008 "invalid token"
    exact ⟨still, same.trans charged.2, quiet⟩
  | expired => exact hosts.refuse other tokenInvalid 1008 "expired"
  | lockedOut => exact hosts.refuse other (room.tokenLockedOut engine d.now) 1013 "locked out"
  | noText => exact ⟨hosts, rfl, fun frame sent => absurd sent List.not_mem_nil⟩

variable (env) in
/-- A frame of a receiver, which may be a knock. -/
theorem frame (hosts : Hosts room host) {ws : Socket} {now : Millis} {uuid : Uuid}
    {data : List Char} (other : ws ≠ host.ws) (fresh : ∀ p ∈ room.peers, p.id ≠ uuid)
    (noSender : ∀ d, room.received? engine (.message ws now uuid data) = some d →
      ¬ isSenderHello d.msg) :
    Hosts (room.next engine env (.message ws now uuid data)) host ∧
      ((room.next engine env (.message ws now uuid data)).guests = room.guests ∧
          NoNotice host.ws (room.handle engine env (.message ws now uuid data)).2 ∨
        ∃ g msg, g.id = uuid ∧ g.accepted = false ∧
          (room.next engine env (.message ws now uuid data)).guests = room.guests ++ [g] ∧
          heard host.ws (room.handle engine env (.message ws now uuid data)).2 =
            [pending uuid msg]) := by
  have source {d : Room.Delivery}
      (received : room.received? engine (.message ws now uuid data) = some d) :
      d.ws = ws ∧ d.uuid = uuid := by
    obtain ⟨_, _, -, -, -, rfl⟩ := (received_message engine).mp received
    exact ⟨rfl, rfl⟩
  have receiver {d : Room.Delivery} {peer : PeerConn}
      (received : room.received? engine (.message ws now uuid data) = some d)
      (found : room.findPeerByWs d.ws = some peer) : peer.role = .receiver := by
    rw [(source received).1] at found
    exact (mem_guests.mp (hosts.guest_of_found found other)).2
  have silent : NoNotice host.ws [] := fun frame sent => absurd sent List.not_mem_nil
  -- a receiver's connection can knock, or signal; its decisions are ignored
  have step := outcome engine env room (.message ws now uuid data)
  rw [Room.next]
  generalize handled : room.handle engine env (.message ws now uuid data) = result at step
  cases step with
  | senderHello d received hello => exact absurd hello (noSender d received)
  | receiverHello d received hello =>
    obtain ⟨rfl, rfl⟩ := source received
    by_cases passes : Admitted engine room d.tokenParam d.now d.msg
    · obtain ⟨still, guests, tells⟩ := hosts.joins env other fresh passes
      exact ⟨still, .inr ⟨Room.receiverRecord d.uuid d.ws d.msg, d.msg, rfl, rfl, guests, tells⟩⟩
    · obtain ⟨still, same, quiet⟩ := hosts.turnsAway env other passes
      exact ⟨still, .inl ⟨same, quiet⟩⟩
  | accept d received type peer found =>
    have ignored : room.handleAccept peer d.msg = (room, []) :=
      if_pos (.inl (by simp [receiver received found]))
    rw [ignored]
    exact ⟨hosts, .inl ⟨rfl, silent⟩⟩
  | reject d received type peer found =>
    have ignored : room.handleReject peer d.msg = (room, []) :=
      if_pos (.inl (by simp [receiver received found]))
    rw [ignored]
    exact ⟨hosts, .inl ⟨rfl, silent⟩⟩
  | revoke d received type peer found =>
    rw [handleRevoke_of_receiver room (by simp [receiver received found])]
    exact ⟨hosts, .inl ⟨rfl, silent⟩⟩
  | relay d received signal peer found =>
    exact ⟨hosts, .inl ⟨rfl, noNotice_relayToPeer signal peer host.ws⟩⟩
  | ignored => exact ⟨hosts, .inl ⟨rfl, silent⟩⟩

/-! ### The sender -/

section Sender

variable {event : Event} {d : Room.Delivery}

/-- A frame of the host reaches the room. -/
theorem received (hosts : Hosts room host) (now : Millis) (uuid : Uuid) {data : List Char}
    {msg : Value} (parsed : parse engine data = some msg) (other : isSenderHello msg = false) :
    ∃ tokenParam, room.received? engine (.message host.ws now uuid data) =
      some ⟨host.ws, tokenParam, now, uuid, msg⟩ := by
  cases listening : room.listeners.lookup host.ws with
  | none =>
    have deaf := List.lookup_eq_none_iff.mp listening
    obtain ⟨l, member, same⟩ := List.mem_map.mp hosts.isOpen.1
    exact absurd (deaf l member) (by simp [same])
  | some tokenParam =>
    exact ⟨tokenParam, (received_message engine).mpr
      ⟨tokenParam, msg, listening, parsed, throws_of_not_hello engine other, rfl⟩⟩

/-- The record that the host names, if it is not its own, is a guest's. -/
theorem getPeer_of_named (hosts : Hosts room host) {id : Uuid} (other : host.id ≠ id)
    {r : PeerConn} (found : getPeer (some (.str id.str)) room.peers = some r) :
    r ∈ room.guests ∧ r.id = id := by
  obtain ⟨member, named⟩ := getPeer_some found
  obtain rfl : id = r.id := Uuid.str_injective (by simpa using named)
  rw [hosts.peers, List.mem_cons] at member
  rcases member with rfl | guest
  · exact absurd rfl other
  · exact ⟨guest, rfl⟩

theorem handle_of_accept (received : room.received? engine event = some d)
    (type : Room.isType "accept" d.msg) :
    room.handle engine env event =
      (room.findPeerByWs d.ws).elim (room, []) fun peer => room.handleAccept peer d.msg := by
  rw [handle_of_received engine env received, Room.dispatch, if_neg (type_ne type (by decide))]
  cases room.findPeerByWs d.ws with
  | none => rfl
  | some peer => simp only [Option.elim_some, if_pos type]

theorem not_falsy {msg : Value} {id : Uuid}
    (named : msg.get? (str "peer_id") = some (.str id.str)) :
    Value.isFalsy (msg.get? (str "peer_id")) = false := by
  rw [named, Value.isFalsy, List.isEmpty_eq_false_iff]
  exact id.str_ne_nil

theorem nobody_of_getPeer {id : Uuid} (absent : getPeer (some (.str id.str)) room.peers = none) :
    ∀ g ∈ room.guests, g.id ≠ id := by
  intro g guest same
  have missing := List.find?_eq_none.mp absent g (mem_guests.mp guest).1
  simp [same] at missing

theorem heard_eq_nil {ws : Socket} {effects : List Effect}
    (elsewhere : ∀ frame, .send ws frame ∉ effects) : heard ws effects = [] :=
  List.eq_nil_iff_forall_not_mem.mpr fun frame member => elsewhere frame (mem_heard.mp member)

variable (env) in
/-- An accept marks the guest that it names. -/
theorem accept (hosts : Hosts room host) (received : room.received? engine event = some d)
    (source : d.ws = host.ws) (type : Room.isType "accept" d.msg) {id : Uuid}
    (named : d.msg.get? (str "peer_id") = some (.str id.str)) (other : host.id ≠ id) :
    Hosts (room.next engine env event) host ∧
      (room.next engine env event).guests = markAccepted id room.guests ∧
      heard host.ws (room.handle engine env event).2 = [] := by
  rw [Room.next, handle_of_accept received type, source, hosts.findPeerByWs, Option.elim_some,
    Room.handleAccept, if_neg (by simp [hosts.role, not_falsy named]), named]
  cases found : getPeer (some (.str id.str)) room.peers with
  | none =>
    have same : markAccepted id room.guests = room.guests := by
      conv_rhs => rw [← List.map_id room.guests]
      exact List.map_congr_left fun g guest => if_neg (nobody_of_getPeer found g guest)
    exact ⟨hosts, same.symm, rfl⟩
  | some r =>
    obtain ⟨guest, rfl⟩ := hosts.getPeer_of_named other found
    have receiver := (mem_guests.mp guest).2
    simp only [receiver, ne_eq, not_true, if_false]
    -- the mark passes the host's record by
    have marked : markAccepted r.id room.peers = host :: markAccepted r.id room.guests := by
      rw [markAccepted, hosts.peers, List.map_cons, if_neg other]
      rfl
    have kept : Hosts { room with peers := markAccepted r.id room.peers } host ∧
        Room.guests { room with peers := markAccepted r.id room.peers } =
          markAccepted r.id room.guests := by
      refine hosts.keep marked (fun g member => ?_) hosts.isOpen ?_
      · obtain ⟨g, before, rfl⟩ := List.mem_map.mp member
        have same : (if g.id = r.id then { g with accepted := true } else g).role = g.role ∧
            (if g.id = r.id then { g with accepted := true } else g).ws = g.ws := by
          split_ifs <;> exact ⟨rfl, rfl⟩
        rw [same.1, same.2]
        exact ⟨(mem_guests.mp before).2, hosts.apart g before⟩
      · exact (map_id_markAccepted r.id room.peers).symm ▸ hosts.nodup
    refine ⟨kept.1, kept.2, heard_eq_nil fun frame sent => ?_⟩
    exact hosts.apart r guest (Effect.send.inj (Room.mem_send sent)).1.symm

variable (env) in
/-- A reject deletes the guest that it names, if that one can be reached. -/
theorem reject (hosts : Hosts room host) (received : room.received? engine event = some d)
    (source : d.ws = host.ws) (type : Room.isType "reject" d.msg) {id : Uuid}
    (named : d.msg.get? (str "peer_id") = some (.str id.str)) (other : host.id ≠ id)
    (reachable : ∀ g ∈ room.guests, g.id = id → room.IsOpen g.ws) :
    Hosts (room.next engine env event) host ∧
      (room.next engine env event).guests = deletePeer id room.guests ∧
      heard host.ws (room.handle engine env event).2 = [] := by
  rw [Room.next, handle_of_reject received type, source, hosts.findPeerByWs, Option.elim_some,
    handleReject_of_sender hosts.role, named]
  cases found : getPeer (some (.str id.str)) room.peers with
  | none =>
    have same : deletePeer id room.guests = room.guests := by
      rw [deletePeer, List.filter_eq_self]
      exact fun g guest => decide_eq_true (nobody_of_getPeer found g guest)
    exact ⟨hosts, same.symm, rfl⟩
  | some r =>
    obtain ⟨guest, rfl⟩ := hosts.getPeer_of_named other found
    have away := hosts.apart r guest
    -- the guest can be told, so that the record is deleted
    simp only [if_pos (reachable r guest rfl)]
    have isOpen : Room.IsOpen
        { room with peers := deletePeer r.id room.peers, closed := r.ws :: room.closed } host.ws :=
      hosts.isOpen_close away
    have kept := hosts.keep_fewer (hosts.peers_delete other) List.filter_sublist isOpen
    refine ⟨kept.1, kept.2, heard_eq_nil fun frame sent => ?_⟩
    simp only [List.mem_cons, List.not_mem_nil, or_false, reduceCtorEq] at sent
    exact away (Effect.send.inj sent).1.symm

variable (env) in
/-- A revoke deletes all guests, if they can be reached one by one. -/
theorem revoke (hosts : Hosts room host) (received : room.received? engine event = some d)
    (source : d.ws = host.ws) (type : Room.isType "revoke" d.msg)
    (reachable : ∀ g ∈ room.guests, room.IsOpen g.ws) (apart : (room.guests.map (·.ws)).Nodup) :
    Hosts (room.next engine env event) host ∧ (room.next engine env event).guests = [] ∧
      heard host.ws (room.handle engine env event).2 = [] := by
  rw [Room.next, handle_of_revoke received type, source, hosts.findPeerByWs, Option.elim_some]
  obtain ⟨deleted, among, state, effects⟩ := handleRevoke_eq room hosts.role
  have elsewhere : ∀ p ∈ deleted, p.ws ≠ host.ws := fun p member =>
    hosts.apart p (mem_guests.mpr (among p member))
  -- everybody who can be reached is deleted
  have gone : ∀ g ∈ room.guests, g ∉ (room.handleRevoke host).1.peers := by
    rw [Room.handleRevoke, if_neg (not_not.mpr hosts.role)]
    intro g guest member
    have left := revokeReceivers_all room.peers
      (by exact fun r present role => reachable r (mem_guests.mpr ⟨present, role⟩)) apart g member
    exact left.2 g (mem_guests.mp guest).1 (mem_guests.mp guest).2 rfl
  have peers : (room.handleRevoke host).1.peers = [host] := by
    -- only guests are deleted
    have spared : host.id ∉ deleted.map (·.id) := by
      intro listed
      obtain ⟨p, member, same⟩ := List.mem_map.mp listed
      exact hosts.id_ne (mem_guests.mpr (among p member)) same
    rw [state] at gone ⊢
    simp only [hosts.peers] at gone ⊢
    rw [List.filter_cons_of_pos (by simpa using spared), List.cons.injEq, and_iff_right rfl,
      List.filter_eq_nil_iff]
    intro g guest kept
    exact gone g guest (List.mem_filter.mpr ⟨List.mem_cons_of_mem _ guest, kept⟩)
  have isOpen : (room.handleRevoke host).1.IsOpen host.ws := by
    rw [state]
    refine ⟨hosts.isOpen.1, fun closed => ?_⟩
    rcases List.mem_append.mp closed with same | before
    · obtain ⟨p, member, same⟩ := List.mem_map.mp (List.mem_reverse.mp same)
      exact elsewhere p member same
    · exact hosts.isOpen.2 before
  have kept := hosts.keep_fewer peers (List.nil_sublist _) isOpen
  refine ⟨kept.1, kept.2, heard_eq_nil fun frame sent => ?_⟩
  obtain ⟨p, member, same | same⟩ := effects _ sent
  · exact elsewhere p member (Effect.send.inj same).1.symm
  · cases same

variable (env) in
/-- A frame that decides nothing. -/
theorem other (hosts : Hosts room host)
    (undecided : ∀ d, room.received? engine event = some d → ¬ Decides d.msg) {ws : Socket}
    {now : Millis} {uuid : Uuid} {data : List Char} (frame : event = .message ws now uuid data) :
    Hosts (room.next engine env event) host ∧
      (room.next engine env event).guests = room.guests ∧
      NoNotice host.ws (room.handle engine env event).2 := by
  have silent : NoNotice host.ws [] := fun frame sent => absurd sent List.not_mem_nil
  have step := outcome engine env room event
  rw [Room.next]
  subst frame
  generalize room.handle engine env (.message ws now uuid data) = result at step
  cases step with
  | senderHello d received hello =>
    exact absurd (.inl (Bool.and_eq_true_iff.mp hello).1) (undecided d received)
  | receiverHello d received hello =>
    exact absurd (.inl (Bool.and_eq_true_iff.mp hello).1) (undecided d received)
  | accept d received type => exact absurd (.inr (.inl type)) (undecided d received)
  | reject d received type => exact absurd (.inr (.inr (.inl type))) (undecided d received)
  | revoke d received type => exact absurd (.inr (.inr (.inr type))) (undecided d received)
  | relay d received signal peer => exact ⟨hosts, rfl, noNotice_relayToPeer signal peer host.ws⟩
  | ignored => exact ⟨hosts, rfl, silent⟩

end Sender

end Hosts

end Tether.Backend
