import Tether.Backend.Authority
import Tether.Semantics.Lookup
import Tether.Semantics.Roster

/-!
# The sender's view of the waiting room

A sender is told who knocks and who leaves, and knows whom it has turned away itself.
Only the first sender is told, only once, and only while it can be reached, so the
view is exact as long as nothing happens behind a sender's back.

## Main definitions

* `view` — what a connection makes of what it has been told, and of its own decisions
* `Exact` — every connected sender's view lists the receivers that have records
* `Told` — an event of which every connected sender hears

## Main results

* `view_exact` — the views are exact in every run whose events all are of this kind
* `unannounced_receiver` — a sender that comes back is not told who waits
-/

namespace Tether.Backend

open Text Js Semantics

/-- The identifiers of the receivers' records. -/
def receiverIds (peers : List PeerConn) : List Str :=
  (peers.filter (·.role = .receiver)).map (·.id.str)

/-! ### The view of a connection -/

/-- A frame from the room: a knock adds its identifier, a departure removes it. -/
def readNotice (roster : List Str) (frame : Value) : Option (List Str) :=
  match frame.get? (str "peer_id") with
  | some (.str id) =>
    if Room.isType "pending" frame then Roster.add id roster
    else if Room.isType "peer_gone" frame then Roster.remove id roster
    else some roster
  | _ => some roster

/-- A frame to the room: a reject removes its identifier, a revoke all of them. -/
def decideOn (msg : Value) (roster : List Str) : List Str :=
  if Room.isType "reject" msg then
    match msg.get? (str "peer_id") with
    | some (.str id) => roster.erase id
    | _ => roster
  else if Room.isType "revoke" msg then []
  else roster

/-- The frames that reach a socket. -/
def heard (ws : Socket) (effects : List Effect) : List Value :=
  effects.filterMap fun effect => match effect with
    | .send dest frame => if dest = ws then some frame else none
    | .close _ _ _ => none

/-- What the connection has sent itself, if anything, and then what it is told. -/
def follow (ws : Socket) (received : Option Room.Delivery) (effects : List Effect)
    (roster : List Str) : Option (List Str) :=
  let roster := match received with
    | none => roster
    | some d => if d.ws = ws then decideOn d.msg roster else roster
  -- a decision of its own comes before what the room answers
  (heard ws effects).foldlM readNotice roster

section

variable (engine : Engine) (env : Env)

/-- The room and the view of a connection, side by side. -/
def watch (ws : Socket) (state : Room × Option (List Str)) (event : Event) :
    Room × Option (List Str) :=
  (state.1.next engine env event,
    state.2.bind (follow ws (state.1.received? engine event) (state.1.handle engine env event).2))

/-- What the connection knows after a run of the room. -/
def view (ws : Socket) (events : List Event) : Option (List Str) :=
  (run (watch engine env ws) (Room.initial, some []) events).2

/-- The connection is a sender's, and stands. -/
def Room.Connected (room : Room) (ws : Socket) : Prop :=
  ws ∈ senderSockets room.peers ∧ room.IsOpen ws

/-- Every connected sender knows exactly who has a record. -/
def Exact (events : List Event) : Prop :=
  ∀ ws, (after engine env events).Connected ws →
    Roster.Mirrors (view engine env ws events) (receiverIds (after engine env events).peers)

/-- The first sender is on this connection. -/
def Room.Notifies (room : Room) (ws : Socket) : Prop :=
  ∃ sender, room.findSender = some sender ∧ sender.ws = ws

/-- Nothing happens to a receiver's record behind the back of a connected sender. -/
structure Told (room : Room) (event : Event) : Prop where
  /-- A new sender finds an empty room. -/
  hello : ∀ d, room.received? engine event = some d → isSenderHello d.msg → room.IsOpen d.ws →
    d.ws ∈ senderSockets room.peers ∨ receiverIds room.peers = []
  /-- A knock is heard by all connected senders. -/
  knock : ∀ d, room.received? engine event = some d → isReceiverHello d.msg →
    Admitted engine room d.tokenParam d.now d.msg → ∀ ws, room.Connected ws → room.Notifies ws
  /-- So is the end of a receiver's connection. -/
  gone : ∀ closing peer, event = .closed closing → room.findPeerByWs closing = some peer →
    peer.role = .receiver → ∀ ws, room.Connected ws → ws ≠ closing → room.Notifies ws
  /-- A rejected receiver can be reached, and no other sender is connected. -/
  reject : ∀ d peer, room.received? engine event = some d → Room.isType "reject" d.msg →
    room.findPeerByWs d.ws = some peer → peer.role = .sender →
    ∀ r ∈ room.peers, r.role = .receiver → d.msg.get? (str "peer_id") = some (.str r.id.str) →
      (room.IsOpen d.ws → room.IsOpen r.ws) ∧
      (room.IsOpen r.ws → ∀ ws, room.Connected ws → ws = d.ws ∨ ws = r.ws)
  /-- The receivers that are revoked can be reached, each on a connection of its own, and
  no other sender is connected. -/
  revoke : ∀ d peer, room.received? engine event = some d → Room.isType "revoke" d.msg →
    room.findPeerByWs d.ws = some peer → peer.role = .sender → receiverIds room.peers ≠ [] →
      ∀ ws, room.Connected ws → ws = d.ws ∧
        (∀ r ∈ room.peers, r.role = .receiver → room.IsOpen r.ws) ∧
        ((room.peers.filter (·.role = .receiver)).map (·.ws)).Nodup

end

/-! ### Receivers among the records -/

section Records

variable {peers : List PeerConn}

theorem mem_receiverIds {id : Str} :
    id ∈ receiverIds peers ↔ ∃ r ∈ peers, r.role = .receiver ∧ r.id.str = id := by
  simp [receiverIds, and_assoc]

theorem receiverIds_append (first second : List PeerConn) :
    receiverIds (first ++ second) = receiverIds first ++ receiverIds second := by
  rw [receiverIds, List.filter_append, List.map_append]
  rfl

theorem receiverIds_markAccepted (id : Uuid) :
    receiverIds (markAccepted id peers) = receiverIds peers := by
  have role (p : PeerConn) :
      (if p.id = id then { p with accepted := true } else p).role = p.role := by
    split_ifs <;> rfl
  have key (p : PeerConn) :
      (if p.id = id then { p with accepted := true } else p).id = p.id := by
    split_ifs <;> rfl
  rw [receiverIds, markAccepted, List.filter_map, List.map_map]
  simp only [Function.comp_def, role, key]
  rfl

theorem nodup_receiverIds (nodup : (peers.map (·.id)).Nodup) : (receiverIds peers).Nodup := by
  have strings := nodup.map Uuid.str_injective
  rw [List.map_map] at strings
  exact strings.sublist (List.filter_sublist.map _)

/-- Deleting a receiver takes its identifier away. -/
theorem receiverIds_deletePeer (nodup : (peers.map (·.id)).Nodup) (id : Uuid) :
    receiverIds (deletePeer id peers) = (receiverIds peers).erase id.str := by
  rw [(nodup_receiverIds nodup).erase_eq_filter, receiverIds, receiverIds, deletePeer,
    List.filter_map, List.filter_filter, List.filter_filter]
  congr 1
  apply List.filter_congr
  intro p _
  by_cases same : p.id = id
  · simp [same]
  · have different : p.id.str ≠ id.str := fun equal => same (Uuid.str_injective equal)
    simp [same, different]

/-- A record of the role of the sender is not among the receivers. -/
theorem not_mem_receiverIds (nodup : (peers.map (·.id)).Nodup) {p : PeerConn} (member : p ∈ peers)
    (role : p.role = .sender) : p.id.str ∉ receiverIds peers := by
  intro listed
  obtain ⟨r, present, receiver, same⟩ := mem_receiverIds.mp listed
  obtain rfl : r = p := List.inj_on_of_nodup_map nodup present member (Uuid.str_injective same)
  simp [receiver] at role

end Records

/-! ### Following -/

section Follow

variable {ws : Socket}

/-- A frame that tells nothing about the waiting room. -/
def IsNotice (frame : Value) : Prop :=
  Room.isType "pending" frame ∨ Room.isType "peer_gone" frame

theorem readNotice_of_other {frame : Value} (other : ¬ IsNotice frame) (roster : List Str) :
    readNotice roster frame = some roster := by
  rw [IsNotice, not_or] at other
  rw [readNotice]
  split
  · rw [if_neg other.1, if_neg other.2]
  · rfl

/-- Nothing that a socket hears is a notice. -/
def NoNotice (ws : Socket) (effects : List Effect) : Prop :=
  ∀ frame, .send ws frame ∈ effects → ¬ IsNotice frame

theorem mem_heard {effects : List Effect} {frame : Value} :
    frame ∈ heard ws effects ↔ .send ws frame ∈ effects := by
  rw [heard, List.mem_filterMap]
  constructor
  · rintro ⟨effect, member, heard⟩
    cases effect with
    | send dest content =>
      simp only at heard
      split_ifs at heard with here
      obtain rfl := Option.some.inj heard
      exact here ▸ member
    | close dest code reason => cases heard
  · intro member
    exact ⟨_, member, if_pos rfl⟩

theorem foldlM_readNotice_of_other {frames : List Value}
    (other : ∀ frame ∈ frames, ¬ IsNotice frame) (roster : List Str) :
    frames.foldlM readNotice roster = some roster := by
  induction frames with
  | nil => rfl
  | cons frame rest ih =>
    rw [List.foldlM_cons, readNotice_of_other (other frame List.mem_cons_self)]
    exact ih fun frame member => other frame (List.mem_cons_of_mem _ member)

/-- The part of a delivered message that its sender's own view knows of. -/
def decided (ws : Socket) (received : Option Room.Delivery) (roster : List Str) : List Str :=
  match received with
  | none => roster
  | some d => if d.ws = ws then decideOn d.msg roster else roster

theorem follow_of_noNotice {received : Option Room.Delivery} {effects : List Effect}
    (quiet : NoNotice ws effects) (roster : List Str) :
    follow ws received effects roster = some (decided ws received roster) :=
  foldlM_readNotice_of_other (fun frame member => quiet frame (mem_heard.mp member)) _

theorem decided_nil (received : Option Room.Delivery) : decided ws received [] = [] := by
  cases received with
  | none => rfl
  | some d =>
    simp only [decided, decideOn]
    split_ifs
    · split <;> rfl
    all_goals rfl

/-- Only rejects and revokes are decisions about the waiting room. -/
theorem decided_of_other {received : Option Room.Delivery}
    (other : ∀ d, received = some d → ¬ Room.isType "reject" d.msg ∧ ¬ Room.isType "revoke" d.msg)
    (roster : List Str) : decided ws received roster = roster := by
  cases received with
  | none => rfl
  | some d =>
    obtain ⟨reject, revoke⟩ := other d rfl
    simp only [decided, decideOn, if_neg reject, if_neg revoke, ite_self]

theorem decided_of_elsewhere {d : Room.Delivery} (elsewhere : d.ws ≠ ws)
    (roster : Option (List Str)) : roster.map (decided ws (some d)) = roster := by
  have same : decided ws (some d) = id := by
    funext roster
    exact if_neg elsewhere
  rw [same, Option.map_id, id]

theorem decided_self (d : Room.Delivery) : decided d.ws (some d) = decideOn d.msg := by
  funext roster
  exact if_pos rfl

theorem decideOn_reject {msg : Value} (type : Room.isType "reject" msg) {id : Str}
    (named : msg.get? (str "peer_id") = some (.str id)) (roster : List Str) :
    decideOn msg roster = roster.erase id := by
  rw [decideOn, if_pos type, named]

theorem decideOn_revoke {msg : Value} (type : Room.isType "revoke" msg) (roster : List Str) :
    decideOn msg roster = [] := by
  rw [decideOn, if_neg (type_ne type (by decide)), if_pos type]

end Follow

section

variable (engine : Engine) (env : Env)

theorem run_watch_fst (ws : Socket) (events : List Event) :
    (run (watch engine env ws) (Room.initial, some []) events).1 = after engine env events := by
  induction events using List.reverseRecOn with
  | nil => rfl
  | append_singleton before event ih =>
    rw [run_concat, after_concat, watch, ih]

theorem view_concat (ws : Socket) (before : List Event) (event : Event) :
    view engine env ws (before ++ [event]) =
      (view engine env ws before).bind
        (follow ws ((after engine env before).received? engine event)
          (effectsAt engine env before event)) := by
  rw [view, run_concat, watch, run_watch_fst]
  rfl

/-! ### What an event does to the waiting room -/

variable {engine env} {room : Room} {event : Event}

theorem handle_of_reject {d : Room.Delivery} (received : room.received? engine event = some d)
    (type : Room.isType "reject" d.msg) :
    room.handle engine env event =
      (room.findPeerByWs d.ws).elim (room, []) fun peer => room.handleReject peer d.msg := by
  rw [handle_of_received engine env received, Room.dispatch, if_neg (type_ne type (by decide))]
  cases room.findPeerByWs d.ws with
  | none => rfl
  | some peer =>
    have notAccept : ¬ Room.isType "accept" d.msg := type_ne type (by decide)
    simp only [Option.elim_some, if_neg notAccept, if_pos type]

theorem handle_of_revoke {d : Room.Delivery} (received : room.received? engine event = some d)
    (type : Room.isType "revoke" d.msg) :
    room.handle engine env event =
      (room.findPeerByWs d.ws).elim (room, []) fun peer => room.handleRevoke peer := by
  rw [handle_of_received engine env received, Room.dispatch, if_neg (type_ne type (by decide))]
  cases room.findPeerByWs d.ws with
  | none => rfl
  | some peer =>
    have notAccept : ¬ Room.isType "accept" d.msg := type_ne type (by decide)
    have notReject : ¬ Room.isType "reject" d.msg := type_ne type (by decide)
    simp only [Option.elim_some, if_neg notAccept, if_neg notReject, if_pos type]

/-- What a room says to its first sender. -/
def Room.notify (room : Room) (content : Value) : List Effect :=
  room.findSender.elim [] fun sender => room.send sender.ws content

theorem Room.mem_notify {content : Value} {effect : Effect}
    (member : effect ∈ room.notify content) :
    ∃ ws ∈ senderSockets room.peers, effect = .send ws content := by
  rw [Room.notify] at member
  cases found : room.findSender with
  | none => simp [found] at member
  | some sender =>
    rw [found] at member
    obtain ⟨present, role⟩ := Room.findSender_some found
    exact ⟨sender.ws, mem_senderSockets.mpr ⟨sender, present, role, rfl⟩, Room.mem_send member⟩

/-- A receiver that passes every check gets a record, and the first sender a notice. -/
theorem receiverHello_of_admitted {ws : Socket} {tokenParam : Option Str} {now : ℤ}
    {recvId : Uuid} {msg : Value} (passes : Admitted engine room tokenParam now msg) :
    room.receiverHello engine env ws tokenParam now recvId msg =
      let next := { room with peers := setPeer (Room.receiverRecord recvId ws msg) room.peers }
      (next, next.notify (pending recvId msg)) := by
  obtain ⟨token, claims, same, inTime, unlocked⟩ := passes
  rw [Room.receiverHello, claims]
  simp only [if_neg same, if_neg inTime, if_neg unlocked, Room.notify]
  split <;> rename_i found <;> simp only [found, Option.elim]

/-- What an event can mean for the connections that hear of the waiting room. -/
inductive Turn (engine : Engine) (env : Env) (room : Room) (event : Event) : Prop
  | knock (d : Room.Delivery) (received : room.received? engine event = some d)
    (hello : isReceiverHello d.msg) (passes : Admitted engine room d.tokenParam d.now d.msg)
  | gone (closing : Socket) (peer : PeerConn) (closed : event = .closed closing)
    (found : room.findPeerByWs closing = some peer) (role : peer.role = .receiver)
  | reject (d : Room.Delivery) (received : room.received? engine event = some d)
    (type : Room.isType "reject" d.msg)
  | revoke (d : Room.Delivery) (received : room.received? engine event = some d)
    (type : Room.isType "revoke" d.msg)
  | quiet (silent : ∀ ws, NoNotice ws (room.handle engine env event).2)
    (undecided : ∀ d, room.received? engine event = some d →
      ¬ Room.isType "reject" d.msg ∧ ¬ Room.isType "revoke" d.msg)
    (same : receiverIds (room.next engine env event).peers = receiverIds room.peers)
  | dropped (silent : ∀ ws, NoNotice ws (room.handle engine env event).2)
    (nobody : ∀ ws, ¬ (room.next engine env event).Connected ws)

theorem not_isNotice_message {name : String} (members : List (String × Value))
    (pending : str name ≠ str "pending") (gone : str name ≠ str "peer_gone") :
    ¬ IsNotice (message name members) := by
  simp [IsNotice, pending, gone]

/-- A signal is no notice, on whomever's behalf it is passed on. -/
theorem noNotice_relayToPeer {msg : Value} (signal : Room.isSignal msg) (source : PeerConn)
    (ws : Socket) : NoNotice ws (room.relayToPeer source msg) := by
  intro frame sent notice
  obtain ⟨target, -, -, same, -⟩ := mem_relayToPeer sent
  obtain ⟨-, rfl⟩ := Effect.send.inj same
  have typed (name : String) :
      Room.isType name (if target.role = .sender then Room.attributed source msg else msg) =
        Room.isType name msg := by
    split_ifs
    · exact isType_attributed name source msg
    · rfl
  rw [IsNotice, typed, typed] at notice
  rcases Bool.or_eq_true_iff.mp signal with sdp | ice
  · exact notice.elim (type_ne sdp (by decide)) (type_ne sdp (by decide))
  · exact notice.elim (type_ne ice (by decide)) (type_ne ice (by decide))

/-- Nobody hears of the waiting room, and the receivers in it stay. -/
structure Unnoticed (room : Room) (result : Room × List Effect) : Prop where
  silent : ∀ dest, NoNotice dest result.2
  same : receiverIds result.1.peers = receiverIds room.peers

/-- A message of another type is no notice. -/
theorem noNotice_of_message {name : String} {members : List (String × Value)} {dest ws : Socket}
    {frame : Value} (sent : Effect.send dest frame = .send ws (message name members))
    (pending : str name ≠ str "pending") (gone : str name ≠ str "peer_gone") :
    ¬ IsNotice frame := by
  rw [(Effect.send.inj sent).2]
  exact not_isNotice_message members pending gone

theorem unnoticed_silence {next : Room} (same : receiverIds next.peers = receiverIds room.peers) :
    Unnoticed room (next, []) :=
  ⟨fun _ _ sent => absurd sent List.not_mem_nil, same⟩

/-- The record of a sender is not a receiver's. -/
theorem unnoticed_welcome {ws : Socket} {now : ℤ} {id : Uuid} {msg : Value}
    (fresh : ∀ p ∈ room.peers, p.id ≠ id) :
    Unnoticed room ((room.armed engine env now msg).welcome ws id msg) where
  silent dest frame sent := noNotice_of_message (Room.mem_send sent) (by decide) (by decide)
  same := by
    rw [welcome_peers, setPeer_of_fresh fresh, receiverIds_append]
    exact List.append_nil _

theorem unnoticed_refusal {ws : Socket} {tokenParam : Option Str} {now : ℤ} {id : Uuid}
    {msg : Value} (refused : ¬ Admitted engine room tokenParam now msg) :
    Unnoticed room (room.receiverHello engine env ws tokenParam now id msg) where
  silent dest frame sent := by
    rcases refusal_of_receiverHello engine env room ws tokenParam now id msg refused sent
      with rfl | rfl
    · exact not_isNotice_message _ (by decide) (by decide)
    · exact not_isNotice_message _ (by decide) (by decide)
  same := by
    rcases receiverHello_state engine env room ws tokenParam now id msg with
      ⟨admitted, -⟩ | ⟨_, _, _, -, state⟩
    · exact absurd admitted refused
    · rw [state]

theorem unnoticed_handleAccept (peer : PeerConn) (msg : Value) :
    Unnoticed room (room.handleAccept peer msg) := by
  rcases handleAccept_cases room peer msg with ignored | ⟨r, -, -, -, -, state⟩
  · rw [ignored]
    exact unnoticed_silence rfl
  · rw [state]
    refine ⟨fun dest frame sent => ?_, receiverIds_markAccepted r.id⟩
    exact noNotice_of_message (Room.mem_send sent) (by decide) (by decide)

/-- When a sender's connection ends, either its own record goes, or everybody's. -/
theorem onClose_of_sender {closing : Socket} {peer : PeerConn}
    (found : room.findPeerByWs closing = some peer) (role : peer.role = .sender) :
    room.onClose closing = if room.reusable
      then ({ room with peers := deletePeer peer.id room.peers }, [])
      else ({ room with
          peers := []
          closed := (deletePeer peer.id room.peers).map (·.ws) ++ room.closed },
        (deletePeer peer.id room.peers).map fun p => .close p.ws 1001 "sender gone") := by
  rw [Room.onClose, found]
  simp only [role]

/-- The turn that the end of a connection takes. -/
theorem turn_of_closed (nodup : (room.peers.map (·.id)).Nodup) (closing : Socket) :
    Turn engine env room (.closed closing) := by
  let heard : Room := { room with listeners := room.listeners.filter (·.1 ≠ closing) }
  have handled : room.handle engine env (.closed closing) = heard.onClose closing := rfl
  have quiet (unnoticed : Unnoticed room (heard.onClose closing)) :
      Turn engine env room (.closed closing) := by
    refine .quiet ?_ (fun d received => by cases received) ?_
    · rw [handled]
      exact unnoticed.silent
    · rw [Room.next, handled]
      exact unnoticed.same
  cases found : heard.findPeerByWs closing with
  | none =>
    apply quiet
    rw [Room.onClose, found]
    exact unnoticed_silence rfl
  | some peer =>
    cases role : peer.role with
    | receiver => exact .gone closing peer rfl found role
    | sender =>
      have left := onClose_of_sender found role
      split_ifs at left
      · -- the record that goes is the sender's own
        apply quiet
        rw [left]
        apply unnoticed_silence
        have own := not_mem_receiverIds nodup (Room.findPeerByWs_some found).1 role
        rw [receiverIds_deletePeer nodup]
        exact List.erase_of_not_mem own
      · -- without a reusable token nobody stays
        apply Turn.dropped
        · intro ws frame sent
          rw [handled, left] at sent
          obtain ⟨p, -, close⟩ := List.mem_map.mp sent
          cases close
        · rintro ws ⟨member, -⟩
          rw [Room.next, handled, left] at member
          cases member

theorem turn_of_reload : Turn engine env room .reload := by
  apply Turn.dropped
  · exact fun ws frame sent => absurd sent List.not_mem_nil
  · rintro ws ⟨-, isOpen⟩
    simp [Room.next, Room.handle, Room.IsOpen, Room.load] at isOpen

/-- Every event takes one of these turns. -/
theorem turn_of_event (nodup : (room.peers.map (·.id)).Nodup)
    (fresh : ∀ d, room.received? engine event = some d → ∀ p ∈ room.peers, p.id ≠ d.uuid) :
    Turn engine env room event := by
  -- decisions come first, so that what is left is undecided
  by_cases rejects : ∃ d, room.received? engine event = some d ∧ Room.isType "reject" d.msg
  · obtain ⟨d, received, type⟩ := rejects
    exact .reject d received type
  by_cases revokes : ∃ d, room.received? engine event = some d ∧ Room.isType "revoke" d.msg
  · obtain ⟨d, received, type⟩ := revokes
    exact .revoke d received type
  have quiet (unnoticed : Unnoticed room (room.handle engine env event)) :
      Turn engine env room event :=
    .quiet unnoticed.silent
      (fun d received =>
        ⟨fun type => rejects ⟨d, received, type⟩, fun type => revokes ⟨d, received, type⟩⟩)
      unnoticed.same
  -- what is left is read off the outcome
  have step := outcome engine env room event
  generalize room.handle engine env event = result at step quiet
  cases step with
  | fetch => exact quiet (unnoticed_silence (congrArg receiverIds (fetch_peers ..)))
  | senderHello d received => exact quiet (unnoticed_welcome (fresh d received))
  | receiverHello d received hello =>
    by_cases passes : Admitted engine room d.tokenParam d.now d.msg
    · exact .knock d received hello passes
    · exact quiet (unnoticed_refusal passes)
  | accept d _ _ peer => exact quiet (unnoticed_handleAccept peer d.msg)
  | reject d received type => exact absurd ⟨d, received, type⟩ rejects
  | revoke d received type => exact absurd ⟨d, received, type⟩ revokes
  | relay _ _ signal peer => exact quiet ⟨noNotice_relayToPeer signal peer, rfl⟩
  | ignored => exact quiet (unnoticed_silence rfl)
  | closed closing => exact turn_of_closed nodup closing
  | reload => exact turn_of_reload

/-- A sender's reject deletes the record that it names, if the connection stands. -/
theorem handleReject_of_sender {peer : PeerConn} (role : peer.role = .sender) (msg : Value) :
    room.handleReject peer msg =
      match getPeer (msg.get? (str "peer_id")) room.peers with
      | none => (room, [])
      | some r =>
        if room.IsOpen r.ws then
          ({ room with peers := deletePeer r.id room.peers, closed := r.ws :: room.closed },
            [.send r.ws rejected, .close r.ws 1000 "rejected"])
        else (room, []) := by
  rw [Room.handleReject]
  cases found : getPeer (msg.get? (str "peer_id")) room.peers with
  | none => split_ifs <;> rfl
  | some r =>
    -- the empty string is no identifier
    have named := (getPeer_some found).2
    have truthy : Value.isFalsy (msg.get? (str "peer_id")) = false := by
      rw [named]
      simpa [Value.isFalsy] using Uuid.str_ne_nil r.id
    rw [if_neg (by simp [role, truthy])]
    simp only [Room.trySend]
    by_cases isOpen : room.IsOpen r.ws
    · simp only [if_pos isOpen]
      rfl
    · simp only [if_neg isOpen]

/-- A reject sends no notices. -/
theorem noNotice_of_reject {d : Room.Delivery} (received : room.received? engine event = some d)
    (type : Room.isType "reject" d.msg) (ws : Socket) :
    NoNotice ws (room.handle engine env event).2 := by
  rw [handle_of_reject received type]
  cases room.findPeerByWs d.ws with
  | none => exact fun frame sent => absurd sent List.not_mem_nil
  | some peer =>
    intro frame sent
    rcases handleReject_cases room peer d.msg with same | ⟨r, -, -, -, effects⟩
    · rw [Option.elim_some, same] at sent
      cases sent
    · rcases effects _ sent with same | same
      · rw [(Effect.send.inj same).2]
        exact not_isNotice_message [] (by decide) (by decide)
      · cases same

/-- Nor does a revoke. -/
theorem noNotice_of_revoke {d : Room.Delivery} (received : room.received? engine event = some d)
    (type : Room.isType "revoke" d.msg) (ws : Socket) :
    NoNotice ws (room.handle engine env event).2 := by
  rw [handle_of_revoke received type]
  cases room.findPeerByWs d.ws with
  | none => exact fun frame sent => absurd sent List.not_mem_nil
  | some peer =>
    intro frame sent
    by_cases sender : peer.role = .sender
    · obtain ⟨deleted, -, -, effects⟩ := handleRevoke_eq room sender
      obtain ⟨p, -, same | same⟩ := effects _ sent
      · rw [(Effect.send.inj same).2]
        exact not_isNotice_message [] (by decide) (by decide)
      · cases same
    · rw [Option.elim_some, handleRevoke_of_receiver room sender] at sent
      cases sent

/-- The end of a receiver's connection takes its first record away, and the first
sender gets a notice. -/
theorem handle_of_gone {closing : Socket} {peer : PeerConn}
    (found : room.findPeerByWs closing = some peer) (role : peer.role = .receiver) :
    room.handle engine env (.closed closing) =
      let next := { room with
        listeners := room.listeners.filter (·.1 ≠ closing), peers := deletePeer peer.id room.peers }
      (next, next.notify (peerGone peer.id)) := by
  have same : Room.findPeerByWs { room with listeners := room.listeners.filter (·.1 ≠ closing) }
      closing = some peer := found
  rw [Room.handle, Room.onClose, same]
  simp only [role, Room.notify]
  split <;> rename_i first <;> simp only [first, Option.elim]

/-- Only senders get notices. -/
theorem notice_to_sender (nodup : (room.peers.map (·.id)).Nodup)
    (fresh : ∀ d, room.received? engine event = some d → ∀ p ∈ room.peers, p.id ≠ d.uuid)
    {dest : Socket} {frame : Value} (sent : .send dest frame ∈ (room.handle engine env event).2)
    (notice : IsNotice frame) : dest ∈ senderSockets room.peers := by
  have turns : Turn engine env room event := turn_of_event nodup fresh
  cases turns with
  | knock d received hello passes =>
    rw [handle_of_receiverHello engine env received hello, receiverHello_of_admitted passes] at sent
    obtain ⟨ws, member, same⟩ := Room.mem_notify sent
    obtain ⟨rfl, -⟩ := Effect.send.inj same
    rw [senderSockets_setPeer (fresh d received), List.mem_append] at member
    exact member.resolve_right List.not_mem_nil
  | gone closing peer closed found role =>
    subst closed
    rw [handle_of_gone found role] at sent
    obtain ⟨ws, member, same⟩ := Room.mem_notify sent
    obtain ⟨rfl, -⟩ := Effect.send.inj same
    obtain ⟨p, present, sender, rfl⟩ := mem_senderSockets.mp member
    exact mem_senderSockets.mpr ⟨p, (mem_deletePeer.mp present).1, sender, rfl⟩
  | reject d received type => exact absurd notice (noNotice_of_reject received type dest frame sent)
  | revoke d received type => exact absurd notice (noNotice_of_revoke received type dest frame sent)
  | quiet silent => exact absurd notice (silent dest frame sent)
  | dropped silent => exact absurd notice (silent dest frame sent)

/-! ### Connected senders -/

/-- A record's socket has been created. -/
theorem peers_lt (events : List Event) :
    ∀ p ∈ (after engine env events).peers, p.ws < (after engine env events).sockets := by
  induction events using List.reverseRecOn with
  | nil => exact fun p member => absurd member List.not_mem_nil
  | append_singleton before event ih =>
    have created := (sockets_next engine env (after engine env before) event).created
    have listening {d : Room.Delivery}
        (received : (after engine env before).received? engine event = some d) :
        d.ws < (after engine env before).sockets :=
      listeners_lt engine env before _ (received_listening engine received)
    have change := peers_next engine env (after engine env before) event
    rw [after_concat]
    intro p member
    refine Nat.lt_of_lt_of_le ?_ created
    generalize ((after engine env before).next engine env event).peers = peers at change member
    cases change with
    | fewer sublist => exact ih p (sublist.subset member)
    -- who says hello listens, and listeners have sockets
    | sender d received =>
      rcases mem_setPeer member with rfl | ⟨old, -⟩
      · exact listening received
      · exact ih p old
    | receiver d received =>
      rcases mem_setPeer member with rfl | ⟨old, -⟩
      · exact listening received
      · exact ih p old
    | accept d received type peer source role id named =>
      obtain ⟨q, old, rfl⟩ := List.mem_map.mp member
      have kept : (if q.id = id then { q with accepted := true } else q).ws = q.ws := by
        split_ifs <;> rfl
      rw [kept]
      exact ih q old

/-- A sender that is connected after an event was so before, unless the event is its
hello. -/
theorem connected_before {before : List Event} {event : Event}
    (fresh : FreshId engine env before event) {ws : Socket}
    (connected : (after engine env (before ++ [event])).Connected ws) :
    (after engine env before).Connected ws ∨
      ∃ d, (after engine env before).received? engine event = some d ∧ isSenderHello d.msg ∧
        ws = d.ws ∧ (after engine env before).IsOpen d.ws ∧
        d.ws ∉ senderSockets (after engine env before).peers := by
  obtain ⟨member, isOpen⟩ := connected
  rw [after_concat] at member isOpen
  have old (known : ws ∈ senderSockets (after engine env before).peers) :
      (after engine env before).Connected ws := by
    obtain ⟨p, present, -, rfl⟩ := mem_senderSockets.mp known
    exact ⟨known, isOpen_of_next engine env (peers_lt before p present) isOpen⟩
  -- sockets are only lost, or the event is a hello and its own is new
  rcases senderSockets_next env fresh with fewer | ⟨d, received, hello, grows⟩
  · exact .inl (old (fewer.subset member))
  · by_cases known : ws ∈ senderSockets (after engine env before).peers
    · exact .inl (old known)
    · rw [grows, List.mem_append] at member
      obtain rfl := List.mem_singleton.mp (member.resolve_left known)
      have created := listeners_lt engine env before _ (received_listening engine received)
      exact .inr ⟨d, received, hello, rfl, isOpen_of_next engine env created isOpen, known⟩

/-- On a connected sender's connection the first record is the sender's. -/
def Ahead (engine : Engine) (env : Env) (events : List Event) : Prop :=
  ∀ ws, (after engine env events).Connected ws → ∀ p,
    (after engine env events).findPeerByWs ws = some p → p.role = .sender

/-- A connection that is no sender's has not been told anything. -/
def Blank (engine : Engine) (env : Env) (events : List Event) : Prop :=
  ∀ ws, ws ∉ senderSockets (after engine env events).peers →
    (after engine env events).IsOpen ws ∨ (after engine env events).sockets ≤ ws →
    view engine env ws events = some []

theorem findPeerByWs_of_connected {ws : Socket} (connected : room.Connected ws) :
    ∃ p, room.findPeerByWs ws = some p := by
  obtain ⟨p, member, -, same⟩ := mem_senderSockets.mp connected.1
  cases found : room.findPeerByWs ws with
  | none =>
    have absent := List.find?_eq_none.mp found p member
    simp [same] at absent
  | some p => exact ⟨p, rfl⟩

/-- The first record of a connection stays the first if it stays at all. -/
theorem findPeerByWs_next {q : PeerConn} {ws : Socket} (nodup : (room.peers.map (·.id)).Nodup)
    (fresh : ∀ d, room.received? engine event = some d → ∀ p ∈ room.peers, p.id ≠ d.uuid)
    (found : room.findPeerByWs ws = some q)
    (member : q ∈ (room.next engine env event).peers) :
    ∃ p, (room.next engine env event).findPeerByWs ws = some p ∧ p.role = q.role := by
  have change := peers_next engine env room event
  rw [Room.findPeerByWs] at found ⊢
  generalize (room.next engine env event).peers = peers at change member ⊢
  cases change with
  | fewer sublist => exact ⟨q, find?_of_sublist sublist nodup.of_map found member, rfl⟩
  | sender d received hello =>
    rw [setPeer_of_fresh (fresh d received), List.find?_append, found]
    exact ⟨q, rfl, rfl⟩
  | receiver d received hello =>
    rw [setPeer_of_fresh (fresh d received), List.find?_append, found]
    exact ⟨q, rfl, rfl⟩
  | accept d received type peer source role id named =>
    have same (p : PeerConn) :
        (if p.id = id then { p with accepted := true } else p).ws = p.ws := by
      split_ifs <;> rfl
    refine ⟨if q.id = id then { q with accepted := true } else q, ?_, by split_ifs <;> rfl⟩
    rw [markAccepted, List.find?_map]
    simp only [Function.comp_def, same, found, Option.map_some]

theorem ahead_next {before : List Event} {event : Event} (ahead : Ahead engine env before)
    (fresh : FreshId engine env before event)
    (told : Told engine (after engine env before) event) :
    Ahead engine env (before ++ [event]) := by
  intro ws connected p found
  have nodup : ((after engine env before).peers.map (·.id)).Nodup := ids_nodup before
  rcases connected_before fresh connected with old | ⟨d, received, hello, rfl, isOpen, unknown⟩
  · obtain ⟨q, first⟩ := findPeerByWs_of_connected old
    obtain ⟨member, rfl⟩ := Room.findPeerByWs_some first
    have role := ahead q.ws old q first
    have isOpen := connected.2
    rw [after_concat] at isOpen found
    -- the record is kept while its connection stands, and what comes later comes behind it
    have survives := record_survives nodup fresh member role isOpen
    obtain ⟨p', found', same⟩ := findPeerByWs_next nodup fresh first survives
    obtain rfl := Option.some.inj (found.symm.trans found')
    rw [same, role]
  · -- the connection has no record before the hello, since the room is empty
    have empty := (told.hello d received hello isOpen).resolve_left unknown
    have nobody : ∀ q ∈ (after engine env before).peers, q.ws ≠ d.ws := by
      intro q member same
      cases role : q.role with
      | sender => exact unknown (mem_senderSockets.mpr ⟨q, member, role, same⟩)
      | receiver =>
        have listed : q.id.str ∈ receiverIds (after engine env before).peers :=
          mem_receiverIds.mpr ⟨q, member, role, rfl⟩
        rw [empty] at listed
        cases listed
    rw [after_concat, Room.next, handle_of_senderHello engine env received hello,
      Room.findPeerByWs, welcome_peers, setPeer_of_fresh (fresh d received),
      List.find?_append, List.find?_eq_none.mpr (by simpa using nobody)] at found
    obtain rfl : Room.senderRecord d.uuid d.ws d.msg = p := by simpa [Room.senderRecord] using found
    rfl

/-! ### The views -/

/-- An event that a connection hears nothing of, and that it has not brought about. -/
theorem view_concat_of_noNotice {before : List Event} {event : Event} {ws : Socket}
    (quiet : NoNotice ws (effectsAt engine env before event)) :
    view engine env ws (before ++ [event]) =
      (view engine env ws before).map
        (decided ws ((after engine env before).received? engine event)) := by
  rw [view_concat]
  cases view engine env ws before with
  | none => rfl
  | some roster => exact follow_of_noNotice quiet roster

theorem blank_next {before : List Event} {event : Event} (blank : Blank engine env before)
    (fresh : FreshId engine env before event) : Blank engine env (before ++ [event]) := by
  have nodup : ((after engine env before).peers.map (·.id)).Nodup := ids_nodup before
  intro ws unknown reachable
  rw [after_concat] at unknown reachable
  have created := (sockets_next engine env (after engine env before) event).created
  -- it was no sender's connection before, since those last as long as they are open
  have unknownBefore : ws ∉ senderSockets (after engine env before).peers := by
    intro known
    obtain ⟨p, member, role, rfl⟩ := mem_senderSockets.mp known
    have older := peers_lt before p member
    rcases reachable with isOpen | future
    · exact unknown (sender_survives nodup fresh member role isOpen)
    · exact Nat.lt_irrefl _ (Nat.lt_of_lt_of_le older (Nat.le_trans created future))
  have reachableBefore : (after engine env before).IsOpen ws ∨
      (after engine env before).sockets ≤ ws := by
    rcases Nat.lt_or_ge ws (after engine env before).sockets with older | future
    · rcases reachable with isOpen | future
      · exact .inl (isOpen_of_next engine env older isOpen)
      · exact absurd (Nat.lt_of_lt_of_le older (Nat.le_trans created future)) (Nat.lt_irrefl _)
    · exact .inr future
  have quiet : NoNotice ws (effectsAt engine env before event) :=
    fun frame sent notice => unknownBefore (notice_to_sender nodup fresh sent notice)
  rw [view_concat_of_noNotice quiet, blank ws unknownBefore reachableBefore, Option.map_some,
    decided_nil]

/-- What is said to the first sender is heard by the connected sender that it is. -/
theorem heard_notify {ws : Socket} {content : Value} (isOpen : room.IsOpen ws)
    (notifies : room.Notifies ws) : heard ws (room.notify content) = [content] := by
  obtain ⟨sender, found, rfl⟩ := notifies
  rw [Room.notify, found, Option.elim_some, Room.send, Room.trySend, if_pos isOpen]
  simp [heard]

theorem peerId_message (name : String) (id : Str) (members : List (String × Value)) :
    (message name (("peer_id", .str id) :: members)).get? (str "peer_id") = some (.str id) := by
  have other : (str "peer_id" == str "type") = false := by decide
  simp [message, Value.get?, List.lookup_cons, other]

/-- A pending frame adds its receiver. -/
theorem readNotice_pending (id : Uuid) (msg : Value) (roster : List Str) :
    readNotice roster (pending id msg) = Roster.add id.str roster := by
  have named : (pending id msg).get? (str "peer_id") = some (.str id.str) :=
    peerId_message "pending" id.str _
  rw [readNotice, named]
  exact if_pos (by rw [pending, isType_message]; exact decide_eq_true rfl)

/-- A peer_gone frame removes it. -/
theorem readNotice_peerGone (id : Uuid) (roster : List Str) :
    readNotice roster (peerGone id) = Roster.remove id.str roster := by
  have named : (peerGone id).get? (str "peer_id") = some (.str id.str) :=
    peerId_message "peer_gone" id.str []
  have other : ¬ Room.isType "pending" (peerGone id) := by
    rw [peerGone, isType_message]
    decide
  rw [readNotice, named]
  simp only [if_neg other]
  exact if_pos (by rw [peerGone, isType_message]; exact decide_eq_true rfl)

/-- An event of which a connection hears one notice. -/
theorem view_concat_of_notice {before : List Event} {event : Event} {ws : Socket}
    {notice : Value} (once : heard ws (effectsAt engine env before event) = [notice])
    (undecided : ∀ d, (after engine env before).received? engine event = some d →
      ¬ Room.isType "reject" d.msg ∧ ¬ Room.isType "revoke" d.msg) :
    view engine env ws (before ++ [event]) =
      (view engine env ws before).bind fun roster => readNotice roster notice := by
  rw [view_concat]
  congr 1
  funext roster
  change (heard ws (effectsAt engine env before event)).foldlM readNotice (decided ws _ roster) = _
  rw [once, decided_of_other undecided]
  exact bind_pure _

theorem isReceiverHello_undecided {d : Room.Delivery} (hello : isReceiverHello d.msg) :
    ¬ Room.isType "reject" d.msg ∧ ¬ Room.isType "revoke" d.msg := by
  have type : Room.isType "hello" d.msg := (Bool.and_eq_true_iff.mp hello).1
  exact ⟨type_ne type (by decide), type_ne type (by decide)⟩

/-- A knock that a connected sender hears of. -/
theorem exact_knock {before : List Event} {event : Event} {ws : Socket} {d : Room.Delivery}
    (mirrors : Roster.Mirrors (view engine env ws before)
      (receiverIds (after engine env before).peers))
    (fresh : FreshId engine env before event)
    (received : (after engine env before).received? engine event = some d)
    (hello : isReceiverHello d.msg)
    (passes : Admitted engine (after engine env before) d.tokenParam d.now d.msg)
    (isOpen : (after engine env before).IsOpen ws)
    (notifies : (after engine env before).Notifies ws) :
    Roster.Mirrors (view engine env ws (before ++ [event]))
      (receiverIds (after engine env (before ++ [event])).peers) := by
  let next : Room := { after engine env before with
    peers := setPeer (Room.receiverRecord d.uuid d.ws d.msg) (after engine env before).peers }
  have handled : (after engine env before).handle engine env event =
      (next, next.notify (pending d.uuid d.msg)) := by
    rw [handle_of_receiverHello engine env received hello, receiverHello_of_admitted passes]
  have peers : next.peers = (after engine env before).peers ++
      [Room.receiverRecord d.uuid d.ws d.msg] := setPeer_of_fresh (fresh d received)
  -- the receiver's record comes behind the sender's
  have still : next.Notifies ws := by
    obtain ⟨sender, found, same⟩ := notifies
    refine ⟨sender, ?_, same⟩
    rw [Room.findSender] at found ⊢
    rw [peers, List.find?_append, found]
    rfl
  have once : heard ws (effectsAt engine env before event) = [pending d.uuid d.msg] := by
    rw [effectsAt, handled]
    exact heard_notify isOpen still
  have undecided : ∀ d', (after engine env before).received? engine event = some d' →
      ¬ Room.isType "reject" d'.msg ∧ ¬ Room.isType "revoke" d'.msg := by
    intro d' received'
    obtain rfl := Option.some.inj (received.symm.trans received')
    exact isReceiverHello_undecided hello
  have new : d.uuid.str ∉ receiverIds (after engine env before).peers := by
    intro listed
    obtain ⟨r, member, -, same⟩ := mem_receiverIds.mp listed
    exact fresh d received r member (Uuid.str_injective same)
  rw [view_concat_of_notice once undecided, after_concat, Room.next, handled, peers,
    receiverIds_append]
  simp only [readNotice_pending]
  exact mirrors.add new

/-- The end of a receiver's connection that a connected sender hears of. -/
theorem exact_gone {before : List Event} {closing ws : Socket} {peer : PeerConn}
    (mirrors : Roster.Mirrors (view engine env ws before)
      (receiverIds (after engine env before).peers))
    (found : (after engine env before).findPeerByWs closing = some peer)
    (role : peer.role = .receiver) (isOpen : (after engine env before).IsOpen ws)
    (other : ws ≠ closing) (notifies : (after engine env before).Notifies ws) :
    Roster.Mirrors (view engine env ws (before ++ [.closed closing]))
      (receiverIds (after engine env (before ++ [.closed closing])).peers) := by
  have nodup : ((after engine env before).peers.map (·.id)).Nodup := ids_nodup before
  obtain ⟨member, -⟩ := Room.findPeerByWs_some found
  let next : Room := { after engine env before with
    listeners := (after engine env before).listeners.filter (·.1 ≠ closing)
    peers := deletePeer peer.id (after engine env before).peers }
  have handled : (after engine env before).handle engine env (.closed closing) =
      (next, next.notify (peerGone peer.id)) := handle_of_gone found role
  have still : next.Notifies ws := by
    obtain ⟨sender, first, same⟩ := notifies
    refine ⟨sender, ?_, same⟩
    obtain ⟨present, isSender⟩ := Room.findSender_some first
    apply find?_of_sublist List.filter_sublist nodup.of_map first
    apply mem_deletePeer.mpr
    refine ⟨present, fun equal => ?_⟩
    -- a receiver's record goes, and this one is a sender's
    obtain rfl := List.inj_on_of_nodup_map nodup present member equal
    simp [role] at isSender
  have stands : next.IsOpen ws := by
    obtain ⟨listening, notClosed⟩ := isOpen
    obtain ⟨l, present, rfl⟩ := List.mem_map.mp listening
    refine ⟨List.mem_map_of_mem (List.mem_filter.mpr ⟨present, ?_⟩), notClosed⟩
    simpa using other
  have once : heard ws (effectsAt engine env before (.closed closing)) = [peerGone peer.id] := by
    rw [effectsAt, handled]
    exact heard_notify stands still
  have listed : peer.id.str ∈ receiverIds (after engine env before).peers :=
    mem_receiverIds.mpr ⟨peer, member, role, rfl⟩
  rw [view_concat_of_notice once (by simp [Room.received?]), after_concat, Room.next, handled,
    receiverIds_deletePeer nodup]
  simp only [readNotice_peerGone]
  exact mirrors.remove listed

/-- A sender that rejects a receiver it can reach knows what becomes of the record. -/
theorem exact_own_reject {roster : Option (List Str)} {peer : PeerConn} {msg : Value}
    (mirrors : Roster.Mirrors roster (receiverIds room.peers))
    (nodup : (room.peers.map (·.id)).Nodup) (role : peer.role = .sender)
    (type : Room.isType "reject" msg)
    (reachable : ∀ r ∈ room.peers, r.role = .receiver →
      msg.get? (str "peer_id") = some (.str r.id.str) → room.IsOpen r.ws) :
    Roster.Mirrors (roster.map (decideOn msg))
      (receiverIds (room.handleReject peer msg).1.peers) := by
  rw [handleReject_of_sender role]
  cases found : getPeer (msg.get? (str "peer_id")) room.peers with
  | none =>
    -- nobody has this identifier
    have nobody :
        ∀ id, msg.get? (str "peer_id") = some (.str id) → id ∉ receiverIds room.peers := by
      intro id named listed
      obtain ⟨r, member, -, rfl⟩ := mem_receiverIds.mp listed
      have absent := List.find?_eq_none.mp found r member
      simp [named, Value.isStr] at absent
    obtain ⟨listed, rfl, same⟩ := mirrors
    refine ⟨decideOn msg listed, rfl, ?_⟩
    rw [decideOn, if_pos type]
    split
    · rename_i id named
      rw [List.erase_of_not_mem fun member => nobody id named (same.mem_iff.mp member)]
      exact same
    · exact same
  | some r =>
    obtain ⟨member, named⟩ := getPeer_some found
    -- the record that is found is the only one of this identifier
    have erased : roster.map (decideOn msg) = roster.map (·.erase r.id.str) := by
      congr 1
      funext listed
      exact decideOn_reject type named listed
    rw [erased]
    have after_ := mirrors.erase r.id.str
    simp only
    split_ifs with isOpen
    · rw [receiverIds_deletePeer nodup]
      exact after_
    · -- what is named and out of reach is a sender's own record, and no receiver's
      have isSender : r.role = .sender := by
        cases isReceiver : r.role with
        | sender => rfl
        | receiver => exact absurd (reachable r member isReceiver named) isOpen
      rw [List.erase_of_not_mem (not_mem_receiverIds nodup member isSender)] at after_
      exact after_

/-- A reject that no connected sender is left ignorant of. -/
theorem exact_reject {before : List Event} {event : Event} {ws : Socket} {d : Room.Delivery}
    (mirrors : Roster.Mirrors (view engine env ws before)
      (receiverIds (after engine env before).peers))
    (ahead : Ahead engine env before) (connected : (after engine env before).Connected ws)
    (received : (after engine env before).received? engine event = some d)
    (type : Room.isType "reject" d.msg)
    (told : Told engine (after engine env before) event)
    (still : (after engine env (before ++ [event])).IsOpen ws) :
    Roster.Mirrors (view engine env ws (before ++ [event]))
      (receiverIds (after engine env (before ++ [event])).peers) := by
  have nodup : ((after engine env before).peers.map (·.id)).Nodup := ids_nodup before
  rw [after_concat, Room.next, handle_of_reject received type] at still
  rw [view_concat_of_noNotice (noNotice_of_reject received type ws), received, after_concat,
    Room.next, handle_of_reject received type]
  cases source : (after engine env before).findPeerByWs d.ws with
  | none =>
    -- the connection of a sender has a record
    have elsewhere : d.ws ≠ ws := by
      rintro rfl
      obtain ⟨p, first⟩ := findPeerByWs_of_connected connected
      cases first.symm.trans source
    rw [Option.elim_none, decided_of_elsewhere elsewhere]
    exact mirrors
  | some peer =>
    rw [Option.elim_some]
    rw [source, Option.elim_some] at still
    have reject := told.reject d peer received type source
    by_cases here : d.ws = ws
    · subst here
      have role := ahead d.ws connected peer source
      rw [decided_self]
      exact exact_own_reject mirrors nodup role type fun r member receiver named =>
        (reject role r member receiver named).1 connected.2
    · rw [decided_of_elsewhere here]
      by_cases role : peer.role = .sender
      · rw [handleReject_of_sender role] at still ⊢
        cases found : getPeer (d.msg.get? (str "peer_id")) (after engine env before).peers with
        | none => exact mirrors
        | some r =>
          obtain ⟨member, named⟩ := getPeer_some found
          rw [found] at still
          simp only at still ⊢
          split_ifs at still ⊢ with reachable
          · cases isReceiver : r.role with
            | receiver =>
              -- the sender that is not told is the one on the connection that is closed
              rcases (reject role r member isReceiver named).2 reachable ws connected
                with same | same
              · exact absurd same.symm here
              · exact absurd (same ▸ List.mem_cons_self) still.2
            | sender =>
              rw [receiverIds_deletePeer nodup,
                List.erase_of_not_mem (not_mem_receiverIds nodup member isReceiver)]
              exact mirrors
          · exact mirrors
      · have ignored : (after engine env before).handleReject peer d.msg =
            (after engine env before, []) := by
          rw [Room.handleReject, if_pos (.inl role)]
        rw [ignored]
        exact mirrors

/-- The loop of a revoke leaves none of the receivers that it can reach one by one. -/
theorem revokeReceivers_all (walked : List PeerConn)
    (reachable : ∀ r ∈ walked, r.role = .receiver → room.IsOpen r.ws)
    (apart : ((walked.filter (·.role = .receiver)).map (·.ws)).Nodup) :
    ∀ p ∈ (room.revokeReceivers walked).1.peers,
      p ∈ room.peers ∧ ∀ r ∈ walked, r.role = .receiver → p.id ≠ r.id := by
  induction walked generalizing room with
  | nil => exact fun p member => ⟨member, by simp⟩
  | cons first rest ih =>
    rw [Room.revokeReceivers]
    have later (r : PeerConn) (member : r ∈ rest) (role : r.role = .receiver) : room.IsOpen r.ws :=
      reachable r (List.mem_cons_of_mem _ member) role
    by_cases receiver : first.role = .receiver
    · have isOpen := reachable first List.mem_cons_self receiver
      rw [List.filter_cons_of_pos (by simpa using receiver), List.map_cons,
        List.nodup_cons] at apart
      simp only [if_pos receiver, Room.trySend, if_pos isOpen]
      intro p member
      -- closing this socket leaves the others open, since each receiver has its own
      have open_ : ∀ r ∈ rest, r.role = .receiver →
          Room.IsOpen { room.close first.ws with peers := deletePeer first.id room.peers }
            r.ws := by
        intro r inside role
        obtain ⟨listening, notClosed⟩ := later r inside role
        refine ⟨listening, fun closed => ?_⟩
        rcases List.mem_cons.mp closed with same | before
        · apply apart.1
          exact List.mem_map.mpr ⟨r, List.mem_filter.mpr ⟨inside, by simpa using role⟩, same⟩
        · exact notClosed before
      obtain ⟨kept, others⟩ := ih open_ apart.2 p member
      obtain ⟨old, different⟩ := mem_deletePeer.mp kept
      refine ⟨old, fun r inside role => ?_⟩
      rcases List.mem_cons.mp inside with rfl | inside
      · exact different
      · exact others r inside role
    · rw [List.filter_cons_of_neg (by simpa using receiver)] at apart
      rw [if_neg receiver]
      intro p member
      obtain ⟨old, others⟩ := ih later apart p member
      refine ⟨old, fun r inside role => ?_⟩
      rcases List.mem_cons.mp inside with rfl | inside
      · exact absurd role receiver
      · exact others r inside role

/-- A revoke that no connected sender is left ignorant of. -/
theorem exact_revoke {before : List Event} {event : Event} {ws : Socket} {d : Room.Delivery}
    (mirrors : Roster.Mirrors (view engine env ws before)
      (receiverIds (after engine env before).peers))
    (ahead : Ahead engine env before) (connected : (after engine env before).Connected ws)
    (received : (after engine env before).received? engine event = some d)
    (type : Room.isType "revoke" d.msg)
    (told : Told engine (after engine env before) event) :
    Roster.Mirrors (view engine env ws (before ++ [event]))
      (receiverIds (after engine env (before ++ [event])).peers) := by
  rw [view_concat_of_noNotice (noNotice_of_revoke received type ws), received, after_concat,
    Room.next, handle_of_revoke received type]
  cases source : (after engine env before).findPeerByWs d.ws with
  | none =>
    have elsewhere : d.ws ≠ ws := by
      rintro rfl
      obtain ⟨p, first⟩ := findPeerByWs_of_connected connected
      cases first.symm.trans source
    rw [Option.elim_none, decided_of_elsewhere elsewhere]
    exact mirrors
  | some peer =>
    rw [Option.elim_some]
    by_cases role : peer.role = .sender
    · have revoke := told.revoke d peer received type source role
      obtain ⟨deleted, -, state, -⟩ := handleRevoke_eq (after engine env before) role
      by_cases empty : receiverIds (after engine env before).peers = []
      · -- there is nobody to revoke
        have still : receiverIds ((after engine env before).handleRevoke peer).1.peers = [] := by
          rw [state]
          apply List.sublist_nil.mp
          rw [← empty]
          exact (List.filter_sublist.filter _).map _
        rw [still]
        rw [empty] at mirrors
        by_cases here : d.ws = ws
        · subst here
          rw [decided_self]
          exact Roster.Mirrors.clear mirrors fun roster => decideOn_revoke type roster
        · rwa [decided_of_elsewhere here]
      · obtain ⟨rfl, reachable, apart⟩ := revoke empty ws connected
        -- the loop comes to every receiver, and reaches all of them
        have nobody : receiverIds ((after engine env before).handleRevoke peer).1.peers = [] := by
          rw [Room.handleRevoke, if_neg (not_not.mpr role)]
          apply List.eq_nil_iff_forall_not_mem.mpr
          intro id listed
          obtain ⟨r, member, receiver, -⟩ := mem_receiverIds.mp listed
          obtain ⟨old, others⟩ := revokeReceivers_all _ (by exact reachable) apart r member
          exact others r old receiver rfl
        rw [nobody, decided_self]
        exact Roster.Mirrors.clear mirrors fun roster => decideOn_revoke type roster
    · have elsewhere : d.ws ≠ ws := by
        rintro rfl
        exact role (ahead d.ws connected peer source)
      rw [handleRevoke_of_receiver _ role, decided_of_elsewhere elsewhere]
      exact mirrors

theorem exact_next {before : List Event} {event : Event} (exact_ : Exact engine env before)
    (blank : Blank engine env before) (ahead : Ahead engine env before)
    (fresh : FreshId engine env before event)
    (told : Told engine (after engine env before) event) :
    Exact engine env (before ++ [event]) := by
  have nodup : ((after engine env before).peers.map (·.id)).Nodup := ids_nodup before
  intro ws connected
  rcases connected_before fresh connected with old | ⟨d, received, hello, rfl, isOpen, unknown⟩
  · have mirrors := exact_ ws old
    have turns : Turn engine env (after engine env before) event := turn_of_event nodup fresh
    cases turns with
    | knock d received hello passes =>
      exact exact_knock mirrors fresh received hello passes old.2
        (told.knock d received hello passes ws old)
    | gone closing peer closed found role =>
      subst closed
      have other : ws ≠ closing := by
        rintro rfl
        have listening := connected.2.1
        rw [after_concat, Room.next, handle_of_gone found role] at listening
        simp at listening
      exact exact_gone mirrors found role old.2 other
        (told.gone closing peer rfl found role ws old other)
    | reject d received type => exact exact_reject mirrors ahead old received type told connected.2
    | revoke d received type => exact exact_revoke mirrors ahead old received type told
    | quiet silent undecided same =>
      have unchanged : decided ws ((after engine env before).received? engine event) = id := by
        funext roster
        exact decided_of_other undecided roster
      rw [view_concat_of_noNotice (silent ws), unchanged, Option.map_id, id, after_concat, same]
      exact mirrors
    | dropped silent nobody =>
      rw [after_concat] at connected
      exact absurd connected (nobody ws)
  · -- a new sender has been told nothing, and nobody is there
    have empty := (told.hello d received hello isOpen).resolve_left unknown
    have quiet : NoNotice d.ws (effectsAt engine env before event) :=
      fun frame sent notice => unknown (notice_to_sender nodup fresh sent notice)
    rw [view_concat_of_noNotice quiet, blank d.ws unknown (.inl isOpen), Option.map_some,
      decided_nil, after_concat, Room.next, handle_of_senderHello engine env received hello,
      welcome_peers, setPeer_of_fresh (fresh d received), receiverIds_append, empty]
    exact ⟨[], rfl, .nil⟩

/-- In every run in which nothing happens behind a sender's back, the view of every
connected sender is exact at any time. -/
theorem view_exact (events : List Event) (fresh : EveryStep (FreshId engine env) events)
    (told : EveryStep (fun before event => Told engine (after engine env before) event) events) :
    ∀ before later, events = before ++ later → Exact engine env before := by
  rintro before later rfl
  have freshBefore := fresh.of_append
  have toldBefore := told.of_append
  clear fresh told
  -- a later sender starts from a blank view, and its decisions count if its record is ahead
  have all : Exact engine env before ∧ Blank engine env before ∧ Ahead engine env before := by
    induction before using List.reverseRecOn with
    | nil =>
      refine ⟨?_, fun ws _ _ => rfl, ?_⟩
      · rintro ws ⟨member, -⟩
        cases member
      · rintro ws ⟨member, -⟩
        cases member
    | append_singleton before event ih =>
      obtain ⟨freshEarlier, fresh⟩ := everyStep_concat.mp freshBefore
      obtain ⟨toldEarlier, told⟩ := everyStep_concat.mp toldBefore
      obtain ⟨exact_, blank, ahead⟩ := ih freshEarlier toldEarlier
      exact ⟨exact_next exact_ blank ahead fresh told, blank_next blank fresh,
        ahead_next ahead fresh told⟩
  exact all.1

end

/-! ### Somebody knocks, and the sender comes back -/

/-- A sender opens the room, and a receiver knocks. -/
def oneWaiting : List Event :=
  [connect, connect, arrival 0 0 0 (helloAs "sender"), arrival 1 1 1 (helloAs "receiver")]

/-- In a room without records everything is told. -/
private theorem told_of_empty {engine : Engine} {room : Room} (empty : room.peers = [])
    (event : Event) : Told engine room event where
  hello := fun d _ _ _ => .inr (by rw [empty]; rfl)
  knock := fun d _ _ _ ws connected => by
    have member := connected.1
    rw [empty] at member
    cases member
  gone := fun closing peer _ found => by
    rw [Room.findPeerByWs, empty] at found
    cases found
  reject := fun d peer _ _ found => by
    rw [Room.findPeerByWs, empty] at found
    cases found
  revoke := fun d peer _ _ found => by
    rw [Room.findPeerByWs, empty] at found
    cases found

/-- So is a receiver hello while there is one sender. -/
private theorem told_of_receiverHello {engine : Engine} {room : Room} {event : Event}
    (hello : (room.received? engine event).any fun d => isReceiverHello d.msg)
    (one : room.findSender.any fun sender => senderSockets room.peers = [sender.ws]) :
    Told engine room event := by
  obtain ⟨d, received, hello⟩ := (Option.any_eq_true ..).mp hello
  have undecided := isReceiverHello_undecided hello
  have same {d' : Room.Delivery} (received' : room.received? engine event = some d') : d' = d :=
    Option.some.inj (received'.symm.trans received)
  constructor
  · rintro d' received' isSender
    obtain rfl := same received'
    simp only [isReceiverHello, isSenderHello, Bool.and_eq_true, Bool.not_eq_true']
      at hello isSender
    rw [hello.2] at isSender
    cases isSender.2
  · intro d' _ _ _ ws connected
    obtain ⟨sender, found, only⟩ := (Option.any_eq_true ..).mp one
    have member := connected.1
    rw [of_decide_eq_true only, List.mem_singleton] at member
    exact ⟨sender, found, member.symm⟩
  · rintro closing peer rfl
    cases received
  · intro d' peer received' type
    obtain rfl := same received'
    exact absurd type undecided.1
  · intro d' peer received' type
    obtain rfl := same received'
    exact absurd type undecided.2

/-- Whether an identifier is in use can be looked up. -/
instance (engine : Engine) (env : Env) (before : List Event) (event : Event) :
    Decidable (FreshId engine env before event) :=
  decidable_of_iff (((after engine env before).received? engine event).all fun d =>
    (after engine env before).peers.all fun p => p.id ≠ d.uuid)
    (by rw [FreshId]; cases (after engine env before).received? engine event <;> simp)

/-- The sender knows of the receiver that knocked. -/
theorem view_exact_one_waiting :
    Roster.Mirrors (view asciiEngine .deployed 0 oneWaiting) [(numbered 1).str] := by
  -- the run is evaluated once
  have facts : EveryStep (FreshId asciiEngine .deployed) oneWaiting ∧
      (0 ∈ senderSockets (after asciiEngine .deployed oneWaiting).peers ∧
        (after asciiEngine .deployed oneWaiting).IsOpen 0) ∧
      receiverIds (after asciiEngine .deployed oneWaiting).peers = [(numbered 1).str] := by
    decide +kernel
  obtain ⟨fresh, connected, listed⟩ := facts
  have told : EveryStep (fun before event =>
      Told asciiEngine (after asciiEngine .deployed before) event) oneWaiting := by
    refine everyStep_cons.mpr ⟨told_of_empty rfl _, everyStep_cons.mpr ⟨told_of_empty rfl _,
      everyStep_cons.mpr ⟨told_of_empty rfl _, everyStep_cons.mpr ⟨?_, .nil⟩⟩⟩⟩
    exact told_of_receiverHello (by decide +kernel) (by decide +kernel)
  rw [← listed]
  exact view_exact oneWaiting fresh told oneWaiting [] rfl 0 connected

/-- A receiver waits in a room with a reusable token, and a new connection of the sender
follows the one that has ended. -/
def comeback : List Event :=
  -- a reusable token keeps the receivers while the sender is away
  let reusable := message "hello" [("role", .str (str "sender")), ("reusable", .bool true)]
  [connect, connect, connect, arrival 0 0 0 reusable, arrival 1 1 1 (helloAs "receiver"),
    .closed 0, arrival 2 2 2 reusable]

/-- The sender that came back is connected, and has not been told of the receiver. -/
theorem unannounced_receiver :
    EveryStep (FreshId asciiEngine .deployed) comeback ∧
    (after asciiEngine .deployed comeback).Connected 2 ∧
    receiverIds (after asciiEngine .deployed comeback).peers = [(numbered 1).str] ∧
    view asciiEngine .deployed 2 comeback = some [] ∧
    ¬ Exact asciiEngine .deployed comeback := by
  -- the run is evaluated once
  have facts : EveryStep (FreshId asciiEngine .deployed) comeback ∧
      (2 ∈ senderSockets (after asciiEngine .deployed comeback).peers ∧
        (after asciiEngine .deployed comeback).IsOpen 2) ∧
      receiverIds (after asciiEngine .deployed comeback).peers = [(numbered 1).str] ∧
      view asciiEngine .deployed 2 comeback = some [] := by
    decide +kernel
  obtain ⟨fresh, connected, listed, ignorant⟩ := facts
  refine ⟨fresh, connected, listed, ignorant, fun exact_ => ?_⟩
  obtain ⟨roster, known, same⟩ := exact_ 2 connected
  rw [ignorant] at known
  obtain rfl := Option.some.inj known
  rw [listed] at same
  cases same.length_eq

end Tether.Backend
