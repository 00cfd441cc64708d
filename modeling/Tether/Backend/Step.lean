import Tether.Backend.Room

/-!
# What one event can do to a room

Every event is dropped or handed to one handler. The lemmas below say it once
for all handlers, and for each handler what it changes; the results about runs
of the room build on them.

## Main definitions

* `Room.received?` — the message that an event delivers
* `Outcome` — the handler that an event is handed to
* `WrongToken`, `Expired`, `Admitted` — how the checks of a receiver hello end
* `farewell` — what a revoke does for one receiver

## Main results

* `outcome` — every event has an outcome
* `peers_next` — how an event changes the records
* `receiverHello_outcome`, `handleAccept_cases`, `handleReject_cases`,
  `revokeReceivers_served`, `handleRevoke_eq`, `mem_relayToPeer`, `onClose_cases` — what each
  handler does
* `next_state`, `sockets_next` — how an event changes everything else
-/

namespace Tether.Backend

open Text Js Semantics

/-! ### Identifiers -/

theorem Uuid.str_injective : Function.Injective Uuid.str := by
  intro a b same
  have texts : a.text = b.text := ofAscii_injective same
  cases a
  cases b
  simpa using texts

theorem Uuid.str_ne_nil (id : Uuid) : id.str ≠ [] := by
  intro empty
  have length : id.str.length = 36 := by rw [Uuid.str, ofAscii, List.length_map, id.length]
  rw [empty] at length
  exact absurd length (by decide)

/-! ### The map of peers -/

theorem mem_setPeer {p q : PeerConn} {peers : List PeerConn} (member : q ∈ setPeer p peers) :
    q = p ∨ q ∈ peers ∧ q.id ≠ p.id := by
  rw [setPeer] at member
  split_ifs at member with present
  · -- a record of this identifier is overwritten in its place
    obtain ⟨other, old, rfl⟩ := List.mem_map.mp member
    by_cases same : other.id = p.id
    · left
      rw [if_pos same]
    · right
      rw [if_neg same]
      exact ⟨old, same⟩
  · rcases List.mem_append.mp member with old | new
    · right
      refine ⟨old, fun same => present ?_⟩
      exact List.any_eq_true.mpr ⟨q, old, by simpa using same⟩
    · left
      simpa using new

theorem mem_setPeer_of_ne {p q : PeerConn} {peers : List PeerConn} (member : q ∈ peers)
    (different : q.id ≠ p.id) : q ∈ setPeer p peers := by
  rw [setPeer]
  split_ifs
  · exact List.mem_map.mpr ⟨q, member, if_neg different⟩
  · exact List.mem_append_left _ member

theorem mem_setPeer_self (p : PeerConn) (peers : List PeerConn) : p ∈ setPeer p peers := by
  rw [setPeer]
  split_ifs with present
  · obtain ⟨q, old, same⟩ := List.any_eq_true.mp present
    exact List.mem_map.mpr ⟨q, old, if_pos (by simpa using same)⟩
  · simp

theorem map_id_setPeer (p : PeerConn) (peers : List PeerConn) :
    (setPeer p peers).map (·.id) =
      if peers.any (·.id = p.id) then peers.map (·.id) else peers.map (·.id) ++ [p.id] := by
  rw [setPeer]
  split_ifs
  · rw [List.map_map]
    refine List.map_congr_left fun q _ => ?_
    simp only [Function.comp_apply]
    split_ifs with same
    · exact same.symm
    · rfl
  · simp

theorem mem_deletePeer {id : Uuid} {p : PeerConn} {peers : List PeerConn} :
    p ∈ deletePeer id peers ↔ p ∈ peers ∧ p.id ≠ id := by
  simp [deletePeer]

theorem getPeer_some {key : Option Value} {peers : List PeerConn} {p : PeerConn}
    (found : getPeer key peers = some p) : p ∈ peers ∧ key = some (.str p.id.str) := by
  obtain ⟨matching, -⟩ := List.find?_eq_some_iff_append.mp found
  exact ⟨List.mem_of_find?_eq_some found, Value.isStr_iff.mp matching⟩

namespace Room

variable {room : Room}

theorem findSender_some {p : PeerConn} (found : room.findSender = some p) :
    p ∈ room.peers ∧ p.role = .sender :=
  ⟨List.mem_of_find?_eq_some found, by simpa using List.find?_some found⟩

theorem findPeerByWs_some {ws : Socket} {p : PeerConn}
    (found : room.findPeerByWs ws = some p) : p ∈ room.peers ∧ p.ws = ws :=
  ⟨List.mem_of_find?_eq_some found, by simpa using List.find?_some found⟩

/-! ### Sending -/

theorem mem_send {ws : Socket} {content : Value} {effect : Effect}
    (member : effect ∈ room.send ws content) : effect = .send ws content := by
  rw [send, trySend] at member
  split_ifs at member <;> simp_all

theorem mem_trySend {ws : Socket} {content : Value} {sent : List Effect}
    (sends : room.trySend ws content = some sent) {effect : Effect} (member : effect ∈ sent) :
    effect = .send ws content := by
  have same : room.send ws content = sent := by rw [send, sends, Option.getD_some]
  exact mem_send (same ▸ member)

/-- A refusal leaves the records, the token and the rate limit alone. -/
theorem sendAndClose_eq (room : Room) (ws : Socket) (content : Value) (code : ℕ)
    (reason : String) :
    ∃ closed, (room.sendAndClose ws content code reason).1 = { room with closed := closed } ∧
      room.closed ⊆ closed := by
  rw [sendAndClose]
  split
  · exact ⟨room.closed, rfl, List.Subset.refl _⟩
  · exact ⟨ws :: room.closed, rfl, List.subset_cons_self _ _⟩

theorem mem_sendAndClose {ws : Socket} {content : Value} {code : ℕ} {reason : String}
    {effect : Effect} (member : effect ∈ (room.sendAndClose ws content code reason).2) :
    effect = .send ws content ∨ effect = .close ws code reason := by
  rw [sendAndClose] at member
  split at member
  · simp at member
  · rename_i sent sends
    rcases List.mem_append.mp member with first | last
    · exact .inl (mem_trySend sends first)
    · exact .inr (by simpa using last)

/-- A refusal reaches its socket while that is open. -/
theorem send_mem_sendAndClose {ws : Socket} (isOpen : room.IsOpen ws) (content : Value)
    (code : ℕ) (reason : String) :
    .send ws content ∈ (room.sendAndClose ws content code reason).2 := by
  have sends : room.trySend ws content = some [.send ws content] := if_pos isOpen
  rw [sendAndClose, sends]
  exact List.mem_append_left _ (List.mem_singleton_self _)

/-- The ledger and the lockout are all that a recorded attempt changes. -/
theorem recordAttempt_eq (env : Env) (room : Room) (now : ℤ) :
    ∃ attempts lockedOutUntil, room.recordAttempt env now =
      { room with attempts := attempts, lockedOutUntil := lockedOutUntil } := by
  rw [recordAttempt]
  split_ifs
  · exact ⟨_, _, rfl⟩
  · exact ⟨_, room.lockedOutUntil, rfl⟩

/-! ### What an event delivers -/

/-- A message as the handlers see it. -/
structure Delivery where
  ws : Socket
  tokenParam : Option Str
  now : Millis
  uuid : Uuid
  msg : Value

end Room

open Room

section Steps

variable (engine : Engine) (env : Env)

/-- A hello with the role of the sender. -/
def isSenderHello (msg : Value) : Bool :=
  isType "hello" msg && Value.isStr (str "sender") (msg.get? (str "role"))

/-- Any other hello: the role is a receiver's whatever it says. -/
def isReceiverHello (msg : Value) : Bool :=
  isType "hello" msg && !Value.isStr (str "sender") (msg.get? (str "role"))

/-- The message is a sender hello whose minutes cannot be made a number though no expiry is
set. Its handler throws before it has done anything. -/
def Room.throws (room : Room) (msg : Value) : Bool :=
  isSenderHello msg && room.expiresAt.isFalsy && (ttlMinutes engine msg).isNone

/-- The message that an event delivers to the room, unless its handler throws at once. -/
def Room.received? (room : Room) : Event → Option Delivery
  | .message ws now uuid data =>
    match room.listeners.lookup ws, parse engine data with
    | some tokenParam, some msg =>
      if room.throws engine msg then none else some ⟨ws, tokenParam, now, uuid, msg⟩
    | _, _ => none
  | _ => none

/-- The room with an expiry that a sender hello has set, if there was none. -/
def Room.armed (room : Room) (now : ℤ) (msg : Value) : Room :=
  if room.expiresAt.isFalsy then (room.arm engine env now msg).getD room else room

/-- The handler that an event is handed to, with its result. -/
inductive Outcome (room : Room) : Event → Room × List Effect → Prop
  | fetch (roomHint tokenParam : Option Str) :
    Outcome room (.fetch roomHint tokenParam) (room.fetch roomHint tokenParam, [])
  | senderHello {event : Event} (d : Delivery) (received : room.received? engine event = some d)
    (hello : isSenderHello d.msg) :
    Outcome room event ((room.armed engine env d.now d.msg).welcome d.ws d.uuid d.msg)
  | receiverHello {event : Event} (d : Delivery)
    (received : room.received? engine event = some d) (hello : isReceiverHello d.msg) :
    Outcome room event (room.receiverHello engine env d.ws d.tokenParam d.now d.uuid d.msg)
  | accept {event : Event} (d : Delivery) (received : room.received? engine event = some d)
    (type : isType "accept" d.msg) (peer : PeerConn)
    (source : room.findPeerByWs d.ws = some peer) :
    Outcome room event (room.handleAccept peer d.msg)
  | reject {event : Event} (d : Delivery) (received : room.received? engine event = some d)
    (type : isType "reject" d.msg) (peer : PeerConn)
    (source : room.findPeerByWs d.ws = some peer) :
    Outcome room event (room.handleReject peer d.msg)
  | revoke {event : Event} (d : Delivery) (received : room.received? engine event = some d)
    (type : isType "revoke" d.msg) (peer : PeerConn)
    (source : room.findPeerByWs d.ws = some peer) :
    Outcome room event (room.handleRevoke peer)
  | relay {event : Event} (d : Delivery) (received : room.received? engine event = some d)
    (signal : isSignal d.msg) (peer : PeerConn)
    (source : room.findPeerByWs d.ws = some peer) :
    Outcome room event (room, room.relayToPeer peer d.msg)
  | ignored (event : Event) : Outcome room event (room, [])
  | closed (ws : Socket) :
    Outcome room (.closed ws)
      ({ room with listeners := room.listeners.filter (·.1 ≠ ws) }.onClose ws)
  | reload : Outcome room .reload (.load room.storage room.sockets, [])

/-- What a text frame delivers. -/
theorem received_message {room : Room} {ws : Socket} {now : Millis} {uuid : Uuid}
    {data : List Char} {d : Delivery} :
    room.received? engine (.message ws now uuid data) = some d ↔
      ∃ tokenParam msg, room.listeners.lookup ws = some tokenParam ∧
        parse engine data = some msg ∧ room.throws engine msg = false ∧
        d = ⟨ws, tokenParam, now, uuid, msg⟩ := by
  rw [received?]
  cases room.listeners.lookup ws with
  | none => simp
  | some tokenParam =>
    cases parse engine data with
    | none => simp
    | some msg =>
      constructor
      · intro received
        cases throws : room.throws engine msg with
        | true => simp [throws] at received
        | false =>
          dsimp only at received
          rw [throws] at received
          exact ⟨tokenParam, msg, rfl, rfl, throws, (Option.some.inj received).symm⟩
      · rintro ⟨_, _, ⟨⟩, ⟨⟩, reads, rfl⟩
        dsimp only
        rw [reads]
        rfl

/-- A message that is no sender hello does not throw here. -/
theorem throws_of_not_hello {room : Room} {msg : Value} (other : isSenderHello msg = false) :
    room.throws engine msg = false := by
  rw [throws, other]
  rfl

/-- A delivered message is dispatched on its type. -/
theorem handle_of_received {room : Room} {event : Event} {d : Delivery}
    (received : room.received? engine event = some d) :
    room.handle engine env event =
      room.dispatch engine env d.ws d.tokenParam d.now d.uuid d.msg := by
  cases event with
  | message ws now uuid data =>
    obtain ⟨tokenParam, msg, listening, parsed, -, rfl⟩ := (received_message engine).mp received
    rw [handle, onMessage, listening, parsed]
  | _ => simp [received?] at received

theorem throws_of_received {room : Room} {event : Event} {d : Delivery}
    (received : room.received? engine event = some d) : room.throws engine d.msg = false := by
  cases event with
  | message ws now uuid data =>
    obtain ⟨tokenParam, msg, -, -, reads, rfl⟩ := (received_message engine).mp received
    exact reads
  | _ => simp [received?] at received

/-- A sender hello that does not throw arms the room if need be, and gets a record. -/
theorem senderHello_eq {room : Room} {msg : Value} (hello : isSenderHello msg)
    (reads : room.throws engine msg = false) (ws : Socket) (now : ℤ) (uuid : Uuid) :
    room.senderHello engine env ws now uuid msg =
      (room.armed engine env now msg).welcome ws uuid msg := by
  rw [senderHello, armed]
  by_cases unarmed : room.expiresAt.isFalsy
  · rw [throws, hello, unarmed] at reads
    rw [if_pos unarmed, if_pos unarmed, arm]
    cases asks : ttlMinutes engine msg with
    | none => simp [asks] at reads
    | some asked => rfl
  · rw [if_neg unarmed, if_neg unarmed]

/-- A sender hello that throws leaves the room as it is. -/
theorem senderHello_of_throws {room : Room} {msg : Value} (throws : room.throws engine msg)
    (ws : Socket) (now : ℤ) (uuid : Uuid) :
    room.senderHello engine env ws now uuid msg = (room, []) := by
  rw [Room.throws, Bool.and_eq_true, Bool.and_eq_true, Option.isNone_iff_eq_none] at throws
  obtain ⟨⟨-, unarmed⟩, asks⟩ := throws
  rw [senderHello, if_pos unarmed, arm, asks]
  rfl

theorem handle_of_throws {room : Room} {ws : Socket} {data : List Char} {msg : Value}
    (parsed : parse engine data = some msg) (throws : room.throws engine msg) (now : Millis)
    (uuid : Uuid) : room.handle engine env (.message ws now uuid data) = (room, []) := by
  have hello := throws
  rw [Room.throws, Bool.and_eq_true, Bool.and_eq_true, isSenderHello, Bool.and_eq_true] at hello
  obtain ⟨⟨⟨type, role⟩, -⟩, -⟩ := hello
  rw [handle, onMessage, parsed]
  cases room.listeners.lookup ws with
  | none => rfl
  | some tokenParam =>
    dsimp only
    rw [dispatch, if_pos type, handleHello, if_pos role, senderHello_of_throws engine env throws]

/-- A message is dropped without a listener, if its text does not parse, and if it throws. -/
theorem handle_of_not_received {room : Room} {ws : Socket} {now : Millis} {uuid : Uuid}
    {data : List Char} (nothing : room.received? engine (.message ws now uuid data) = none) :
    room.handle engine env (.message ws now uuid data) = (room, []) := by
  cases parsed : parse engine data with
  | none =>
    rw [handle, onMessage, parsed]
    cases room.listeners.lookup ws <;> rfl
  | some msg =>
    cases throws : room.throws engine msg with
    | true => exact handle_of_throws engine env parsed throws now uuid
    | false =>
      rw [handle, onMessage]
      cases listening : room.listeners.lookup ws with
      | none => rfl
      | some tokenParam => simp [received?, listening, parsed, throws] at nothing

/-- Every event has an outcome. -/
theorem outcome (room : Room) (event : Event) :
    Outcome engine env room event (room.handle engine env event) := by
  cases event with
  | fetch roomHint tokenParam => exact .fetch roomHint tokenParam
  | closed ws => exact .closed ws
  | reload => exact .reload
  | message ws now uuid data =>
    cases received : room.received? engine (.message ws now uuid data) with
    | none =>
      rw [handle_of_not_received engine env received]
      exact .ignored _
    | some d =>
      rw [handle_of_received engine env received, dispatch, handleHello]
      by_cases hello : isType "hello" d.msg
      · rw [if_pos hello]
        split_ifs with sender
        · have sends : isSenderHello d.msg := by simp [isSenderHello, hello, sender]
          rw [senderHello_eq engine env sends (throws_of_received engine received)]
          exact .senderHello d received sends
        · exact .receiverHello d received (by simp [isReceiverHello, hello, sender])
      · -- everything but a hello needs a record
        rw [if_neg hello]
        cases source : room.findPeerByWs d.ws with
        | none => exact .ignored _
        | some peer =>
          simp only
          split_ifs with accept reject revoke signal
          · exact .accept d received accept peer source
          · exact .reject d received reject peer source
          · exact .revoke d received revoke peer source
          · exact .relay d received signal peer source
          · exact .ignored _

theorem type_ne {name other : String} {msg : Value} (type : isType name msg)
    (different : str name ≠ str other) : ¬ isType other msg := by
  rw [isType, Value.isStr_iff] at type ⊢
  simpa [type] using different

theorem handle_of_senderHello {room : Room} {event : Event} {d : Delivery}
    (received : room.received? engine event = some d) (hello : isSenderHello d.msg) :
    room.handle engine env event =
      (room.armed engine env d.now d.msg).welcome d.ws d.uuid d.msg := by
  have parts := hello
  simp only [isSenderHello, Bool.and_eq_true] at parts
  rw [handle_of_received engine env received, dispatch, if_pos parts.1, handleHello,
    if_pos parts.2, senderHello_eq engine env hello (throws_of_received engine received)]

theorem handle_of_receiverHello {room : Room} {event : Event} {d : Delivery}
    (received : room.received? engine event = some d) (hello : isReceiverHello d.msg) :
    room.handle engine env event =
      room.receiverHello engine env d.ws d.tokenParam d.now d.uuid d.msg := by
  simp only [isReceiverHello, Bool.and_eq_true, Bool.not_eq_true'] at hello
  rw [handle_of_received engine env received, dispatch, if_pos hello.1, handleHello,
    if_neg (by simp [hello.2])]

theorem type_ne_of_signal {name : String} {msg : Value} (signal : isSignal msg)
    (sdp : str "sdp" ≠ str name) (ice : str "ice" ≠ str name) : ¬ isType name msg := by
  rcases Bool.or_eq_true_iff.mp signal with type | type
  · exact type_ne type sdp
  · exact type_ne type ice

theorem not_hello_of_signal {msg : Value} (signal : isSignal msg) : isSenderHello msg = false := by
  have other : ¬ isType "hello" msg := type_ne_of_signal signal (by decide) (by decide)
  rw [isSenderHello, eq_false_of_ne_true other, Bool.false_and]

/-- A signal goes to the relay, if its socket has a record. -/
theorem handle_of_signal {room : Room} {event : Event} {d : Delivery}
    (received : room.received? engine event = some d) (signal : isSignal d.msg) :
    room.handle engine env event =
      (room, (room.findPeerByWs d.ws).elim [] fun source => room.relayToPeer source d.msg) := by
  have other (name : String) (different : str "sdp" ≠ str name ∧ str "ice" ≠ str name) :
      ¬ isType name d.msg := type_ne_of_signal signal different.1 different.2
  rw [handle_of_received engine env received, dispatch, if_neg (other "hello" (by decide))]
  cases room.findPeerByWs d.ws with
  | none => rfl
  | some source =>
    simp only [Option.elim_some, if_pos signal, if_neg (other "accept" (by decide)),
      if_neg (other "reject" (by decide)), if_neg (other "revoke" (by decide))]

/-! ### Receiver hellos -/

/-- The token that the hello claims is not the room's. -/
def WrongToken (room : Room) (tokenParam : Option Str) (msg : Value) : Prop :=
  ∃ token, claimed engine tokenParam msg = some token ∧
    (room.noToken ∨ some token ≠ room.token)

/-- The hello claims the room's token, which has expired. -/
def Expired (room : Room) (tokenParam : Option Str) (now : ℤ) (msg : Value) : Prop :=
  ∃ token, claimed engine tokenParam msg = some token ∧
    ¬ (room.noToken ∨ some token ≠ room.token) ∧ Number.gt (.fin now) room.expiresAt

instance (room : Room) (tokenParam : Option Str) (msg : Value) :
    Decidable (WrongToken engine room tokenParam msg) :=
  match claims : claimed engine tokenParam msg with
  | none => isFalse fun ⟨_, other, _⟩ => by simp [claims] at other
  | some token =>
    decidable_of_iff (room.noToken ∨ some token ≠ room.token)
      ⟨fun wrong => ⟨token, claims, wrong⟩,
        fun ⟨_, other, wrong⟩ => Option.some.inj (claims.symm.trans other) ▸ wrong⟩

instance (room : Room) (tokenParam : Option Str) (now : ℤ) (msg : Value) :
    Decidable (Expired engine room tokenParam now msg) :=
  match claims : claimed engine tokenParam msg with
  | none => isFalse fun ⟨_, other, _⟩ => by simp [claims] at other
  | some token =>
    decidable_of_iff (¬ (room.noToken ∨ some token ≠ room.token) ∧
        Number.gt (.fin now) room.expiresAt)
      ⟨fun late => ⟨token, claims, late⟩,
        fun ⟨_, other, late⟩ => Option.some.inj (claims.symm.trans other) ▸ late⟩

/-- The hello passes every check. -/
def Admitted (room : Room) (tokenParam : Option Str) (now : ℤ) (msg : Value) : Prop :=
  ∃ token, claimed engine tokenParam msg = some token ∧
    ¬ (room.noToken ∨ some token ≠ room.token) ∧
    ¬ Number.gt (.fin now) room.expiresAt ∧ ¬ now < room.lockedOutUntil

theorem Admitted.text {room : Room} {tokenParam : Option Str} {now : ℤ} {msg : Value}
    (passes : Admitted engine room tokenParam now msg) :
    (claimed engine tokenParam msg).isSome := by
  obtain ⟨token, claims, -⟩ := passes
  rw [claims]
  rfl

/-- Who is admitted has neither a wrong token nor an expired one. -/
theorem Admitted.not_invalid {room : Room} {tokenParam : Option Str} {now : ℤ} {msg : Value}
    (passes : Admitted engine room tokenParam now msg) :
    ¬ WrongToken engine room tokenParam msg ∧ ¬ Expired engine room tokenParam now msg := by
  obtain ⟨token, claims, same, inTime, -⟩ := passes
  constructor
  · rintro ⟨other, claims', wrong⟩
    obtain rfl := Option.some.inj (claims.symm.trans claims')
    exact same wrong
  · rintro ⟨other, -, -, late⟩
    exact inTime late

/-- How the checks of a receiver hello end: with a record and a notice to the
sender, or with a refusal on its own socket. -/
inductive HelloOutcome (room : Room) (ws : Socket) (tokenParam : Option Str) (now : ℤ)
    (recvId : Uuid) (msg : Value) : Room × List Effect → Prop
  | admitted (passes : Admitted engine room tokenParam now msg) (effects : List Effect)
    (notices : ∀ effect ∈ effects, ∃ sender ∈ room.peers, sender.role = .sender ∧
      effect = .send sender.ws (pending recvId msg)) :
    HelloOutcome room ws tokenParam now recvId msg
      ({ room with peers := setPeer (receiverRecord recvId ws msg) room.peers }, effects)
  | wrongToken (wrong : WrongToken engine room tokenParam msg) :
    HelloOutcome room ws tokenParam now recvId msg
      ((room.recordAttempt env now).sendAndClose ws tokenInvalid 1008 "invalid token")
  | expired (expired : Expired engine room tokenParam now msg) :
    HelloOutcome room ws tokenParam now recvId msg
      (room.sendAndClose ws tokenInvalid 1008 "expired")
  | lockedOut (text : (claimed engine tokenParam msg).isSome)
    (right : ¬ WrongToken engine room tokenParam msg)
    (inTime : ¬ Expired engine room tokenParam now msg) (locked : now < room.lockedOutUntil) :
    HelloOutcome room ws tokenParam now recvId msg
      (room.sendAndClose ws (room.tokenLockedOut engine now) 1013 "locked out")
  | noText (nothing : claimed engine tokenParam msg = none) :
    HelloOutcome room ws tokenParam now recvId msg (room, [])

section ReceiverHello

variable (room : Room) (ws : Socket) (tokenParam : Option Str) (now : ℤ) (recvId : Uuid)
  (msg : Value)

theorem receiverHello_outcome :
    HelloOutcome engine env room ws tokenParam now recvId msg
      (room.receiverHello engine env ws tokenParam now recvId msg) := by
  cases claims : claimed engine tokenParam msg with
  | none =>
    rw [receiverHello, claims]
    exact .noText claims
  | some token =>
    rw [receiverHello, claims]
    simp only
    have only {other : Str} (same : claimed engine tokenParam msg = some other) : token = other :=
      Option.some.inj (claims.symm.trans same)
    -- the checks in their order: the token, its expiry, the lockout
    split_ifs with different late locked
    · exact .wrongToken ⟨token, claims, different⟩
    · exact .expired ⟨token, claims, different, late⟩
    · refine .lockedOut (by rw [claims]; rfl) ?_ ?_ locked
      · rintro ⟨other, same, wrong⟩
        exact different (only same ▸ wrong)
      · rintro ⟨other, same, -, expired⟩
        exact late expired
    · have passes : Admitted engine room tokenParam now msg :=
        ⟨token, claims, different, late, locked⟩
      split
      · exact .admitted passes [] (by simp)
      · -- the sender is looked for among the records that already hold the receiver
        rename_i sender found
        refine .admitted passes _ fun effect member => ?_
        obtain ⟨present, role⟩ := findSender_some found
        rcases mem_setPeer present with rfl | ⟨old, -⟩
        · simp [receiverRecord] at role
        · exact ⟨sender, old, role, mem_send member⟩

/-- The state behind a receiver hello: one record more, or another ledger and
another closed socket. -/
theorem receiverHello_state :
    Admitted engine room tokenParam now msg ∧
      (room.receiverHello engine env ws tokenParam now recvId msg).1 =
        { room with peers := setPeer (receiverRecord recvId ws msg) room.peers } ∨
    ∃ attempts lockedOutUntil closed, room.closed ⊆ closed ∧
      (room.receiverHello engine env ws tokenParam now recvId msg).1 =
        { room with
          attempts := attempts
          lockedOutUntil := lockedOutUntil
          closed := closed } := by
  have hello := receiverHello_outcome engine env room ws tokenParam now recvId msg
  generalize room.receiverHello engine env ws tokenParam now recvId msg = result at hello
  have refused (content : Value) (code : ℕ) (reason : String) :
      ∃ attempts lockedOutUntil closed, room.closed ⊆ closed ∧
        (room.sendAndClose ws content code reason).1 =
          { room with
            attempts := attempts
            lockedOutUntil := lockedOutUntil
            closed := closed } := by
    obtain ⟨closed, state, more⟩ := sendAndClose_eq room ws content code reason
    exact ⟨room.attempts, room.lockedOutUntil, closed, more, state⟩
  cases hello with
  | admitted passes => exact .inl ⟨passes, rfl⟩
  | wrongToken =>
    right
    obtain ⟨attempts, lockedOutUntil, recorded⟩ := recordAttempt_eq env room now
    obtain ⟨closed, state, more⟩ := sendAndClose_eq (room.recordAttempt env now) ws tokenInvalid
      1008 "invalid token"
    rw [recorded] at state more
    exact ⟨attempts, lockedOutUntil, closed, more, recorded ▸ state⟩
  | expired => exact .inr (refused _ _ _)
  | lockedOut => exact .inr (refused _ _ _)
  | noText =>
    exact .inr ⟨room.attempts, room.lockedOutUntil, room.closed, List.Subset.refl _, rfl⟩

/-- What is said to a receiver that is not let in. -/
theorem refusal_of_receiverHello (refused : ¬ Admitted engine room tokenParam now msg)
    {dest : Socket} {frame : Value} (said : .send dest frame ∈
      (room.receiverHello engine env ws tokenParam now recvId msg).2) :
    frame = tokenInvalid ∨ frame = room.tokenLockedOut engine now := by
  have of_refusal {room : Room} {content : Value} {code : ℕ} {reason : String}
      (said : .send dest frame ∈ (room.sendAndClose ws content code reason).2) :
      frame = content := by
    rcases mem_sendAndClose said with same | closes
    · exact (Effect.send.inj same).2
    · cases closes
  have checks := receiverHello_outcome engine env room ws tokenParam now recvId msg
  generalize room.receiverHello engine env ws tokenParam now recvId msg = result at checks said
  cases checks with
  | admitted passes => exact absurd passes refused
  | wrongToken => exact .inl (of_refusal said)
  | expired => exact .inl (of_refusal said)
  | lockedOut => exact .inr (of_refusal said)
  | noText => cases said

end ReceiverHello

/-! ### The sender's decisions -/

section Decisions

variable {room : Room} {peer : PeerConn} {msg : Value}

/-- An accept marks the record that a sender names, and nothing else. -/
theorem handleAccept_cases (room : Room) (peer : PeerConn) (msg : Value) :
    room.handleAccept peer msg = (room, []) ∨
    ∃ r ∈ room.peers, peer.role = .sender ∧ r.role = .receiver ∧
      msg.get? (str "peer_id") = some (.str r.id.str) ∧
      room.handleAccept peer msg =
        ({ room with peers := markAccepted r.id room.peers }, room.send r.ws accepted) := by
  rw [handleAccept]
  split_ifs with noSender
  · exact .inl rfl
  · cases found : getPeer (msg.get? (str "peer_id")) room.peers with
    | none => exact .inl rfl
    | some r =>
      obtain ⟨member, key⟩ := getPeer_some found
      simp only
      split_ifs with other
      · exact .inl rfl
      · right
        simp only [ne_eq, not_or, not_not] at noSender other
        exact ⟨r, member, noSender.1, other, key, rfl⟩

/-- A reject closes the socket of the record that a sender names and deletes
the record. -/
theorem handleReject_cases (room : Room) (peer : PeerConn) (msg : Value) :
    room.handleReject peer msg = (room, []) ∨
    ∃ r ∈ room.peers, peer.role = .sender ∧
      (room.handleReject peer msg).1 =
        { room with peers := deletePeer r.id room.peers, closed := r.ws :: room.closed } ∧
      ∀ effect ∈ (room.handleReject peer msg).2,
        effect = .send r.ws rejected ∨ effect = .close r.ws 1000 "rejected" := by
  rw [handleReject]
  split_ifs with noSender
  · exact .inl rfl
  · cases found : getPeer (msg.get? (str "peer_id")) room.peers with
    | none => exact .inl rfl
    | some r =>
      obtain ⟨member, -⟩ := getPeer_some found
      simp only
      split
      · exact .inl rfl
      · -- the message could be sent, so what comes behind it is done as well
        rename_i sent sends
        right
        simp only [ne_eq, not_or, not_not] at noSender
        refine ⟨r, member, noSender.1, rfl, fun effect present => ?_⟩
        rcases List.mem_append.mp present with first | last
        · exact .inl (mem_trySend sends first)
        · exact .inr (by simpa using last)

/-- The receiver is told, and its socket is closed. -/
def farewell (p : PeerConn) : List Effect :=
  [.send p.ws rejected, .close p.ws 1000 "revoked"]

/-- The room without one of its receivers. -/
def Room.without (room : Room) (p : PeerConn) : Room :=
  { room.close p.ws with peers := deletePeer p.id room.peers }

theorem isOpen_without {p : PeerConn} {ws : Socket} :
    (room.without p).IsOpen ws ↔ room.IsOpen ws ∧ ws ≠ p.ws := by
  rw [Room.IsOpen, Room.IsOpen, Room.without, Room.close, List.mem_cons, not_or, and_assoc]
  exact and_congr_right fun _ => and_comm

theorem revokeReceivers_open {p : PeerConn} (rest : List PeerConn) (receiver : p.role = .receiver)
    (isOpen : room.IsOpen p.ws) :
    room.revokeReceivers (p :: rest) =
      (((room.without p).revokeReceivers rest).1,
        farewell p ++ ((room.without p).revokeReceivers rest).2) := by
  have sends : room.trySend p.ws rejected = some [.send p.ws rejected] := if_pos isOpen
  rw [Room.revokeReceivers, if_pos receiver, sends]
  rfl

/-- The loop serves an initial part of the receivers, with open sockets of their own, and the
first one that it does not serve has none. -/
theorem revokeReceivers_served (room : Room) (walked : List PeerConn) :
    ∃ served left : List PeerConn, walked.filter (·.role = .receiver) = served ++ left ∧
      (room.revokeReceivers walked).1 =
        { room with
          peers := room.peers.filter fun p => p.id ∉ served.map (·.id)
          closed := (served.map (·.ws)).reverse ++ room.closed } ∧
      (room.revokeReceivers walked).2 = served.flatMap farewell ∧
      (∀ p ∈ served, room.IsOpen p.ws) ∧ (served.map (·.ws)).Nodup ∧
      ∀ p ∈ left.head?, room.IsOpen p.ws → p.ws ∈ served.map (·.ws) := by
  -- on the list that the loop walks, for every room, as each farewell closes a socket
  induction walked generalizing room with
  | nil => exact ⟨[], [], rfl, by simp [Room.revokeReceivers], by simp [Room.revokeReceivers]⟩
  | cons p rest ih =>
    by_cases receiver : p.role = .receiver
    · rw [List.filter_cons_of_pos (by simpa using receiver)]
      by_cases isOpen : room.IsOpen p.ws
      · rw [revokeReceivers_open rest receiver isOpen]
        obtain ⟨served, left, split, state, effects, opens, apart, stuck⟩ := ih (room.without p)
        refine ⟨p :: served, left, by rw [split, List.cons_append], ?_, ?_, ?_, ?_, ?_⟩
        · rw [state, Room.without, Room.close, deletePeer, List.filter_filter, List.map_cons,
            List.map_cons, List.reverse_cons, List.append_assoc, List.singleton_append]
          congr 1
          refine List.filter_congr fun q _ => ?_
          simp only [List.mem_cons, not_or, Bool.decide_and, Bool.and_comm, ne_eq]
        · rw [effects, List.flatMap_cons]
        · intro q member
          rcases List.mem_cons.mp member with rfl | later
          · exact isOpen
          · exact (isOpen_without.mp (opens q later)).1
        · rw [List.map_cons, List.nodup_cons]
          refine ⟨fun again => ?_, apart⟩
          -- its socket is closed by the time the others are served
          obtain ⟨q, member, same⟩ := List.mem_map.mp again
          exact (isOpen_without.mp (opens q member)).2 same
        · intro q first open_
          rw [List.map_cons, List.mem_cons]
          by_cases same : q.ws = p.ws
          · exact .inl same
          · exact .inr (stuck q first (isOpen_without.mpr ⟨open_, same⟩))
      · -- the exception ends the loop: this receiver and all behind it are left
        have throws : room.trySend p.ws rejected = none := if_neg isOpen
        rw [Room.revokeReceivers, if_pos receiver, throws]
        refine ⟨[], p :: rest.filter (·.role = .receiver), rfl, by simp, rfl, by simp,
          List.nodup_nil, ?_⟩
        intro q first open_
        obtain rfl := Option.some.inj first
        exact absurd open_ isOpen
    · -- the loop goes past a sender
      rw [Room.revokeReceivers, if_neg receiver,
        List.filter_cons_of_neg (by simpa using receiver)]
      exact ih room

/-- A revoke of a sender forgets the token and the expiry, in storage too, and
deletes receivers. -/
theorem handleRevoke_eq (room : Room) {peer : PeerConn} (sender : peer.role = .sender) :
    ∃ deleted : List PeerConn, (∀ p ∈ deleted, p ∈ room.peers ∧ p.role = .receiver) ∧
      (room.handleRevoke peer).1 =
        { room with
          token := none
          expiresAt := .fin 0
          storage := { room.storage with token := none, expiresAt := none }
          peers := room.peers.filter fun p => p.id ∉ deleted.map (·.id)
          closed := (deleted.map (·.ws)).reverse ++ room.closed } ∧
      ∀ effect ∈ (room.handleRevoke peer).2,
        ∃ p ∈ deleted, effect = .send p.ws rejected ∨ effect = .close p.ws 1000 "revoked" := by
  rw [handleRevoke, if_neg (by simpa using sender)]
  obtain ⟨served, left, split, state, effects, -⟩ := revokeReceivers_served _ room.peers
  refine ⟨served, fun p member => ?_, state, fun effect member => ?_⟩
  · have walked : p ∈ room.peers.filter (·.role = .receiver) := by
      rw [split]
      exact List.mem_append_left _ member
    simpa using walked
  · rw [effects] at member
    obtain ⟨p, present, owed⟩ := List.mem_flatMap.mp member
    exact ⟨p, present, by simpa [farewell] using owed⟩

theorem handleRevoke_of_receiver (room : Room) {peer : PeerConn} (receiver : peer.role ≠ .sender) :
    room.handleRevoke peer = (room, []) := by
  rw [handleRevoke, if_pos receiver]

/-- The end of a connection removes its first record; the end of a sender's may
remove all. -/
theorem onClose_cases (room : Room) (ws : Socket) :
    (room.onClose ws = (room, []) ∧ room.findPeerByWs ws = none) ∨
    (∃ peer, room.findPeerByWs ws = some peer ∧
      (room.onClose ws).1 = { room with peers := deletePeer peer.id room.peers } ∧
      ∀ effect ∈ (room.onClose ws).2, ∃ ws, effect = .send ws (peerGone peer.id)) ∨
    ∃ peer closed, room.findPeerByWs ws = some peer ∧ peer.role = .sender ∧
      (room.onClose ws).1 = { room with peers := [], closed := closed ++ room.closed } ∧
      (∀ p ∈ room.peers, p.id ≠ peer.id → p.ws ∈ closed) ∧
      ∀ effect ∈ (room.onClose ws).2, ∃ ws, effect = .close ws 1001 "sender gone" := by
  rw [onClose]
  cases found : room.findPeerByWs ws with
  | none => exact .inl ⟨rfl, rfl⟩
  | some peer =>
    right
    simp only
    cases role : peer.role with
    | receiver =>
      left
      simp only
      split
      · exact ⟨peer, rfl, rfl, by simp⟩
      · exact ⟨peer, rfl, rfl, fun effect member => ⟨_, mem_send member⟩⟩
    | sender =>
      simp only
      -- a reusable token outlives its sender, and the receivers stay
      split_ifs
      · exact .inl ⟨peer, rfl, rfl, by simp⟩
      · right
        refine ⟨peer, _, rfl, role, rfl, fun p member different => ?_, fun effect member => ?_⟩
        · exact List.mem_map.mpr ⟨p, mem_deletePeer.mpr ⟨member, different⟩, rfl⟩
        · obtain ⟨p, -, rfl⟩ := List.mem_map.mp member
          exact ⟨p.ws, rfl⟩

end Decisions

/-! ### The relay -/

/-- The record that a frame is addressed to. -/
def addressee (room : Room) (source : PeerConn) (msg : Value) : Option PeerConn :=
  if source.role = .receiver && isAlias msg then room.findSender
  else getPeer (msg.get? (str "peer_id")) room.peers

/-- A frame that is passed on goes to the record it is addressed to, and from an
unaccepted receiver only by the alias. -/
theorem mem_relayToPeer {room : Room} {source : PeerConn} {msg : Value} {effect : Effect}
    (member : effect ∈ room.relayToPeer source msg) :
    ∃ target ∈ room.peers, addressee room source msg = some target ∧
      effect = .send target.ws (if target.role = .sender then attributed source msg else msg) ∧
      (source.role = .receiver ∧ isAlias msg ∧ target.role = .sender ∨
        (source.role = .sender → target.accepted) ∧
          (source.role = .receiver → source.accepted)) := by
  rw [relayToPeer] at member
  -- first the alias, which no acceptance is asked for, then an identifier
  by_cases byAlias : (source.role = .receiver && isAlias msg) = true
  · rw [if_pos byAlias] at member
    rw [addressee, if_pos byAlias]
    cases found : room.findSender with
    | none => simp [found] at member
    | some sender =>
      obtain ⟨present, role⟩ := findSender_some found
      rw [found] at member
      rw [Bool.and_eq_true, decide_eq_true_eq] at byAlias
      refine ⟨sender, present, rfl, ?_, .inl ⟨byAlias.1, byAlias.2, role⟩⟩
      rw [if_pos role]
      exact mem_send member
  · rw [if_neg byAlias] at member
    rw [addressee, if_neg byAlias]
    by_cases nobody : Value.isFalsy (msg.get? (str "peer_id")) = true
    · simp [if_pos nobody] at member
    · rw [if_neg nobody] at member
      cases found : getPeer (msg.get? (str "peer_id")) room.peers with
      | none => simp [found] at member
      | some target =>
        simp only [found] at member
        split at member
        · simp at member
        · rename_i unaccepted
          split at member
          · simp at member
          rename_i knocking
          refine ⟨target, (getPeer_some found).1, rfl, mem_send member, .inr ?_⟩
          simpa using And.intro unaccepted knocking

@[simp] theorem isType_message (name : String) (other : String) (members : List (String × Value)) :
    isType name (message other members) = decide (str other = str name) := by
  simp [isType, message, Value.get?]

/-- Attribution leaves the type of a frame alone. -/
theorem isType_attributed (name : String) (source : PeerConn) (msg : Value) :
    isType name (attributed source msg) = isType name msg := by
  cases msg with
  | obj members =>
    rw [isType, isType, attributed, Value.get?, Value.get?,
      lookup_setMember_of_ne (show str "type" ≠ str "peer_id" by decide)]
  | _ => rfl

/-! ### Records -/

/-- How an event changes the records. -/
inductive PeersChange (room : Room) (event : Event) : List PeerConn → Prop
  | fewer {kept : List PeerConn} (sublist : kept.Sublist room.peers) : PeersChange room event kept
  | sender (d : Delivery) (received : room.received? engine event = some d)
    (hello : isSenderHello d.msg) :
    PeersChange room event (setPeer (senderRecord d.uuid d.ws d.msg) room.peers)
  | receiver (d : Delivery) (received : room.received? engine event = some d)
    (hello : isReceiverHello d.msg) (passes : Admitted engine room d.tokenParam d.now d.msg) :
    PeersChange room event (setPeer (receiverRecord d.uuid d.ws d.msg) room.peers)
  | accept (d : Delivery) (received : room.received? engine event = some d)
    (type : isType "accept" d.msg) (peer : PeerConn)
    (source : room.findPeerByWs d.ws = some peer) (role : peer.role = .sender) (id : Uuid)
    (named : d.msg.get? (str "peer_id") = some (.str id.str)) :
    PeersChange room event (markAccepted id room.peers)

theorem fetch_peers (room : Room) (roomHint tokenParam : Option Str) :
    (room.fetch roomHint tokenParam).peers = room.peers := by
  cases roomHint with
  | none => rfl
  | some hint =>
    simp only [fetch]
    split_ifs <;> rfl

/-- Arming a room writes the expiry and whether the token is reusable, and stores both. -/
theorem armed_cases (room : Room) (now : ℤ) (msg : Value) :
    room.armed engine env now msg = room ∨
      ∃ expiresAt reusable, room.armed engine env now msg =
        { room with
          expiresAt := expiresAt
          reusable := reusable
          storage :=
            { token := if room.noToken then room.storage.token else room.token
              expiresAt := some expiresAt
              reusable := some reusable } } := by
  rw [armed]
  by_cases unarmed : room.expiresAt.isFalsy
  · rw [if_pos unarmed, arm]
    cases ttlMinutes engine msg with
    | none => exact .inl rfl
    | some asked => exact .inr ⟨_, _, rfl⟩
  · exact .inl (if_neg unarmed)

/-- It leaves everything else alone. -/
theorem armed_eq (room : Room) (now : ℤ) (msg : Value) :
    ∃ expiresAt reusable storage, room.armed engine env now msg =
      { room with expiresAt := expiresAt, reusable := reusable, storage := storage } := by
  rcases armed_cases engine env room now msg with same | ⟨_, _, armed⟩
  · exact ⟨room.expiresAt, room.reusable, room.storage, same⟩
  · exact ⟨_, _, _, armed⟩

theorem welcome_peers (room : Room) (ws : Socket) (now : ℤ) (senderId : Uuid) (msg : Value) :
    ((room.armed engine env now msg).welcome ws senderId msg).1.peers =
      setPeer (senderRecord senderId ws msg) room.peers := by
  obtain ⟨_, _, _, armed⟩ := armed_eq engine env room now msg
  rw [armed]
  rfl

/-- Records come from hellos and are marked by accepts; nothing else adds any. -/
theorem peers_next (room : Room) (event : Event) :
    PeersChange engine room event (room.next engine env event).peers := by
  have all : room.peers.Sublist room.peers := List.Sublist.refl _
  rw [next]
  have step := outcome engine env room event
  -- one case for each handler, from what it has been shown to do
  generalize room.handle engine env event = result at step
  cases step with
  | fetch roomHint tokenParam => exact .fewer (fetch_peers room roomHint tokenParam ▸ all)
  | senderHello d received hello =>
    rw [welcome_peers]
    exact .sender d received hello
  | receiverHello d received hello =>
    rcases receiverHello_state engine env room d.ws d.tokenParam d.now d.uuid d.msg with
      ⟨passes, state⟩ | ⟨_, _, _, -, state⟩
    · rw [state]
      exact .receiver d received hello passes
    · rw [state]
      exact .fewer all
  | accept d received type peer source =>
    rcases handleAccept_cases room peer d.msg with same | ⟨r, -, role, -, named, state⟩
    · rw [same]
      exact .fewer all
    · rw [state]
      exact .accept d received type peer source role r.id named
  | reject d received type peer source =>
    rcases handleReject_cases room peer d.msg with same | ⟨r, -, -, state, -⟩
    · rw [same]
      exact .fewer all
    · rw [state]
      exact .fewer List.filter_sublist
  | revoke d received type peer source =>
    by_cases sender : peer.role = .sender
    · obtain ⟨deleted, -, state, -⟩ := handleRevoke_eq room sender
      rw [state]
      exact .fewer List.filter_sublist
    · rw [handleRevoke_of_receiver room sender]
      exact .fewer all
  | relay => exact .fewer all
  | ignored => exact .fewer all
  | closed ws =>
    rcases onClose_cases { room with listeners := room.listeners.filter (·.1 ≠ ws) } ws with
      ⟨same, -⟩ | ⟨peer, -, state, -⟩ | ⟨peer, closed, -, -, state, -, -⟩
    · rw [same]
      exact .fewer all
    · rw [state]
      exact .fewer List.filter_sublist
    · rw [state]
      exact .fewer (List.nil_sublist _)
  | reload => exact .fewer (List.nil_sublist _)

/-! ### Everything but the records -/

/-- The next state, with the records, the closed sockets and the listeners left
open where only these change. -/
inductive NextState (room : Room) (event : Event) : Room → Prop
  | fetch (roomHint tokenParam : Option Str) (request : event = .fetch roomHint tokenParam) :
    NextState room event (room.fetch roomHint tokenParam)
  | senderHello (d : Delivery) (received : room.received? engine event = some d)
    (hello : isSenderHello d.msg) :
    NextState room event ((room.armed engine env d.now d.msg).welcome d.ws d.uuid d.msg).1
  | receiverHello (d : Delivery) (received : room.received? engine event = some d)
    (hello : isReceiverHello d.msg) :
    NextState room event (room.receiverHello engine env d.ws d.tokenParam d.now d.uuid d.msg).1
  | revoked (peers : List PeerConn) (closed : List Socket) :
    NextState room event { room with
      token := none
      expiresAt := .fin 0
      storage := { room.storage with token := none, expiresAt := none }
      peers := peers
      closed := closed }
  | records (peers : List PeerConn) (closed : List Socket)
    (listeners : List (Socket × Option Str)) :
    NextState room event { room with peers := peers, closed := closed, listeners := listeners }
  | reload (reload : event = .reload) : NextState room event (.load room.storage room.sockets)

theorem next_state (room : Room) (event : Event) :
    NextState engine env room event (room.next engine env event) := by
  have same : NextState engine env room event room :=
    .records room.peers room.closed room.listeners
  rw [next]
  have step := outcome engine env room event
  generalize room.handle engine env event = result at step
  cases step with
  | fetch roomHint tokenParam => exact .fetch roomHint tokenParam rfl
  | senderHello d received hello => exact .senderHello d received hello
  | receiverHello d received hello => exact .receiverHello d received hello
  | accept d received type peer source =>
    rcases handleAccept_cases room peer d.msg with ignored | ⟨r, -, -, -, -, state⟩
    · rwa [ignored]
    · rw [state]
      exact .records _ _ _
  | reject d received type peer source =>
    rcases handleReject_cases room peer d.msg with ignored | ⟨r, -, -, state, -⟩
    · rwa [ignored]
    · rw [state]
      exact .records _ _ _
  | revoke d received type peer source =>
    by_cases sender : peer.role = .sender
    · obtain ⟨deleted, -, state, -⟩ := handleRevoke_eq room sender
      rw [state]
      exact .revoked _ _
    · rwa [handleRevoke_of_receiver room sender]
  | relay => exact same
  | ignored => exact same
  | closed ws =>
    rcases onClose_cases { room with listeners := room.listeners.filter (·.1 ≠ ws) } ws with
      ⟨ignored, -⟩ | ⟨peer, -, state, -⟩ | ⟨peer, closed, -, -, state, -, -⟩
    · rw [ignored]
      exact .records _ _ _
    · rw [state]
      exact .records _ _ _
    · rw [state]
      exact .records _ _ _
  | reload => exact .reload rfl

/-! ### Sockets -/

/-- What an event does to the sockets: a new one is new, and a closed one stays
closed while anybody is listened to. -/
structure SocketsChange (room next : Room) : Prop where
  created : room.sockets ≤ next.sockets
  listeners : ∀ l ∈ next.listeners,
    l ∈ room.listeners ∨ l.1 = room.sockets ∧ room.sockets < next.sockets
  closed : room.closed ⊆ next.closed ∨ next.listeners = []

theorem SocketsChange.of_eq {room next : Room} (created : next.sockets = room.sockets)
    (listeners : next.listeners = room.listeners) (closed : room.closed ⊆ next.closed) :
    SocketsChange room next where
  created := created ▸ Nat.le_refl _
  listeners _ member := .inl (listeners ▸ member)
  closed := .inl closed

theorem sockets_next (room : Room) (event : Event) :
    SocketsChange room (room.next engine env event) := by
  have same : SocketsChange room room := .of_eq rfl rfl (List.Subset.refl _)
  rw [next]
  have step := outcome engine env room event
  generalize room.handle engine env event = result at step
  cases step with
  | fetch roomHint tokenParam =>
    have adopted : (room.fetch roomHint tokenParam).sockets = room.sockets + 1 ∧
        (room.fetch roomHint tokenParam).listeners =
          room.listeners ++ [(room.sockets, tokenParam)] ∧
        (room.fetch roomHint tokenParam).closed = room.closed := by
      cases roomHint with
      | none => exact ⟨rfl, rfl, rfl⟩
      | some hint =>
        simp only [fetch]
        split_ifs <;> exact ⟨rfl, rfl, rfl⟩
    obtain ⟨created, listeners, closed⟩ := adopted
    refine ⟨created ▸ Nat.le_succ _, fun l member => ?_, .inl (closed ▸ List.Subset.refl _)⟩
    rw [listeners] at member
    rcases List.mem_append.mp member with old | new
    · exact .inl old
    · obtain rfl := List.mem_singleton.mp new
      exact .inr ⟨rfl, created ▸ Nat.lt_succ_self _⟩
  | senderHello d received hello =>
    obtain ⟨_, _, _, armed⟩ := armed_eq engine env room d.now d.msg
    rw [armed]
    exact .of_eq rfl rfl (List.Subset.refl _)
  | receiverHello d received hello =>
    rcases receiverHello_state engine env room d.ws d.tokenParam d.now d.uuid d.msg with
      ⟨-, state⟩ | ⟨_, _, _, more, state⟩
    · rw [state]
      exact .of_eq rfl rfl (List.Subset.refl _)
    · rw [state]
      exact .of_eq rfl rfl more
  | accept d received type peer source =>
    rcases handleAccept_cases room peer d.msg with ignored | ⟨r, -, -, -, -, state⟩
    · rwa [ignored]
    · rw [state]
      exact .of_eq rfl rfl (List.Subset.refl _)
  | reject d received type peer source =>
    rcases handleReject_cases room peer d.msg with ignored | ⟨r, -, -, state, -⟩
    · rwa [ignored]
    · rw [state]
      exact .of_eq rfl rfl (List.subset_cons_self _ _)
  | revoke d received type peer source =>
    by_cases sender : peer.role = .sender
    · obtain ⟨deleted, -, state, -⟩ := handleRevoke_eq room sender
      rw [state]
      exact .of_eq rfl rfl (List.subset_append_right _ _)
    · rwa [handleRevoke_of_receiver room sender]
  | relay => exact same
  | ignored => exact same
  | closed ws =>
    -- of the listeners one is gone, whatever the handler does
    have fewer {next : Room} (created : next.sockets = room.sockets)
        (listeners : next.listeners = room.listeners.filter (·.1 ≠ ws))
        (closed : room.closed ⊆ next.closed) : SocketsChange room next :=
      ⟨created ▸ Nat.le_refl _, fun l member => .inl (List.mem_of_mem_filter (listeners ▸ member)),
        .inl closed⟩
    rcases onClose_cases { room with listeners := room.listeners.filter (·.1 ≠ ws) } ws with
      ⟨ignored, -⟩ | ⟨peer, -, state, -⟩ | ⟨peer, closed, -, -, state, -, -⟩
    · rw [ignored]
      exact fewer rfl rfl (List.Subset.refl _)
    · rw [state]
      exact fewer rfl rfl (List.Subset.refl _)
    · rw [state]
      exact fewer rfl rfl (List.subset_append_right _ _)
  | reload => exact ⟨Nat.le_refl _, by simp [load], .inr rfl⟩

/-- Only sockets that have been created are listened to. -/
theorem listeners_lt (events : List Event) :
    ∀ l ∈ (after engine env events).listeners, l.1 < (after engine env events).sockets := by
  have base : ∀ l ∈ Room.initial.listeners, l.1 < Room.initial.sockets := by
    simp [Room.initial, Room.load]
  have step (room : Room) (event : Event) (known : ∀ l ∈ room.listeners, l.1 < room.sockets) :
      ∀ l ∈ (room.next engine env event).listeners,
        l.1 < (room.next engine env event).sockets := by
    intro l member
    have change := sockets_next engine env room event
    rcases change.listeners l member with old | ⟨new, more⟩
    · exact Nat.lt_of_lt_of_le (known l old) change.created
    · exact new ▸ more
  exact run_invariant _ _ step base events

/-- A connection that is open has been open ever since it was created. -/
theorem isOpen_of_next {room : Room} {event : Event} {ws : Socket} (created : ws < room.sockets)
    (isOpen : (room.next engine env event).IsOpen ws) : room.IsOpen ws := by
  have change := sockets_next engine env room event
  obtain ⟨listening, notClosed⟩ := isOpen
  obtain ⟨l, member, rfl⟩ := List.mem_map.mp listening
  constructor
  · rcases change.listeners l member with old | ⟨new, -⟩
    · exact List.mem_map_of_mem old
    · exact absurd (new ▸ created) (Nat.lt_irrefl _)
  · intro closed
    -- after a reload nobody is listened to, and the list of closed sockets is empty
    rcases change.closed with more | nobody
    · exact notClosed (more closed)
    · simp [nobody] at member

theorem received_listening {room : Room} {event : Event} {d : Delivery}
    (received : room.received? engine event = some d) : (d.ws, d.tokenParam) ∈ room.listeners := by
  cases event with
  | message ws now uuid data =>
    obtain ⟨tokenParam, msg, listening, -, -, rfl⟩ := (received_message engine).mp received
    obtain ⟨before, rest, split, -⟩ := List.lookup_eq_some_iff.mp listening
    rw [split]
    simp
  | _ => simp [received?] at received

end Steps

end Tether.Backend
