import Tether.Js.Parse
import Tether.Semantics.Run

/-!
# The room

One `Room` object of the signaling backend: the connections of one token, their
peer records, the rate limit and what is kept in storage. Storage operations
hold back further events until they finish, so a handler runs to its end, or to
an exception, before the next event.

## Main definitions

* `Room`, `PeerConn` — the object's fields and the records of its map
* `Room.handleHello`, `Room.handleAccept`, `Room.handleReject`,
  `Room.handleRevoke`, `Room.relayToPeer`, `Room.onClose` — the handlers
* `Event`, `Room.handle` — what reaches the object, and what it does then
* `after` — the room that a run of events leads to
-/

namespace Tether.Backend

open Text Js Semantics

/-! ### Data -/

/-- A server side `WebSocket` object, by the order in which they are created. -/
abbrev Socket := ℕ

/-- A time of the clock, in milliseconds: `Date.now()`. -/
abbrev Millis := { t : ℤ // 0 < t }

/-- The bytes a UUID is written with: lower-case hexadecimal digits and dashes. -/
def IsUuidByte (b : UInt8) : Prop :=
  48 ≤ b.toNat ∧ b.toNat ≤ 57 ∨ 97 ≤ b.toNat ∧ b.toNat ≤ 102 ∨ b = 45

instance : DecidablePred IsUuidByte := fun _ => inferInstanceAs (Decidable (_ ∨ _ ∨ _))

/-- What `crypto.randomUUID()` returns. -/
structure Uuid where
  text : Bytes
  length : text.length = 36
  digits : ∀ b ∈ text, IsUuidByte b
  deriving DecidableEq

/-- The identifier as a JavaScript string. -/
def Uuid.str (id : Uuid) : Str := ofAscii id.text

inductive Role
  | sender
  | receiver
  deriving DecidableEq

structure PeerConn where
  id : Uuid
  role : Role
  name : Value
  fingerprint : Option Value
  ws : Socket
  accepted : Bool
  pinned : Bool

/-- The variables of the deployment, as the numbers that the code reads them as. -/
structure Env where
  maxTokenTtlMinutes : Number
  rateLimitWindowSeconds : ℕ
  rateLimitMaxAttempts : ℕ
  lockoutSeconds : ℕ

/-- The durable storage of the object. -/
structure Storage where
  token : Option Str
  expiresAt : Option Number
  reusable : Option Bool

structure Room where
  token : Option Str
  expiresAt : Number
  reusable : Bool
  /-- The values of the map, in insertion order; a record's key is its `id`. -/
  peers : List PeerConn
  attempts : List ℤ
  lockedOutUntil : ℤ
  storage : Storage
  /-- How many sockets have been created. -/
  sockets : Socket
  /-- The sockets that still deliver messages, with their `tokenParam`. -/
  listeners : List (Socket × Option Str)
  /-- The sockets on which the room has called `close`. -/
  closed : List Socket

/-- A call that leaves the object. -/
inductive Effect
  | send (ws : Socket) (message : Value)
  | close (ws : Socket) (code : ℕ) (reason : String)

/-- The constructor, with what it finds in storage. -/
def Room.load (storage : Storage) (sockets : Socket) : Room where
  token := storage.token
  expiresAt := storage.expiresAt.getD (.fin 0)
  reusable := storage.reusable.getD false
  peers := []
  attempts := []
  lockedOutUntil := 0
  storage := storage
  sockets := sockets
  listeners := []
  closed := []

/-! ### The map of peers -/

/-- `peers.set(peer.id, peer)` -/
def setPeer (peer : PeerConn) (peers : List PeerConn) : List PeerConn :=
  if peers.any (·.id = peer.id) then peers.map fun p => if p.id = peer.id then peer else p
  else peers ++ [peer]

/-- `peers.get(key)` for a value that a message carries. -/
def getPeer (key : Option Value) (peers : List PeerConn) : Option PeerConn :=
  peers.find? fun p => Value.isStr p.id.str key

/-- `peers.delete(id)` -/
def deletePeer (id : Uuid) (peers : List PeerConn) : List PeerConn :=
  peers.filter fun p => p.id ≠ id

/-- `r.accepted = true` for the record `r` of this identifier. -/
def markAccepted (id : Uuid) (peers : List PeerConn) : List PeerConn :=
  peers.map fun p => if p.id = id then { p with accepted := true } else p

namespace Room

def findSender (room : Room) : Option PeerConn := room.peers.find? (·.role = .sender)

def findPeerByWs (room : Room) (ws : Socket) : Option PeerConn := room.peers.find? (·.ws = ws)

/-! ### Sockets -/

/-- The connection still stands: its end has not been heard of, and the room has
not closed it. -/
def IsOpen (room : Room) (ws : Socket) : Prop :=
  ws ∈ room.listeners.map Prod.fst ∧ ws ∉ room.closed

instance (room : Room) (ws : Socket) : Decidable (room.IsOpen ws) :=
  inferInstanceAs (Decidable (_ ∧ _))

/-- `ws.send(JSON.stringify(message))`, which throws, here `none`, on a socket
that is not open. -/
def trySend (room : Room) (ws : Socket) (message : Value) : Option (List Effect) :=
  if room.IsOpen ws then some [.send ws message] else none

/-- A send after which the handler has nothing left to do. -/
def send (room : Room) (ws : Socket) (message : Value) : List Effect :=
  (room.trySend ws message).getD []

/-- The state behind `ws.close(…)`. -/
def close (room : Room) (ws : Socket) : Room := { room with closed := ws :: room.closed }

/-- `ws.send(message); ws.close(code, reason)` -/
def sendAndClose (room : Room) (ws : Socket) (message : Value) (code : ℕ) (reason : String) :
    Room × List Effect :=
  match room.trySend ws message with
  | none => (room, [])
  | some sent => (room.close ws, sent ++ [.close ws code reason])

/-! ### Connections -/

/-- `fetch`: the room adopts the name it is addressed by as its token, and
listens to a new socket. -/
def fetch (room : Room) (roomHint tokenParam : Option Str) : Room :=
  let room := match roomHint with
    | none => room
    | some hint =>
      if hint ≠ [] ∧ room.token ≠ some hint then
        { room with token := some hint, storage := { room.storage with token := some hint } }
      else room
  { room with
    sockets := room.sockets + 1
    listeners := room.listeners ++ [(room.sockets, tokenParam)] }

/-- `!this.token` -/
def noToken (room : Room) : Bool := room.token.getD [] = []

end Room

/-! ### Messages to the clients -/

/-- An object of one `type` and further members. -/
def message (type : String) (members : List (String × Value)) : Value :=
  .obj ((str "type", .str (str type)) :: members.map fun member => (str member.1, member.2))

def tokenMessage (token : Option Str) : Value :=
  message "token" [("token", token.elim .null .str)]

def tokenInvalid : Value := message "token_invalid" []

def accepted : Value := message "accepted" []

def rejected : Value := message "rejected" []

/-- `{ type: 'pending', … }`, with empty strings for what the hello did not carry. -/
def pending (recvId : Uuid) (msg : Value) : Value :=
  message "pending" [("peer_id", .str recvId.str),
    ("name", Value.orElse (.str []) (msg.get? (str "name"))),
    ("fingerprint", Value.orElse (.str []) (msg.get? (str "fingerprint")))]

def peerGone (id : Uuid) : Value := message "peer_gone" [("peer_id", .str id.str)]

namespace Room

/-! ### The rate limit -/

def recordAttempt (env : Env) (room : Room) (now : ℤ) : Room :=
  let window : ℤ := env.rateLimitWindowSeconds * 1000
  let attempts := room.attempts.filter (fun t => now - t < window) ++ [now]
  if env.rateLimitMaxAttempts ≤ attempts.length then
    { room with lockedOutUntil := now + env.lockoutSeconds * 1000, attempts := [] }
  else { room with attempts := attempts }

section Handlers

variable (engine : Engine) (env : Env)

/-! ### Hellos -/

/-- `msg.ttl_minutes ?? 30`, as the number that `Math.min` makes of it if it does not throw. -/
def ttlMinutes (msg : Value) : Option Number :=
  match msg.get? (str "ttl_minutes") with
  | none | some .null => some (.fin 30)
  | some minutes => engine.toNumber minutes

/-- The first sender hello sets the expiry and whether the token is reusable. -/
def arm (room : Room) (now : ℤ) (msg : Value) : Option Room :=
  (ttlMinutes engine msg).map fun asked =>
    let ttl := Number.min asked env.maxTokenTtlMinutes
    let expiresAt := Number.add (.fin now) (ttl.scale 60000)
    let reusable := !Value.isFalsy (msg.get? (str "reusable"))
    { room with
      expiresAt := expiresAt
      reusable := reusable
      storage :=
        { token := if room.noToken then room.storage.token else room.token
          expiresAt := some expiresAt
          reusable := some reusable } }

def senderRecord (senderId : Uuid) (ws : Socket) (msg : Value) : PeerConn where
  id := senderId
  role := .sender
  name := Value.orElse (.str []) (msg.get? (str "name"))
  fingerprint := none
  ws := ws
  accepted := true
  pinned := false

/-- A sender gets its record, and is told the token. -/
def welcome (room : Room) (ws : Socket) (senderId : Uuid) (msg : Value) : Room × List Effect :=
  let room := { room with peers := setPeer (senderRecord senderId ws msg) room.peers }
  (room, room.send ws (tokenMessage room.token))

def senderHello (room : Room) (ws : Socket) (now : ℤ) (senderId : Uuid) (msg : Value) :
    Room × List Effect :=
  match if room.expiresAt.isFalsy then room.arm engine env now msg else some room with
  | none => (room, [])
  | some room => room.welcome ws senderId msg

/-- `(msg.token ?? tokenParam ?? '').toUpperCase()`; only strings have the method,
so that the call throws, here `none`, on any other value. -/
def claimed (tokenParam : Option Str) (msg : Value) : Option Str :=
  match msg.get? (str "token") with
  | none | some .null => some (engine.toUpperCase (tokenParam.getD []))
  | some (.str token) => some (engine.toUpperCase token)
  | some _ => none

/-- The seconds left, rounded up. -/
def tokenLockedOut (room : Room) (now : ℤ) : Value :=
  let retry := (room.lockedOutUntil - now + 999) / 1000
  message "token_locked_out"
    [("retry_after", .num (engine.numeral (Nat.toDigits 10 retry.toNat)))]

def receiverRecord (recvId : Uuid) (ws : Socket) (msg : Value) : PeerConn where
  id := recvId
  role := .receiver
  name := Value.orElse (.str []) (msg.get? (str "name"))
  fingerprint := msg.get? (str "fingerprint")
  ws := ws
  accepted := false
  pinned := false

def receiverHello (room : Room) (ws : Socket) (tokenParam : Option Str) (now : ℤ)
    (recvId : Uuid) (msg : Value) : Room × List Effect :=
  match claimed engine tokenParam msg with
  | none => (room, [])
  | some claimed =>
    if room.noToken ∨ some claimed ≠ room.token then
      (room.recordAttempt env now).sendAndClose ws tokenInvalid 1008 "invalid token"
    else if Number.gt (.fin now) room.expiresAt then
      room.sendAndClose ws tokenInvalid 1008 "expired"
    else if now < room.lockedOutUntil then
      room.sendAndClose ws (room.tokenLockedOut engine now) 1013 "locked out"
    else
      let room := { room with peers := setPeer (receiverRecord recvId ws msg) room.peers }
      match room.findSender with
      | none => (room, [])
      | some sender => (room, room.send sender.ws (pending recvId msg))

def handleHello (room : Room) (ws : Socket) (tokenParam : Option Str) (now : ℤ) (uuid : Uuid)
    (msg : Value) : Room × List Effect :=
  if Value.isStr (str "sender") (msg.get? (str "role")) then
    room.senderHello engine env ws now uuid msg
  else room.receiverHello engine env ws tokenParam now uuid msg

/-! ### What the sender decides -/

def handleAccept (room : Room) (sender : PeerConn) (msg : Value) : Room × List Effect :=
  if sender.role ≠ .sender ∨ Value.isFalsy (msg.get? (str "peer_id")) then (room, [])
  else match getPeer (msg.get? (str "peer_id")) room.peers with
    | none => (room, [])
    | some r =>
      if r.role ≠ .receiver then (room, [])
      else
        let room := { room with peers := markAccepted r.id room.peers }
        (room, room.send r.ws accepted)

def handleReject (room : Room) (sender : PeerConn) (msg : Value) : Room × List Effect :=
  if sender.role ≠ .sender ∨ Value.isFalsy (msg.get? (str "peer_id")) then (room, [])
  else match getPeer (msg.get? (str "peer_id")) room.peers with
    | none => (room, [])
    | some r =>
      match room.trySend r.ws rejected with
      | none => (room, [])
      | some sent =>
        let room := room.close r.ws
        ({ room with peers := deletePeer r.id room.peers },
          sent ++ [.close r.ws 1000 "rejected"])

/-- The loop of `handleRevoke` over the records that are left. -/
def revokeReceivers (room : Room) : List PeerConn → Room × List Effect
  | [] => (room, [])
  | p :: rest =>
    if p.role = .receiver then
      match room.trySend p.ws rejected with
      | none => (room, [])
      | some sent =>
        let room := room.close p.ws
        let (room, effects) :=
          revokeReceivers { room with peers := deletePeer p.id room.peers } rest
        (room, sent ++ .close p.ws 1000 "revoked" :: effects)
    else revokeReceivers room rest

def handleRevoke (room : Room) (sender : PeerConn) : Room × List Effect :=
  if sender.role ≠ .sender then (room, [])
  else
    let room := { room with
      token := none
      expiresAt := .fin 0
      storage := { room.storage with token := none, expiresAt := none } }
    room.revokeReceivers room.peers

/-! ### The relay -/

/-- The frame with its `peer_id` set to the record it comes from. -/
def attributed (source : PeerConn) (msg : Value) : Value :=
  match msg with
  | .obj members => .obj (setMember (str "peer_id") (.str source.id.str) members)
  | msg => msg

/-- The frame is addressed to the sender without naming it. -/
def isAlias (msg : Value) : Bool :=
  Value.isFalsy (msg.get? (str "peer_id")) ||
    Value.isStr (str "sender") (msg.get? (str "peer_id"))

def relayToPeer (room : Room) (source : PeerConn) (msg : Value) : List Effect :=
  if source.role = .receiver && isAlias msg then
    match room.findSender with
    | none => []
    | some sender => room.send sender.ws (attributed source msg)
  else if Value.isFalsy (msg.get? (str "peer_id")) then []
  else match getPeer (msg.get? (str "peer_id")) room.peers with
    | none => []
    | some target =>
      if source.role = .sender && !target.accepted then []
      else if source.role = .receiver && !source.accepted then []
      else
        let out := if target.role = .sender then attributed source msg else msg
        room.send target.ws out

/-! ### Events -/

def isType (type : String) (msg : Value) : Bool :=
  Value.isStr (str type) (msg.get? (str "type"))

/-- A frame that `onMessage` hands to `relayToPeer`. -/
def isSignal (msg : Value) : Bool := isType "sdp" msg || isType "ice" msg

/-- `onMessage` behind `JSON.parse`. Reading a member of `null` throws, which
leaves the object as it is, like a message without a known type. -/
def dispatch (room : Room) (ws : Socket) (tokenParam : Option Str) (now : ℤ) (uuid : Uuid)
    (msg : Value) : Room × List Effect :=
  if isType "hello" msg then room.handleHello engine env ws tokenParam now uuid msg
  else match room.findPeerByWs ws with
    | none => (room, [])
    | some peer =>
      if isType "accept" msg then room.handleAccept peer msg
      else if isType "reject" msg then room.handleReject peer msg
      else if isType "revoke" msg then room.handleRevoke peer
      else if isSignal msg then (room, room.relayToPeer peer msg)
      else (room, [])

/-- A message reaches the room while its socket is listened to. -/
def onMessage (room : Room) (ws : Socket) (now : ℤ) (uuid : Uuid) (data : List Char) :
    Room × List Effect :=
  match room.listeners.lookup ws, parse engine data with
  | some tokenParam, some msg => room.dispatch engine env ws tokenParam now uuid msg
  | _, _ => (room, [])

def onClose (room : Room) (ws : Socket) : Room × List Effect :=
  match room.findPeerByWs ws with
  | none => (room, [])
  | some peer =>
    let room := { room with peers := deletePeer peer.id room.peers }
    match peer.role with
    | .receiver =>
      match room.findSender with
      | none => (room, [])
      | some sender => (room, room.send sender.ws (peerGone peer.id))
    | .sender =>
      if room.reusable then (room, [])
      else
        ({ room with
            peers := []
            closed := room.peers.map (·.ws) ++ room.closed },
          room.peers.map fun p => .close p.ws 1001 "sender gone")

end Handlers

end Room

/-- What can reach the object. -/
inductive Event
  /-- A request, with the room's name and the token of the query. -/
  | fetch (roomHint tokenParam : Option Str)
  /-- A text frame; a binary one is an empty text. `uuid` is what
  `crypto.randomUUID()` returns if the handler asks for one. -/
  | message (ws : Socket) (now : Millis) (uuid : Uuid) (data : List Char)
  /-- A `close` or `error` event of a socket. -/
  | closed (ws : Socket)
  /-- The object is dropped from memory and later loaded from storage. -/
  | reload
  deriving DecidableEq

section Runs

variable (engine : Engine) (env : Env)

/-- The effect of one event on the object and on the outside. -/
def Room.handle (room : Room) : Event → Room × List Effect
  | .fetch roomHint tokenParam => (room.fetch roomHint tokenParam, [])
  | .message ws now uuid data => room.onMessage engine env ws now uuid data
  | .closed ws =>
    { room with listeners := room.listeners.filter (·.1 ≠ ws) }.onClose ws
  | .reload => (.load room.storage room.sockets, [])

def Room.next (room : Room) (event : Event) : Room := (room.handle engine env event).1

/-- A room that no request has reached yet. -/
def Room.initial : Room := .load ⟨none, none, none⟩ 0

/-- The room after a run of events. -/
def after (events : List Event) : Room := run (Room.next engine env) Room.initial events

theorem after_concat (events : List Event) (event : Event) :
    after engine env (events ++ [event]) = (after engine env events).next engine env event :=
  run_concat (Room.next engine env) Room.initial events event

/-- What the room sends and closes when the run's next event is `event`. -/
def effectsAt (before : List Event) (event : Event) : List Effect :=
  ((after engine env before).handle engine env event).2

end Runs

/-! ### A deployment -/

/-- The variables as `wrangler.toml` sets them. -/
def Env.deployed : Env where
  maxTokenTtlMinutes := .fin 1440
  rateLimitWindowSeconds := 60
  rateLimitMaxAttempts := 10
  lockoutSeconds := 300

/-- There are numerals below ten. -/
instance neZero_ten : @NeZero ℕ Zero.ofOfNat0 10 := ⟨Nat.succ_ne_zero 9⟩

/-- Identifiers that differ in their last digit. -/
def numbered (n : Fin 10) : Uuid where
  text := bytes "00000000-0000-4000-8000-00000000000" ++ [48 + UInt8.ofNat n]
  length := by revert n; decide
  digits := by revert n; decide

/-- The name of a room. -/
def sampleToken : Str := str "TTHR-ABCD-EFGH-JKMN"

/-- A request for the room of that name. -/
def connect : Event := .fetch (some sampleToken) (some sampleToken)

/-- A message at a time in milliseconds. -/
def arrival (ws : Socket) (now : ℕ) (uuid : Fin 10) (msg : Value) : Event :=
  .message ws ⟨now + 1, by omega⟩ (numbered uuid) (stringify msg)

def helloAs (role : String) : Value := message "hello" [("role", .str (str role))]

end Tether.Backend
