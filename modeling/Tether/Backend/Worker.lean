import Tether.Backend.Authority
import Tether.Backend.Edge
import Tether.Backend.Revocation
import Tether.Semantics.Family

/-!
# The worker

Behind the edge there is one object for each name. The edge routes a request by the token in
its query, or by a token that it mints, and tells the object the name it is reached by; what
happens on the connection afterwards happens at that object alone.

## Main definitions

* `Worker` — the objects by their names
* `Worker.deliver`, `Worker.next` — which object an event reaches, and what it does there
* `Worker.deliveriesTo` — what has reached one object

## Main results

* `rooms_after` — each object sees a run of a single room
* `wellFormed_of_deliver` — no object has a malformed name
* `guests_claim_their_room` — nobody is recorded as a receiver who has not named the token
-/

namespace Tether.Backend

open Text Js Semantics

/-- The durable objects, and the names that have been used so far. -/
structure Worker where
  rooms : Str → Room
  instantiated : List Str

/-- Something that happens at an object, and not through the edge. -/
def IsInner : Event → Prop
  | .fetch .. => False
  | _ => True

/-- The name is a well-formed token. -/
def IsToken (name : Str) : Prop := ∃ token : Token, name = ofAscii token.text

/-- A request calls the room by this name. -/
def Hinted (name : Str) (event : Event) : Prop :=
  ∀ hint tokenParam, event = .fetch hint tokenParam → hint = some name

namespace Worker

/-- What can reach the worker. -/
inductive Event
  /-- A request at the edge; `bufs` are the bytes that a new token is minted from. -/
  | request (request : Request) (bufs : Fin 3 → Fin 4 → UInt8)
  /-- A frame or the end of a connection of an object, or its removal from memory. -/
  | object (name : Str) (event : Backend.Event) (inner : IsInner event)

/-- No object has been used. -/
def initial : Worker where
  rooms := fun _ => Room.initial
  instantiated := []

section

variable (engine : Engine) (env : Env)

/-- The object that the event reaches, and what it is there. -/
def deliver (worker : Worker) : Event → Option (Str × Backend.Event)
  | .request request bufs =>
    match edgeFetch engine bufs request with
    | .response _ _ => none
    | .room roomName => some (roomName, .fetch (some roomName) request.tokenParam)
  | .object name event _ =>
    if worker.instantiated.any (· = name) then some (name, event) else none

def next (worker : Worker) (event : Event) : Worker :=
  match worker.deliver engine event with
  | none => worker
  | some (name, event) => {
      rooms := atMember (Room.next engine env) worker.rooms (name, event)
      instantiated :=
        if worker.instantiated.any (· = name) then worker.instantiated
        else worker.instantiated ++ [name] }

def after (events : List Event) : Worker := run (next engine env) initial events

/-- What reaches the objects, from some state on. -/
def deliveriesFrom (worker : Worker) : List Event → List (Str × Backend.Event)
  | [] => []
  | event :: rest =>
    (worker.deliver engine event).toList ++ deliveriesFrom (worker.next engine env event) rest

/-- What has reached the object of this name. -/
def deliveriesTo (name : Str) (events : List Event) : List Backend.Event :=
  addressedTo name (deliveriesFrom engine env initial events)

end

/-! ### One room at a time -/

section Rooms

variable {engine : Engine} {env : Env} {worker : Worker} {name : Str}

theorem next_of_none {event : Event} (nowhere : worker.deliver engine event = none) :
    worker.next engine env event = worker := by
  rw [next, nowhere]

theorem rooms_next {event : Event} {delivery : Str × Backend.Event}
    (reached : worker.deliver engine event = some delivery) :
    (worker.next engine env event).rooms =
      atMember (Room.next engine env) worker.rooms delivery := by
  rw [next, reached]

theorem rooms_run (worker : Worker) (events : List Event) :
    (run (next engine env) worker events).rooms =
      run (atMember (Room.next engine env)) worker.rooms
        (deliveriesFrom engine env worker events) := by
  induction events generalizing worker with
  | nil => rfl
  | cons event rest ih =>
    rw [run_cons, ih, deliveriesFrom]
    cases reached : worker.deliver engine event with
    | none =>
      rw [next_of_none reached]
      rfl
    | some delivery =>
      rw [rooms_next reached]
      rfl

/-- Each object sees a run of a single room. -/
theorem rooms_after (name : Str) (events : List Event) :
    (after engine env events).rooms name =
      Backend.after engine env (deliveriesTo engine env name events) := by
  rw [after, rooms_run, run_atMember]
  rfl

/-! ### Names -/

theorem routed_isToken {bufs : Fin 3 → Fin 4 → UInt8} {request : Request}
    (routed : edgeFetch engine bufs request = .room name) : IsToken name := by
  rw [edgeFetch] at routed
  split_ifs at routed
  -- the edge mints a name, or has matched it
  split at routed
  · cases routed
    exact ⟨_, generateToken_spec bufs⟩
  · simp only at routed
    split_ifs at routed with matched
    cases routed
    exact test_tokenRegex.mp matched

/-- The name is a token, and a request brings it along. -/
theorem deliver_spec (tokens : ∀ n ∈ worker.instantiated, IsToken n) {event : Event}
    {inner : Backend.Event} (reached : worker.deliver engine event = some (name, inner)) :
    IsToken name ∧ Hinted name inner := by
  cases event with
  | request request bufs =>
    rw [deliver] at reached
    split at reached
    · cases reached
    · rename_i routed
      cases reached
      refine ⟨routed_isToken routed, fun hint tokenParam same => ?_⟩
      cases same
      rfl
  | object dest event isInner =>
    rw [deliver] at reached
    split_ifs at reached with used
    cases reached
    obtain ⟨n, member, rfl⟩ : ∃ n ∈ worker.instantiated, n = name := by simpa using used
    refine ⟨tokens n member, fun hint tokenParam same => ?_⟩
    rw [same] at isInner
    exact isInner.elim

theorem instantiated_next (tokens : ∀ n ∈ worker.instantiated, IsToken n) (event : Event) :
    ∀ n ∈ (worker.next engine env event).instantiated, IsToken n := by
  cases reached : worker.deliver engine event with
  | none => rwa [next_of_none reached]
  | some delivery =>
    obtain ⟨dest, inner⟩ := delivery
    rw [next, reached]
    intro n member
    simp only at member
    split_ifs at member with used
    · exact tokens n member
    · rcases List.mem_append.mp member with old | new
      · exact tokens n old
      · rw [List.mem_singleton.mp new]
        exact (deliver_spec tokens reached).1

theorem mem_deliveriesFrom (tokens : ∀ n ∈ worker.instantiated, IsToken n) {events : List Event}
    {inner : Backend.Event} (member : (name, inner) ∈ deliveriesFrom engine env worker events) :
    IsToken name ∧ Hinted name inner := by
  induction events generalizing worker with
  | nil => cases member
  | cons event rest ih =>
    rw [deliveriesFrom, List.mem_append, Option.mem_toList] at member
    rcases member with reached | later
    · exact deliver_spec tokens reached
    · exact ih (instantiated_next tokens event) later

/-- What reaches an object reaches it under a token, by which it is called. -/
theorem mem_deliveriesTo {events : List Event} {inner : Backend.Event}
    (member : inner ∈ deliveriesTo engine env name events) : IsToken name ∧ Hinted name inner :=
  mem_deliveriesFrom (by simp [initial]) (mem_addressedTo.mp member)

end Rooms

end Worker

/-! ### Tokens and records of a room -/

section Room

variable {engine : Engine} {env : Env}

variable (engine env) in
/-- A room that is called by one name has no other token. -/
theorem token_of_hinted {name : Str} (events : List Event)
    (hinted : ∀ event ∈ events, Hinted name event) :
    ((after engine env events).token = none ∨ (after engine env events).token = some name) ∧
      ((after engine env events).storage.token = none ∨
        (after engine env events).storage.token = some name) := by
  induction events using List.reverseRecOn with
  | nil => exact ⟨.inl rfl, .inl rfl⟩
  | append_singleton before event ih =>
    obtain ⟨token, stored⟩ := ih fun e member => hinted e (List.mem_append_left _ member)
    have called : Hinted name event := hinted event (by simp)
    rw [after_concat]
    by_cases request : ∃ hint tokenParam, event = .fetch hint tokenParam
    · obtain ⟨hint, tokenParam, rfl⟩ := request
      obtain rfl := called hint tokenParam rfl
      have fetched : (after engine env before).next engine env (.fetch (some name) tokenParam) =
          (after engine env before).fetch (some name) tokenParam := rfl
      simp only [fetched, Room.fetch]
      split_ifs
      · exact ⟨.inr rfl, .inr rfl⟩
      · exact ⟨token, stored⟩
    · have change := lease_next engine env (after engine env before) event
      generalize lease : ((after engine env before).next engine env event).lease = leased at change
      have parts : leased.1 = ((after engine env before).next engine env event).token ∧
          leased.2.2 = ((after engine env before).next engine env event).storage := by
        rw [← lease]
        exact ⟨rfl, rfl⟩
      rw [← parts.1, ← parts.2]
      cases change with
      | kept => exact ⟨token, stored⟩
      | adopted names hint =>
        cases event with
        | fetch hint tokenParam => exact absurd ⟨_, _, rfl⟩ request
        | _ => exact names.elim
      | armed d received hello expiresAt reusable =>
        refine ⟨token, ?_⟩
        change (if (after engine env before).noToken then _ else _) = _ ∨ _
        split_ifs
        · exact stored
        · exact token
      | revoked => exact ⟨.inl rfl, .inl rfl⟩
      | reloaded => exact ⟨stored, stored⟩

/-- The event is the hello that this record was made for. -/
def RecordedAt (engine : Engine) (room : Room) (event : Event) (p : PeerConn) : Prop :=
  ∃ d, room.received? engine event = some d ∧ isReceiverHello d.msg ∧ d.ws = p.ws ∧ d.uuid = p.id ∧
    Admitted engine room d.tokenParam d.now d.msg

/-- A receiver's record was made for a hello that the room has let in. -/
theorem receiver_recorded (events : List Event) {p : PeerConn}
    (member : p ∈ (after engine env events).peers) (receiver : p.role = .receiver) :
    ∃ before hello later, events = before ++ hello :: later ∧
      RecordedAt engine (after engine env before) hello p := by
  induction events using List.reverseRecOn generalizing p with
  | nil => cases member
  | append_singleton before event ih =>
    -- an older record of the same connection
    have earlier {q : PeerConn} (old : q ∈ (after engine env before).peers)
        (role : q.role = .receiver) (ws : q.ws = p.ws) (id : q.id = p.id) :
        ∃ first hello later, before ++ [event] = first ++ hello :: later ∧
          RecordedAt engine (after engine env first) hello p := by
      obtain ⟨first, hello, later, rfl, d, received, type, socket, named, admitted⟩ := ih old role
      exact ⟨first, hello, later ++ [event], by simp, d, received, type, socket.trans ws,
        named.trans id, admitted⟩
    rw [after_concat] at member
    have change := peers_next engine env (after engine env before) event
    generalize ((after engine env before).next engine env event).peers = peers at change member
    cases change with
    | fewer sublist => exact earlier (sublist.subset member) receiver rfl rfl
    | sender d received hello =>
      rcases mem_setPeer member with rfl | ⟨old, -⟩
      · cases receiver
      · exact earlier old receiver rfl rfl
    | receiver d received hello passes =>
      rcases mem_setPeer member with rfl | ⟨old, -⟩
      · exact ⟨before, event, [], rfl, d, received, hello, rfl, rfl, passes⟩
      · exact earlier old receiver rfl rfl
    | accept d received type peer source role id named =>
      obtain ⟨q, old, same⟩ := List.mem_map.mp member
      have kept : q.role = p.role ∧ q.ws = p.ws ∧ q.id = p.id := by
        rw [← same]
        split_ifs <;> exact ⟨rfl, rfl, rfl⟩
      exact earlier old (kept.1.trans receiver) kept.2.1 kept.2.2

end Room

/-! ### Admission across the worker -/

/-- Over every run of the worker, whoever has a receiver's record in a room has said hello to
this very room, over the connection of the record, with the room's name as the token. -/
theorem guests_claim_their_room (engine : Engine) (env : Env) (events : List Worker.Event)
    (name : Str) {p : PeerConn} (member : p ∈ ((Worker.after engine env events).rooms name).peers)
    (receiver : p.role = .receiver) :
    IsToken name ∧ ∃ before hello later d,
      Worker.deliveriesTo engine env name events = before ++ hello :: later ∧
      (after engine env before).received? engine hello = some d ∧ isReceiverHello d.msg ∧
      d.ws = p.ws ∧ d.uuid = p.id ∧ Room.claimed engine d.tokenParam d.msg = some name := by
  rw [Worker.rooms_after] at member
  obtain ⟨before, hello, later, split, d, received, type, socket, named, token, claims, right, -⟩ :=
    receiver_recorded _ member receiver
  have here {event : Event} (reached : event ∈ before ++ hello :: later) :
      IsToken name ∧ Hinted name event := by
    rw [← split] at reached
    exact Worker.mem_deliveriesTo reached
  have knocked : hello ∈ before ++ hello :: later := by simp
  refine ⟨(here knocked).1, before, hello, later, d, split, received, type,
    socket, named, ?_⟩
  -- the token that was compared is the name
  have own := (token_of_hinted engine env before fun event old =>
    (here (List.mem_append_left _ old)).2).1
  rw [not_or, not_ne_iff] at right
  obtain ⟨-, same⟩ := right
  rcases own with none | known
  · rw [none] at same
    cases same
  · rw [claims, same, known]

/-- A request for the sample's room. -/
def sampleRequest : Worker.Event :=
  .request ⟨str "/v1", some (str "websocket"), some sampleToken⟩ fun _ _ => 0

/-- A sender, and a receiver that knocks. -/
def twoRequests : List Worker.Event :=
  [sampleRequest, sampleRequest,
    .object sampleToken (arrival 0 0 0 (helloAs "sender")) trivial,
    .object sampleToken (arrival 1 1 1 (helloAs "receiver")) trivial]

/-- The receiver of the sample has named the token. -/
theorem guests_claim_their_room_sample :
    ∃ p ∈ ((Worker.after asciiEngine .deployed twoRequests).rooms sampleToken).peers,
      ∃ d : Room.Delivery,
        d.ws = p.ws ∧ Room.claimed asciiEngine d.tokenParam d.msg = some sampleToken := by
  have present : ((Worker.after asciiEngine .deployed twoRequests).rooms sampleToken).peers.any
      (·.role = .receiver) = true := by
    decide +kernel
  obtain ⟨p, member, receiver⟩ := List.any_eq_true.mp present
  obtain ⟨-, -, -, -, d, -, -, -, socket, -, claims⟩ := guests_claim_their_room asciiEngine .deployed
    twoRequests sampleToken member (of_decide_eq_true receiver)
  exact ⟨p, member, d, socket, claims⟩

end Tether.Backend
