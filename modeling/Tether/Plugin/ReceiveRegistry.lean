import Mathlib.Data.Int.Notation
import Tether.Plugin.ReceiveSession
import Tether.Plugin.Token
import Tether.Semantics.Run

/-!
# The registry of receiving sessions

Sessions are shared by everything that receives a token. The calls of the registry
are cut at their critical sections: an event begins a call or delivers a packet or a
state, and a call that is not over yet is resumed at its next section or callback.
Callers are balanced: an event that no careful caller issues changes nothing.

## Main definitions

* `ReceiveRegistry` — the sessions, who holds them, and the calls in progress
* `get`, `subscribe`, `unsubscribe`, `enumerate`, `videoCb`, `audioCb`, `setState` — the
  first section of each call
* `proceed` — the next step of a call in progress

## Main results

* `got_get` — what a get comes to
* `next_state` — what an event comes to
-/

namespace Tether.Plugin

open Text Semantics

/-! ### Sessions -/

/-- Subscriptions are told apart by the memory they occupy. -/
structure Subscription where
  id : ℕ
  session : ℕ
  onVideo : Bool
  onAudio : Bool
  onState : Bool
  deriving DecidableEq

structure MidEntry where
  mid : Bytes
  isVideo : Bool
  deriving DecidableEq

structure ReceiveStats where
  videoBytes : UInt64
  audioBytes : UInt64
  videoPackets : UInt64
  audioPackets : UInt64
  lastUpdateNs : UInt64
  deriving DecidableEq

/-- `struct tether_receive_session`. -/
structure RxSession where
  token : Bytes
  refcount : ℤ
  sig : Option Signaling
  state : ReceiveState
  subs : List Subscription
  seenMids : List MidEntry
  stats : ReceiveStats

structure Packet where
  data : Bytes
  pts : ℤ
  mid : Option Bytes
  deriving DecidableEq

namespace RxSession

/-- Zeroed memory. -/
def bzalloc : RxSession where
  token := []
  refcount := 0
  sig := none
  state := .connecting
  subs := []
  seenMids := []
  stats := ⟨0, 0, 0, 0, 0⟩

/-- The token that the server is asked for. -/
def canon (s : RxSession) : Option Bytes := s.sig.bind (·.token)

def rememberMidLocked (mid : Option Bytes) (isVideo : Bool) (s : RxSession) : RxSession :=
  match mid with
  | none | some [] => s
  | some mid =>
    if s.seenMids.any (·.mid = mid) then s
    else { s with seenMids := s.seenMids ++ [⟨strncpy 64 mid, isVideo⟩] }

def recordVideo (packet : Packet) (now : UInt64) (s : RxSession) : RxSession :=
  rememberMidLocked packet.mid true
    { s with
      stats.videoBytes := s.stats.videoBytes + .ofNat packet.data.length
      stats.videoPackets := s.stats.videoPackets + 1
      stats.lastUpdateNs := now }

def recordAudio (packet : Packet) (now : UInt64) (s : RxSession) : RxSession :=
  rememberMidLocked packet.mid false
    { s with
      stats.audioBytes := s.stats.audioBytes + .ofNat packet.data.length
      stats.audioPackets := s.stats.audioPackets + 1
      stats.lastUpdateNs := now }

def enter (newState : ReceiveState) (s : RxSession) : RxSession := { s with state := newState }

/-- The subscription is added at the end. -/
def push (sub : Subscription) (s : RxSession) : RxSession := { s with subs := s.subs ++ [sub] }

/-- The first entry that is this subscription is removed. -/
def erase (sub : Subscription) (s : RxSession) : RxSession :=
  { s with subs := s.subs.erase sub }

/-- `session_create_locked`; `connects` says whether the peer connection and the
signaling client could be set up. -/
def sessionCreateLocked (token : Bytes) (connects : Bool) : Option RxSession :=
  match tokenNormalise token 20 with
  | none => none
  | some canon =>
    if connects then
      some { bzalloc with
        token, refcount := 1, sig := some (ReceiveSession.signaling canon)
        state := .awaitingAccept }
    else none

/-- A new session has its first reference, nobody has subscribed to it, and it asks for
the canonical form of its token. -/
theorem sessionCreateLocked_spec {token : Bytes} {connects : Bool} {session : RxSession}
    (made : sessionCreateLocked token connects = some session) :
    session.token = token ∧ session.refcount = 1 ∧ session.subs = [] ∧
      session.canon = tokenNormalise token 20 ∧ session.canon ≠ none ∧ connects = true := by
  rw [sessionCreateLocked] at made
  cases normal : tokenNormalise token 20 with
  | none => simp [normal] at made
  | some canon =>
    rw [normal] at made
    cases connects with
    | false => cases made
    | true =>
      obtain rfl := Option.some.inj made
      exact ⟨rfl, rfl, rfl, rfl, by simp [RxSession.canon, ReceiveSession.signaling], rfl⟩

/-- Where the connections can be set up, only a text that is no token is refused. -/
theorem sessionCreateLocked_eq_none {token : Bytes}
    (refused : sessionCreateLocked token true = none) : tokenNormalise token 20 = none := by
  rw [sessionCreateLocked] at refused
  cases normal : tokenNormalise token 20 with
  | none => rfl
  | some canon => simp [normal] at refused

/-- Remembering a stream touches nothing else. -/
theorem rememberMidLocked_eq (mid : Option Bytes) (isVideo : Bool) (s : RxSession) :
    ∃ seenMids, rememberMidLocked mid isVideo s = { s with seenMids } := by
  unfold rememberMidLocked
  split
  · exact ⟨s.seenMids, rfl⟩
  · exact ⟨s.seenMids, rfl⟩
  · split_ifs
    · exact ⟨s.seenMids, rfl⟩
    · exact ⟨_, rfl⟩

/-- What does not touch the names of a session. -/
structure KeepsNames (f : RxSession → RxSession) : Prop where
  token : ∀ s, (f s).token = s.token
  canon : ∀ s, (f s).canon = s.canon

/-- What does not touch its counter and its subscriptions either. -/
structure Keeps (f : RxSession → RxSession) : Prop extends KeepsNames f where
  refcount : ∀ s, (f s).refcount = s.refcount
  subs : ∀ s, (f s).subs = s.subs

theorem keepsNames_push (sub : Subscription) : KeepsNames (push sub) :=
  ⟨fun _ => rfl, fun _ => rfl⟩

theorem keepsNames_erase (sub : Subscription) : KeepsNames (erase sub) :=
  ⟨fun _ => rfl, fun _ => rfl⟩

/-- What changes the statistics and the remembered streams at most. -/
theorem Keeps.of_records {f : RxSession → RxSession}
    (records : ∀ s, ∃ stats seenMids, f s = { s with stats, seenMids }) : Keeps f := by
  refine ⟨⟨fun s => ?_, fun s => ?_⟩, fun s => ?_, fun s => ?_⟩ <;>
    obtain ⟨stats, seenMids, same⟩ := records s
  · rw [same]
  · rw [same]
    rfl
  · rw [same]
  · rw [same]

theorem keeps_recordVideo (packet : Packet) (now : UInt64) : Keeps (recordVideo packet now) := by
  apply Keeps.of_records
  intro s
  obtain ⟨seenMids, same⟩ := rememberMidLocked_eq packet.mid true _
  exact ⟨_, seenMids, same⟩

theorem keeps_recordAudio (packet : Packet) (now : UInt64) : Keeps (recordAudio packet now) := by
  apply Keeps.of_records
  intro s
  obtain ⟨seenMids, same⟩ := rememberMidLocked_eq packet.mid false _
  exact ⟨_, seenMids, same⟩

theorem keeps_enter (newState : ReceiveState) : Keeps (enter newState) := by
  refine ⟨⟨?_, ?_⟩, ?_, ?_⟩ <;> intro s <;> rfl

end RxSession

/-! ### Callbacks -/

/-- What the subscribers of a session are told. -/
inductive Delivery
  | video (packet : Packet)
  | audio (packet : Packet)
  | state (newState : ReceiveState)
  deriving DecidableEq

/-- A callback into the user's code. -/
inductive Callback
  | onVideo (sub : Subscription) (data : Bytes) (width height : ℕ) (pts : ℤ)
    (mid : Option Bytes)
  | onAudio (sub : Subscription) (data : Bytes) (sampleRate channels : ℕ) (pts : ℤ)
    (mid : Option Bytes)
  | onState (sub : Subscription) (state : ReceiveState)
  | enumerated (session : ℕ)
  deriving DecidableEq

/-- The subscription that a callback is for. -/
def Callback.sub? : Callback → Option Subscription
  | .onVideo sub _ _ _ _ _ | .onAudio sub _ _ _ _ _ | .onState sub _ => some sub
  | .enumerated _ => none

/-- One entry of a delivery. The snapshot holds pointers; what one of them points
at is taken to be as it was when the snapshot was made. -/
def Delivery.invoke (sub : Subscription) : Delivery → List Callback
  | .video packet =>
    if sub.onVideo then [.onVideo sub packet.data 0 0 packet.pts packet.mid] else []
  | .audio packet =>
    if sub.onAudio then [.onAudio sub packet.data 48000 2 packet.pts packet.mid] else []
  | .state newState => if sub.onState then [.onState sub newState] else []

/-! ### Calls in progress -/

/-- Whom `tether_receive_session_release` returns to. -/
inductive Caller
  | holder
  | unsubscribe (sub : Subscription)
  | enumerate (rest : List ℕ)
  deriving DecidableEq

/-- A call between two of its steps, with what it does next. -/
inductive Call
  /-- `subscribe`, before the reference is taken. -/
  | bump (sub : Subscription)
  /-- `subscribe`, before the current state is replayed. -/
  | replay (sub : Subscription)
  /-- `enumerate`, before the callback for the next session. -/
  | visit (rest : List ℕ)
  /-- `release`, before its section. -/
  | release (s : ℕ) (caller : Caller)
  /-- `release`, before `session_destroy`. -/
  | destroy (s : ℕ) (caller : Caller)
  /-- A delivery, before the callback for the next entry. -/
  | deliver (delivery : Delivery) (rest : List Subscription)
  deriving DecidableEq

/-- What is left to do after a release. -/
def Caller.next : Caller → Option Call
  | .enumerate rest => some (.visit rest)
  | .holder | .unsubscribe _ => none

/-- The subscription whose end is reported when a release is over. -/
def Caller.returned : Caller → List Subscription
  | .unsubscribe sub => [sub]
  | .holder | .enumerate _ => []

/-- Before it takes a reference, `subscribe` relies on one that its caller has. -/
def Call.reliesOn (s : ℕ) : Call → Bool
  | .bump sub => sub.session = s
  | _ => false

/-- The calls after one of them has moved on, or has returned. -/
def moveOn (i : ℕ) (next : Option Call) (calls : List Call) : List Call :=
  calls.take i ++ next.toList ++ calls.drop (i + 1)

/-! ### The registry -/

/-- The registry with all memory it has ever used. The callers' books come last:
what they have got and not released, the subscriptions they can end, and those that
they have seen the end of. -/
structure ReceiveRegistry where
  initialised : Bool
  sessions : List ℕ
  memory : ℕ → RxSession
  allocated : ℕ
  freed : List ℕ
  nextSub : ℕ
  calls : List Call
  held : List ℕ
  subscribed : List Subscription
  returned : List Subscription

namespace ReceiveRegistry

/-- Before `tether_receive_session_init`. -/
def start : ReceiveRegistry where
  initialised := false
  sessions := []
  memory := fun _ => .bzalloc
  allocated := 0
  freed := []
  nextSub := 0
  calls := []
  held := []
  subscribed := []
  returned := []

def modify (s : ℕ) (f : RxSession → RxSession) (r : ReceiveRegistry) : ReceiveRegistry :=
  { r with memory := Function.update r.memory s (f (r.memory s)) }

def begin (call : Call) (r : ReceiveRegistry) : ReceiveRegistry :=
  { r with calls := r.calls ++ [call] }

/-- `++s->refcount`, in the memory of all sessions. -/
def increment (s : ℕ) (memory : ℕ → RxSession) : ℕ → RxSession :=
  Function.update memory s { memory s with refcount := (memory s).refcount + 1 }

/-- `--s->refcount`. -/
def decrement (s : ℕ) (memory : ℕ → RxSession) : ℕ → RxSession :=
  Function.update memory s { memory s with refcount := (memory s).refcount - 1 }

def bump (s : ℕ) (r : ReceiveRegistry) : ReceiveRegistry :=
  { r with memory := increment s r.memory }

def init (r : ReceiveRegistry) : ReceiveRegistry :=
  if r.initialised then r else { r with initialised := true, sessions := [] }

/-- A new session, with the caller's reference. -/
def create (session : RxSession) (r : ReceiveRegistry) : ReceiveRegistry :=
  { r with
    memory := Function.update r.memory r.allocated session, allocated := r.allocated + 1
    sessions := r.sessions ++ [r.allocated] }

/-- `tether_receive_session_get`. -/
def get (token : Bytes) (connects : Bool) (r : ReceiveRegistry) : ReceiveRegistry × Option ℕ :=
  if token = [] then (r, none)
  else if !r.initialised then (r, none)
  else
    match r.sessions.find? fun s => (r.memory s).token = token with
    | some s => (r.bump s, some s)
    | none =>
      match RxSession.sessionCreateLocked token connects with
      | none => (r, none)
      | some session => (r.create session, some r.allocated)

/-- The section of `tether_receive_session_release`, and whether it decides to
destroy the session. -/
def releaseLocked (s : ℕ) (r : ReceiveRegistry) : ReceiveRegistry × Bool :=
  let r := { r with memory := decrement s r.memory }
  if (r.memory s).refcount ≤ 0 then ({ r with sessions := r.sessions.erase s }, true)
  else (r, false)

/-- `tether_receive_session_subscribe` up to its second section. -/
def subscribe (s : ℕ) (onVideo onAudio onState : Bool) (r : ReceiveRegistry) :
    ReceiveRegistry :=
  let sub : Subscription := ⟨r.nextSub, s, onVideo, onAudio, onState⟩
  -- the reference is taken later, in a section of its own
  begin (.bump sub)
    { r.modify s (RxSession.push sub) with nextSub := r.nextSub + 1 }

/-- `tether_receive_session_unsubscribe` up to its release. -/
def unsubscribe (sub : Subscription) (r : ReceiveRegistry) : ReceiveRegistry :=
  begin (.release sub.session (.unsubscribe sub))
    (r.modify sub.session (RxSession.erase sub))

/-- `tether_receive_session_enumerate` up to its first callback. -/
def enumerate (r : ReceiveRegistry) : ReceiveRegistry :=
  begin (.visit r.sessions)
    { r with memory := r.sessions.foldl (fun memory s => increment s memory) r.memory }

/-- `wrtc_video_cb` up to its first callback. -/
def videoCb (s : ℕ) (packet : Packet) (now : UInt64) (r : ReceiveRegistry) : ReceiveRegistry :=
  let r := r.modify s (RxSession.recordVideo packet now)
  begin (.deliver (.video packet) (r.memory s).subs) r

/-- `wrtc_audio_cb` up to its first callback. -/
def audioCb (s : ℕ) (packet : Packet) (now : UInt64) (r : ReceiveRegistry) : ReceiveRegistry :=
  let r := r.modify s (RxSession.recordAudio packet now)
  begin (.deliver (.audio packet) (r.memory s).subs) r

/-- `set_state` up to its first callback. -/
def setState (s : ℕ) (newState : ReceiveState) (r : ReceiveRegistry) : ReceiveRegistry :=
  -- nobody is told of a state that is not a new one
  if (r.memory s).state = newState then r
  else
    let r := r.modify s (RxSession.enter newState)
    begin (.deliver (.state newState) (r.memory s).subs) r

/-! ### Steps -/

inductive Event
  | init
  | get (token : Bytes) (connects : Bool)
  | release (s : ℕ)
  | subscribe (s : ℕ) (onVideo onAudio onState : Bool)
  | unsubscribe (sub : Subscription)
  | enumerate
  | video (s : ℕ) (packet : Packet) (now : UInt64)
  | audio (s : ℕ) (packet : Packet) (now : UInt64)
  | state (s : ℕ) (newState : ReceiveState)
  /-- The call at this place takes its next step. -/
  | resume (i : ℕ)
  deriving DecidableEq

/-- A release of this session is not the last one while somebody relies on it. -/
def MayRelease (r : ReceiveRegistry) (s : ℕ) : Prop :=
  s ∈ r.held ∧ (s ∈ r.held.erase s ∨ ∀ call ∈ r.calls, call.reliesOn s = false)

instance (r : ReceiveRegistry) (s : ℕ) : Decidable (r.MayRelease s) :=
  inferInstanceAs (Decidable (_ ∧ _))

/-- Callbacks of the connection come while the session's memory is there. -/
def Exists (r : ReceiveRegistry) (s : ℕ) : Prop := s < r.allocated ∧ s ∉ r.freed

instance (r : ReceiveRegistry) (s : ℕ) : Decidable (r.Exists s) :=
  inferInstanceAs (Decidable (_ ∧ _))

/-- The next step of the call at a place. -/
def proceed (i : ℕ) (r : ReceiveRegistry) : Call → ReceiveRegistry × List Callback
  | .bump sub =>
    let r := r.bump sub.session
    ({ r with calls := moveOn i (some (.replay sub)) r.calls }, [])
  | .replay sub =>
    ({ r with calls := moveOn i none r.calls, subscribed := r.subscribed ++ [sub] },
      Delivery.invoke sub (.state (r.memory sub.session).state))
  | .visit [] => ({ r with calls := moveOn i none r.calls }, [])
  | .visit (s :: rest) =>
    ({ r with calls := moveOn i (some (.release s (.enumerate rest))) r.calls },
      [.enumerated s])
  | .release s caller =>
    let (r, last) := r.releaseLocked s
    if last then ({ r with calls := moveOn i (some (.destroy s caller)) r.calls }, [])
    else
      ({ r with calls := moveOn i caller.next r.calls, returned := r.returned ++ caller.returned },
        [])
  | .destroy s caller =>
    ({ r with
      freed := r.freed ++ [s], calls := moveOn i caller.next r.calls
      returned := r.returned ++ caller.returned }, [])
  | .deliver _ [] => ({ r with calls := moveOn i none r.calls }, [])
  | .deliver delivery (sub :: rest) =>
    ({ r with calls := moveOn i (some (.deliver delivery rest)) r.calls }, delivery.invoke sub)

def step (r : ReceiveRegistry) : Event → ReceiveRegistry × List Callback
  | .init => (r.init, [])
  | .get token connects =>
    let (r, got) := r.get token connects
    ({ r with held := r.held ++ got.toList }, [])
  | .release s =>
    if r.MayRelease s then (begin (.release s .holder) { r with held := r.held.erase s }, [])
    else (r, [])
  | .subscribe s onVideo onAudio onState =>
    if s ∈ r.held then (r.subscribe s onVideo onAudio onState, []) else (r, [])
  | .unsubscribe sub =>
    if sub ∈ r.subscribed then
      (unsubscribe sub { r with subscribed := r.subscribed.erase sub }, [])
    else (r, [])
  | .enumerate => (r.enumerate, [])
  | .video s packet now => if r.Exists s then (r.videoCb s packet now, []) else (r, [])
  | .audio s packet now => if r.Exists s then (r.audioCb s packet now, []) else (r, [])
  | .state s newState => if r.Exists s then (r.setState s newState, []) else (r, [])
  | .resume i =>
    match r.calls[i]? with
    | none => (r, [])
    | some call => r.proceed i call

def next (r : ReceiveRegistry) (event : Event) : ReceiveRegistry := (r.step event).1

def after (events : List Event) : ReceiveRegistry := run next start events

theorem after_concat (events : List Event) (event : Event) :
    after (events ++ [event]) = (after events).next event :=
  run_concat next start events event

/-! ### What a call does -/

variable {r : ReceiveRegistry}

/-- What a get comes to: nothing, a session that goes by this text, or a new one. -/
inductive Got (r : ReceiveRegistry) (token : Bytes) (connects : Bool) :
    ReceiveRegistry × Option ℕ → Prop
  | nothing
    (why : token = [] ∨ r.initialised = false ∨
      RxSession.sessionCreateLocked token connects = none) : Got r token connects (r, none)
  | found (s : ℕ) (listed : s ∈ r.sessions) (same : (r.memory s).token = token) :
    Got r token connects (r.bump s, some s)
  | created (session : RxSession) (initialised : r.initialised = true)
    (new : ∀ s ∈ r.sessions, (r.memory s).token ≠ token)
    (made : RxSession.sessionCreateLocked token connects = some session) :
    Got r token connects (r.create session, some r.allocated)

theorem got_get (r : ReceiveRegistry) (token : Bytes) (connects : Bool) :
    Got r token connects (r.get token connects) := by
  rw [get]
  by_cases empty : token = []
  · rw [if_pos empty]
    exact .nothing (.inl empty)
  cases initialised : r.initialised with
  | false =>
    rw [if_neg empty]
    exact .nothing (.inr (.inl initialised))
  | true =>
    rw [if_neg empty, if_neg (by simp)]
    cases found : r.sessions.find? fun s => (r.memory s).token = token with
    | some s =>
      have same := List.find?_some found
      exact .found s (List.mem_of_find?_eq_some found) (by simpa using same)
    | none =>
      cases made : RxSession.sessionCreateLocked token connects with
      | none => exact .nothing (.inr (.inr made))
      | some session =>
        refine .created session initialised ?_ made
        intro s listed same
        exact List.find?_eq_none.mp found s listed (by simpa using same)

theorem refcount_modify (s t : ℕ) (f : RxSession → RxSession) :
    ((r.modify s f).memory t).refcount =
      if t = s then (f (r.memory s)).refcount else (r.memory t).refcount := by
  simp only [modify, Function.update_apply]
  split_ifs <;> rfl

/-- A change of a session that keeps the counter. -/
theorem refcount_kept {s : ℕ} {f : RxSession → RxSession}
    (kept : ∀ session, (f session).refcount = session.refcount) (t : ℕ) :
    ((r.modify s f).memory t).refcount = (r.memory t).refcount := by
  rw [refcount_modify]
  split_ifs with same
  · rw [kept, same]
  · rfl

/-- The section of a release looks at the counter once. -/
theorem releaseLocked_eq (s : ℕ) :
    r.releaseLocked s =
      if (r.memory s).refcount - 1 ≤ 0 then
        ({ r with memory := decrement s r.memory, sessions := r.sessions.erase s }, true)
      else ({ r with memory := decrement s r.memory }, false) := by
  have counter : (decrement s r.memory s).refcount = (r.memory s).refcount - 1 := by
    rw [decrement, Function.update_self]
  simp only [releaseLocked, counter]

/-! ### What an event does -/

/-- The next state: the same, or that of a call that is made, begins or goes on. A callback of
the connection changes a session and takes a snapshot of its subscriptions. -/
inductive NextState (r : ReceiveRegistry) (event : Event) : ReceiveRegistry → Prop
  | same : NextState r event r
  | init (down : r.initialised = false) :
    NextState r event { r with initialised := true, sessions := [] }
  | get (token : Bytes) (connects : Bool) (gets : event = .get token connects) :
    NextState r event { (r.get token connects).1 with
      held := (r.get token connects).1.held ++ (r.get token connects).2.toList }
  | release (s : ℕ) (may : r.MayRelease s) :
    NextState r event (begin (.release s .holder) { r with held := r.held.erase s })
  | subscribe (s : ℕ) (onVideo onAudio onState : Bool) (held : s ∈ r.held) :
    NextState r event (r.subscribe s onVideo onAudio onState)
  | unsubscribe (sub : Subscription) (owned : sub ∈ r.subscribed) :
    NextState r event (unsubscribe sub { r with subscribed := r.subscribed.erase sub })
  | enumerate : NextState r event r.enumerate
  | deliver (s : ℕ) {f : RxSession → RxSession} (keeps : RxSession.Keeps f) (delivery : Delivery) :
    NextState r event
      (begin (.deliver delivery ((r.modify s f).memory s).subs) (r.modify s f))
  | resume (i : ℕ) (call : Call) (resumes : event = .resume i) (here : r.calls[i]? = some call) :
    NextState r event (r.proceed i call).1

theorem next_state (r : ReceiveRegistry) (event : Event) : NextState r event (r.next event) := by
  cases event with
  | init =>
    rw [next, step, ReceiveRegistry.init]
    split_ifs with up
    · exact .same
    · exact .init (by simpa using up)
  | get token connects => exact .get token connects rfl
  | release s =>
    rw [next, step]
    split_ifs with may
    · exact .release s may
    · exact .same
  | subscribe s onVideo onAudio onState =>
    rw [next, step]
    split_ifs with held
    · exact .subscribe s onVideo onAudio onState held
    · exact .same
  | unsubscribe sub =>
    rw [next, step]
    split_ifs with owned
    · exact .unsubscribe sub owned
    · exact .same
  | enumerate => exact .enumerate
  | video s packet now =>
    rw [next, step]
    split_ifs
    · exact .deliver s (RxSession.keeps_recordVideo packet now) (.video packet)
    · exact .same
  | audio s packet now =>
    rw [next, step]
    split_ifs
    · exact .deliver s (RxSession.keeps_recordAudio packet now) (.audio packet)
    · exact .same
  | state s newState =>
    rw [next, step, setState]
    split_ifs
    · exact .same
    · exact .deliver s (RxSession.keeps_enter newState) (.state newState)
    · exact .same
  | resume i =>
    rw [next, step]
    cases here : r.calls[i]? with
    | none => exact .same
    | some call => exact .resume i call rfl here

end ReceiveRegistry

end Tether.Plugin
