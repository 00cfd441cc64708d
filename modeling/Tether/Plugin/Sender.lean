import Tether.Plugin.Admission
import Tether.Plugin.Signaling

/-!
# The sender

A sender binds captured sources to a signaling connection and an admission
store, and keeps one session for each peer connection it has opened. Each
callback and each call from the user interface runs to its end before the next
one; what the WebRTC stack and the encoders answer comes with the event.

## Main definitions

* `Sender`, `Session` — the object and its sessions
* `Sender.onAdmissionChanged`, `Sender.onSignalingEvent`,
  `Sender.encodeCaptureToSessions` — the callbacks
* `Sender.Event`, `Sender.handle` — what reaches the object, and what it does then
* `Sender.Calls` — the admission call that an event makes

## Main results

* `next_adm` — the store changes by an event's admission call only
* `live_session` — where a session with a connection comes from
* `accept_signal` — an acceptance is sent for accepted entries only
-/

namespace Tether.Plugin

open Text Js Semantics

/-! ### Data -/

structure VideoCapture where
  sourceName : Bytes
  mid : Bytes
  deriving DecidableEq

structure SourceEncoder where
  videoTrackId : ℤ
  mid : Bytes
  deriving DecidableEq

/-- A receiver session. `wrtc` is its peer connection, by the order of creation,
until it is released; `audio` are the sources attached to its audio sender. -/
structure Session where
  peerId : Bytes
  wrtc : Option ℕ
  audio : Option (List Bytes)
  srcEncoders : List SourceEncoder
  deriving DecidableEq

structure SenderConfig where
  sourceName : Option Bytes
  videoSourceNames : List Bytes
  audioSourceNames : List Bytes
  maxReceivers : ℤ
  tokenTtlMinutes : ℤ
  reusableToken : Bool
  /-- strip host mic -/
  twitchStMode : Bool

structure Sender where
  captures : List VideoCapture
  audioSourceNames : List Bytes
  twitchStMode : Bool
  sig : Signaling
  adm : Admission
  sessions : List Session
  currentToken : Bytes
  /-- How many peer connections have been created. -/
  connections : ℕ

inductive WebrtcState
  | new
  | connecting
  | connected
  | failed
  | closed
  deriving DecidableEq

/-- What the dialog is told about a peer connection. -/
inductive DialogState
  | waiting
  | peerConnected
  | failed
  deriving DecidableEq

/-- A call that leaves the object. The audio senders of the sessions push their packets on threads
of their own, which is left out. -/
inductive Sender.Effect
  | signal (call : Signal)
  | negotiate (wrtc : ℕ)
  | applyRemoteSdp (wrtc : ℕ) (sdpType sdp : Bytes)
  | addRemoteIce (wrtc : ℕ) (candidate mid : Bytes)
  | pushVideo (session : Session) (trackId : ℤ) (data : Bytes)
  | release (wrtc : ℕ)
  | onToken (token : Bytes)
  | onPending (peerId displayName fingerprint : Bytes)
  | onPeerState (peerId : Bytes) (state : DialogState)
  | onPeerGone (peerId : Bytes)
  deriving DecidableEq

/-- What `tether_webrtc_create` answers: nothing, or a connection that numbers
the captured tracks like this. -/
abbrev Connected := Option (List ℤ)

namespace Sender

/-! ### Creation -/

/-- The sources to capture: the names of the array, or else the single one. -/
def resolveSources (cfg : SenderConfig) : List Bytes :=
  match cfg.videoSourceNames.filter (· ≠ []) with
  | [] => cfg.sourceName.toList.filter (· ≠ [])
  | names => names

def capture (idx : ℕ) (name : Bytes) : VideoCapture where
  sourceName := strncpy 256 name
  mid := strncpy 64 (bytes "video" ++ bytes (toString idx))

/-- `tether_sender_create`, which needs a source. -/
def create (cfg : SenderConfig) : Option Sender :=
  match (resolveSources cfg).mapIdx capture with
  | [] => none
  | first :: more => some {
      captures := first :: more
      audioSourceNames := cfg.audioSourceNames
      twitchStMode := cfg.twitchStMode
      sig := {
        role := .sender
        displayName := first.sourceName
        token := none
        tokenTtlMinutes := Admission.positiveOr 30 cfg.tokenTtlMinutes
        reusableToken := cfg.reusableToken }
      adm := .create {
        maxReceivers := Admission.positiveOr 4 cfg.maxReceivers
        rateLimitWindowSeconds := 60
        rateLimitMaxAttempts := 10
        lockoutSeconds := 300
        autoAcceptPinned := true }
      sessions := []
      currentToken := []
      connections := 0 }

/-! ### Sessions -/

def findSession (s : Sender) (peerId : Bytes) : Option Session :=
  s.sessions.find? (·.peerId = peerId)

/-- The session of a new peer connection, with a track for every capture. -/
def newSession (s : Sender) (peerId : Bytes) (trackIds : List ℤ) : Session where
  peerId := strncpy 64 peerId
  wrtc := some s.connections
  audio := some (s.audioSourceNames.filter fun name =>
    !(s.twitchStMode && (strstr (bytes "Mic") name).isSome))
  srcEncoders := s.captures.mapIdx fun i cap => ⟨trackIds.getD i (-1), strncpy 64 cap.mid⟩

def createSession (s : Sender) (peer : Peer) : Connected → Sender × List Effect
  | none => (s, [])
  | some trackIds =>
    ({ s with
        sessions := s.sessions ++ [s.newSession peer.peerId trackIds]
        connections := s.connections + 1 },
      [.negotiate s.connections])

/-! ### Admission -/

def onAdmissionChanged (s : Sender) (peer : Peer) (connected : Connected) :
    Sender × List Effect :=
  match peer.state with
  | .accepted =>
    let (s, effects) := s.createSession peer connected
    (s, .signal (.accept peer.peerId) :: effects)
  | .rejected | .revoked =>
    (s, [.signal (.reject peer.peerId), .onPeerGone peer.peerId])
  | .pending | .disconnected => (s, [])

/-- A call of the admission store, and the callback it makes. -/
def callAdmission (s : Sender) (op : Admission.Op) (connected : Connected) : Sender × List Effect :=
  match s.adm.perform op with
  | (adm, none) => ({ s with adm := adm }, [])
  | (adm, some peer) => { s with adm := adm }.onAdmissionChanged peer connected

/-! ### Signaling -/

/-- The text behind `"name":"`, up to the next quote. -/
def textMember (name : String) (json : Bytes) : Option Bytes :=
  (strstr (memberPattern (bytes name)) json).bind fun found =>
    spanTo quote (found.drop (memberPattern (bytes name)).length)

/-- The same in a buffer of 128 bytes, which stays empty if there is none. -/
def textBuffer (name : String) (json : Bytes) : Bytes :=
  strncpy 128 ((textMember name json).getD [])

/-- `on_signaling_event`; `now` is the clock. -/
def onSignalingEvent (s : Sender) (evt : SignalingEvent) (msg : Msg) (now : UInt64)
    (connected : Connected) : Sender × List Effect :=
  match evt, msg.peerId, msg.jsonPayload with
  | .tokenIssued, _, some tok =>
    ({ s with currentToken := strncpy 20 tok }, [.onToken (strncpy 20 tok)])
  | .requestPending, some peerId, some json =>
    let name := textBuffer "name" json
    let fp := textBuffer "fingerprint" json
    let (s, effects) := s.callAdmission (.addPending peerId name fp now) connected
    (s, effects ++ [.onPending peerId name fp])
  | .sdpAnswer, some peerId, some json =>
    match (s.findSession peerId).bind (·.wrtc), textMember "sdp" json with
    | some wrtc, some sdp => (s, [.applyRemoteSdp wrtc (bytes "answer") sdp])
    | _, _ => (s, [])
  | .iceCandidate, some peerId, some json =>
    match (s.findSession peerId).bind (·.wrtc), textMember "candidate" json,
      textMember "mid" json with
    | some wrtc, some cand, some mid => (s, [.addRemoteIce wrtc cand mid])
    | _, _, _ => (s, [])
  | .peerGone, some peerId, _ =>
    let (s, effects) := s.callAdmission (.disconnectPeer peerId) connected
    (s, effects ++ [.onPeerGone peerId])
  | _, _, _ => (s, [])

/-- A text frame of the signaling connection. -/
def onMessage (s : Sender) (json : Bytes) (now : UInt64) (connected : Connected) :
    Sender × List Effect :=
  match handleMessage json with
  | none => (s, [])
  | some raised =>
    { s with sig := s.sig.keepToken raised }.onSignalingEvent raised.1 raised.2 now connected

/-! ### Callbacks of a session -/

def dialogState : WebrtcState → DialogState
  | .connected => .peerConnected
  | .failed | .closed => .failed
  | .new | .connecting => .waiting

/-- The connection is over. -/
def WebrtcState.isOver : WebrtcState → Bool
  | .failed | .closed => true
  | _ => false

def sessionState (s : Sender) (r : Session) (state : WebrtcState) : Sender × List Effect :=
  let told := Effect.onPeerState r.peerId (dialogState state)
  if WebrtcState.isOver state then
    let (s, effects) := s.callAdmission (.disconnectPeer r.peerId) none
    (s, told :: effects)
  else (s, [told])

/-! ### Media -/

/-- What one session's encoder yields goes out on its connection, if there is
one; `tether_webrtc_push_video` ignores empty packets. -/
def pushPackets (r : Session) (capIdx : ℕ) (packets : List Bytes) : List Effect :=
  match r.srcEncoders[capIdx]?, r.wrtc with
  | some se, some _ =>
    (packets.filter (· ≠ [])).map fun data => .pushVideo r se.videoTrackId data
  | _, _ => []

/-- `output` lists the packets of each session's encoder for this frame. -/
def encodeCaptureToSessions (s : Sender) (capIdx : ℕ) (output : List (List Bytes)) :
    List Effect :=
  (s.sessions.zip output).flatMap fun (r, packets) => pushPackets r capIdx packets

/-! ### Calls from the user interface -/

/-- The session without its connection. -/
def releaseMedia (r : Session) : Session := { r with wrtc := none, audio := none }

/-- The sessions with the first one of this peer released. -/
def releaseFirst (peerId : Bytes) : List Session → List Session
  | [] => []
  | r :: rest =>
    if r.peerId = peerId then releaseMedia r :: rest else r :: releaseFirst peerId rest

def disconnectPeer (s : Sender) (peerId : Bytes) : Sender × List Effect :=
  -- Drop the live media session for this peer.
  let released := ((s.findSession peerId).bind (·.wrtc)).toList.map Effect.release
  let s := { s with sessions := releaseFirst peerId s.sessions }
  let (s, effects) := s.callAdmission (.disconnectPeer peerId) none
  (s, released ++ effects ++ [.signal (.reject peerId), .onPeerGone peerId])

def revokeToken (s : Sender) : Sender × List Effect :=
  let (s, effects) := s.callAdmission .revokeAll none
  (s, effects ++ [.signal .revokeToken])

/-! ### Events -/

/-- What can reach the object. The callbacks of a session are given by the
session's place. -/
inductive Event
  | message (json : Bytes) (now : UInt64) (connected : Connected)
  | accept (peerId : Bytes) (pin : Bool) (connected : Connected)
  | reject (peerId : Bytes)
  | disconnectPeer (peerId : Bytes)
  | revokeToken
  | localSdp (session : ℕ) (sdpType sdp : Bytes)
  | localIce (session : ℕ) (candidate mid : Bytes) (mlineIndex : ℤ)
  | sessionState (session : ℕ) (state : WebrtcState)
  | frame (capIdx : ℕ) (output : List (List Bytes))
  deriving DecidableEq

/-- The effect of one event on the object and on the outside. -/
def handle (s : Sender) : Event → Sender × List Effect
  | .message json now connected => s.onMessage json now connected
  | .accept peerId pin connected => s.callAdmission (.accept peerId pin) connected
  | .reject peerId => s.callAdmission (.reject peerId) none
  | .disconnectPeer peerId => s.disconnectPeer peerId
  | .revokeToken => s.revokeToken
  | .localSdp session sdpType sdp =>
    match s.sessions[session]? with
    | none => (s, [])
    | some r => (s, [.signal (.sendSdp r.peerId sdpType sdp)])
  | .localIce session candidate mid mlineIndex =>
    match s.sessions[session]? with
    | none => (s, [])
    | some r => (s, [.signal (.sendIce r.peerId candidate mid mlineIndex)])
  | .sessionState session state =>
    match s.sessions[session]? with
    | none => (s, [])
    | some r => s.sessionState r state
  | .frame capIdx output => (s, s.encodeCaptureToSessions capIdx output)

def next (s : Sender) (event : Event) : Sender := (s.handle event).1

/-- The sender after a run of events. -/
def after (fresh : Sender) (events : List Event) : Sender := run next fresh events

theorem after_concat (fresh : Sender) (events : List Event) (event : Event) :
    fresh.after (events ++ [event]) = (fresh.after events).next event :=
  run_concat next fresh events event

/-- What leaves the sender when the run's next event is `event`. -/
def effectsAt (fresh : Sender) (before : List Event) (event : Event) : List Effect :=
  ((fresh.after before).handle event).2

/-- A new sender knows nobody. -/
theorem empty_of_create {cfg : SenderConfig} {fresh : Sender} (created : create cfg = some fresh) :
    fresh.adm.peers = [] ∧ fresh.sessions = [] := by
  rw [create] at created
  split at created
  · simp at created
  · obtain rfl := Option.some.inj created
    exact ⟨rfl, rfl⟩

/-! ### Admission calls -/

section Calls

variable (s : Sender) (op : Admission.Op) (connected : Connected)

theorem callAdmission_adm : (s.callAdmission op connected).1.adm = (s.adm.perform op).1 := by
  rw [callAdmission]
  rcases s.adm.perform op with ⟨adm, _ | peer⟩
  · rfl
  · cases state : peer.state <;> cases connected <;>
      simp [onAdmissionChanged, createSession, state]

/-- A session is opened for an entry that the call has accepted. -/
theorem callAdmission_sessions :
    (s.callAdmission op connected).1.sessions = s.sessions ∨
      ∃ peer r, (s.adm.perform op).2 = some peer ∧ peer.state = .accepted ∧
        r.peerId = strncpy 64 peer.peerId ∧ r.wrtc = some s.connections ∧
        (s.callAdmission op connected).1.sessions = s.sessions ++ [r] := by
  rw [callAdmission]
  rcases s.adm.perform op with ⟨adm, _ | peer⟩
  · exact .inl rfl
  · cases state : peer.state with
    | accepted =>
      cases connected with
      | none => exact .inl (by simp [onAdmissionChanged, createSession, state])
      | some trackIds =>
        refine .inr ⟨peer, newSession { s with adm := adm } peer.peerId trackIds, rfl, state,
          rfl, rfl, ?_⟩
        simp [onAdmissionChanged, createSession, state]
    | _ => exact .inl (by simp [onAdmissionChanged, state])

/-- An acceptance is sent for an entry that the call has accepted. -/
theorem accept_mem_callAdmission {peerId : Bytes}
    (sent : .signal (.accept peerId) ∈ (s.callAdmission op connected).2) :
    ∃ peer, (s.adm.perform op).2 = some peer ∧ peer.state = .accepted ∧
      peer.peerId = peerId := by
  rw [callAdmission] at sent
  rcases performed : s.adm.perform op with ⟨adm, _ | peer⟩
  · simp [performed] at sent
  · refine ⟨peer, rfl, ?_⟩
    rw [performed] at sent
    cases state : peer.state <;> cases connected <;>
      simp_all [onAdmissionChanged, createSession]

end Calls

/-- A frame does nothing but push to the connections of sessions. -/
theorem mem_encodeCaptureToSessions {s : Sender} {capIdx : ℕ} {output : List (List Bytes)}
    {effect : Effect} (sent : effect ∈ s.encodeCaptureToSessions capIdx output) :
    ∃ r ∈ s.sessions, r.wrtc ≠ none ∧ ∃ trackId data, effect = .pushVideo r trackId data := by
  obtain ⟨⟨r, packets⟩, both, pushed⟩ := List.mem_flatMap.mp sent
  refine ⟨r, (List.of_mem_zip both).1, ?_⟩
  simp only [pushPackets] at pushed
  split at pushed
  · rename_i encoder live
    obtain ⟨data, -, rfl⟩ := List.mem_map.mp pushed
    exact ⟨by simp [live], _, data, rfl⟩
  · simp at pushed

/-! ### What an event does -/

/-- The admission call that an event makes. -/
inductive Calls (s : Sender) : Event → Admission.Op → Prop
  | knock {json payload peerId : Bytes} {now : UInt64} {connected : Connected} :
    handleMessage json = some (.requestPending, ⟨some peerId, some payload⟩) →
    Calls s (.message json now connected)
      (.addPending peerId (textBuffer "name" payload) (textBuffer "fingerprint" payload) now)
  | gone {json peerId : Bytes} {payload : Option Bytes} {now : UInt64} {connected : Connected} :
    handleMessage json = some (.peerGone, ⟨some peerId, payload⟩) →
    Calls s (.message json now connected) (.disconnectPeer peerId)
  | accept (peerId : Bytes) (pin : Bool) (connected : Connected) :
    Calls s (.accept peerId pin connected) (.accept peerId pin)
  | reject (peerId : Bytes) : Calls s (.reject peerId) (.reject peerId)
  | disconnect (peerId : Bytes) : Calls s (.disconnectPeer peerId) (.disconnectPeer peerId)
  | revoke : Calls s .revokeToken .revokeAll
  | ends {session : ℕ} {state : WebrtcState} {peerId : Bytes} :
    s.sessions[session]?.map (·.peerId) = some peerId → WebrtcState.isOver state →
    Calls s (.sessionState session state) (.disconnectPeer peerId)

/-- The sessions that a disconnect of this peer leaves alone: those behind the
first one of the peer. -/
def spared (peerId : Bytes) (sessions : List Session) : List Session :=
  (sessions.dropWhile (·.peerId ≠ peerId)).tail

theorem live_releaseFirst {peerId : Bytes} {sessions : List Session} {r : Session}
    (member : r ∈ releaseFirst peerId sessions) (live : r.wrtc ≠ none) :
    r ∈ sessions ∧ (r.peerId = peerId → r ∈ spared peerId sessions) := by
  induction sessions with
  | nil => simp [releaseFirst] at member
  | cons first rest ih =>
    rw [releaseFirst] at member
    by_cases named : first.peerId = peerId
    · rw [if_pos named, List.mem_cons] at member
      obtain rfl | later := member
      · exact absurd rfl live
      · exact ⟨List.mem_cons_of_mem _ later, fun _ => by simpa [spared, named] using later⟩
    · rw [if_neg named, List.mem_cons] at member
      obtain rfl | later := member
      · exact ⟨List.mem_cons_self, fun same => absurd same named⟩
      · obtain ⟨old, behind⟩ := ih later
        exact ⟨List.mem_cons_of_mem _ old, fun same => by simpa [spared, named] using behind same⟩

/-- The event leaves the store and the sessions as they are. -/
structure Idle (s : Sender) (event : Event) : Prop where
  other : ∀ peerId, event ≠ .disconnectPeer peerId
  adm : (s.next event).adm = s.adm
  sessions : (s.next event).sessions = s.sessions
  silent : ∀ peerId, .signal (.accept peerId) ∉ (s.handle event).2

/-- The event does to the store and the sessions what an admission call does that
is made in the state `t`: this one, or the one behind the release that a
disconnect starts with. -/
structure Performs (s : Sender) (event : Event) (op : Admission.Op) (t : Sender)
    (connected : Connected) : Prop where
  calls : s.Calls event op
  store : t.adm = s.adm
  before : t.sessions = s.sessions ∧ (∀ peerId, event ≠ .disconnectPeer peerId) ∨
    ∃ peerId, event = .disconnectPeer peerId ∧ t.sessions = releaseFirst peerId s.sessions
  adm : (s.next event).adm = (t.callAdmission op connected).1.adm
  sessions : (s.next event).sessions = (t.callAdmission op connected).1.sessions
  accepts : ∀ peerId, .signal (.accept peerId) ∈ (s.handle event).2 →
    .signal (.accept peerId) ∈ (t.callAdmission op connected).2

theorem onSignalingEvent_knock (s : Sender) (peerId json : Bytes) (now : UInt64)
    (connected : Connected) :
    s.onSignalingEvent .requestPending ⟨some peerId, some json⟩ now connected =
      let knock := .addPending peerId (textBuffer "name" json) (textBuffer "fingerprint" json) now
      ((s.callAdmission knock connected).1, (s.callAdmission knock connected).2 ++
        [.onPending peerId (textBuffer "name" json) (textBuffer "fingerprint" json)]) := rfl

theorem onSignalingEvent_gone (s : Sender) (peerId : Bytes) (payload : Option Bytes)
    (now : UInt64) (connected : Connected) :
    s.onSignalingEvent .peerGone ⟨some peerId, payload⟩ now connected =
      ((s.callAdmission (.disconnectPeer peerId) connected).1,
        (s.callAdmission (.disconnectPeer peerId) connected).2 ++ [.onPeerGone peerId]) := rfl

/-- Events other than knocks and departures make no admission call. -/
theorem onSignalingEvent_idle (s : Sender) {evt : SignalingEvent} {peerId payload : Option Bytes}
    (now : UInt64) (connected : Connected)
    (noKnock : evt ≠ .requestPending ∨ peerId = none ∨ payload = none)
    (noDeparture : evt ≠ .peerGone ∨ peerId = none) :
    (s.onSignalingEvent evt ⟨peerId, payload⟩ now connected).1.adm = s.adm ∧
      (s.onSignalingEvent evt ⟨peerId, payload⟩ now connected).1.sessions = s.sessions ∧
      ∀ id, .signal (.accept id) ∉
        (s.onSignalingEvent evt ⟨peerId, payload⟩ now connected).2 := by
  rcases evt <;> rcases peerId <;> rcases payload <;> simp_all [onSignalingEvent]
  -- an answer and a candidate are left: they reach a connection or nothing
  all_goals split <;> simp

theorem handle_message_cases (s : Sender) (json : Bytes) (now : UInt64) (connected : Connected) :
    s.Idle (.message json now connected) ∨
      ∃ op t connected', s.Performs (.message json now connected) op t connected' := by
  rcases raised : handleMessage json with _ | ⟨evt, ⟨peerId, payload⟩⟩
  · left
    have ignored : s.handle (.message json now connected) = (s, []) := by
      rw [handle, onMessage, raised]
    exact ⟨by simp, by rw [next, ignored], by rw [next, ignored], by simp [ignored]⟩
  · have handled : s.handle (.message json now connected) =
        { s with sig := s.sig.keepToken (evt, ⟨peerId, payload⟩) }.onSignalingEvent evt
          ⟨peerId, payload⟩ now connected := by
      rw [handle, onMessage, raised]
    obtain ⟨kept, same, adm, sessions⟩ : ∃ kept : Sender,
        kept = { s with sig := s.sig.keepToken (evt, ⟨peerId, payload⟩) } ∧
          kept.adm = s.adm ∧ kept.sessions = s.sessions := ⟨_, rfl, rfl, rfl⟩
    rw [← same] at handled
    -- only a knock and a departure lead to a call of the admission store
    by_cases idle : (evt ≠ .requestPending ∨ peerId = none ∨ payload = none) ∧
        (evt ≠ .peerGone ∨ peerId = none)
    · left
      obtain ⟨sameAdm, sameSessions, silent⟩ :=
        kept.onSignalingEvent_idle now connected idle.1 idle.2
      exact ⟨by simp, by rw [next, handled, sameAdm, adm],
        by rw [next, handled, sameSessions, sessions], by rwa [handled]⟩
    · right
      rw [not_and_or, not_or, not_or, not_or, not_not, not_not] at idle
      rcases idle with ⟨rfl, known, carried⟩ | ⟨rfl, known⟩
      · obtain ⟨peerId, rfl⟩ := Option.ne_none_iff_exists'.mp known
        obtain ⟨payload, rfl⟩ := Option.ne_none_iff_exists'.mp carried
        refine ⟨_, kept, connected, .knock raised, adm, .inl ⟨sessions, by simp⟩, ?_, ?_, ?_⟩
        · rw [next, handled, onSignalingEvent_knock]
        · rw [next, handled, onSignalingEvent_knock]
        · intro accepted sent
          rw [handled, onSignalingEvent_knock] at sent
          simpa using sent
      · obtain ⟨peerId, rfl⟩ := Option.ne_none_iff_exists'.mp known
        refine ⟨_, kept, connected, .gone raised, adm, .inl ⟨sessions, by simp⟩, ?_, ?_, ?_⟩
        · rw [next, handled, onSignalingEvent_gone]
        · rw [next, handled, onSignalingEvent_gone]
        · intro accepted sent
          rw [handled, onSignalingEvent_gone] at sent
          simpa using sent

/-- What one event does. -/
theorem handle_cases (s : Sender) (event : Event) :
    s.Idle event ∨ ∃ op t connected, s.Performs event op t connected := by
  cases event with
  | message json now connected => exact s.handle_message_cases json now connected
  | accept peerId pin connected =>
    exact .inr ⟨_, s, connected, .accept peerId pin connected, rfl, .inl ⟨rfl, by simp⟩, rfl, rfl,
      fun _ => id⟩
  | reject peerId =>
    exact .inr ⟨_, s, none, .reject peerId, rfl, .inl ⟨rfl, by simp⟩, rfl, rfl, fun _ => id⟩
  | disconnectPeer peerId =>
    refine .inr ⟨_, { s with sessions := releaseFirst peerId s.sessions }, none,
      .disconnect peerId, rfl, .inr ⟨peerId, rfl, rfl⟩, rfl, rfl, ?_⟩
    intro accepted sent
    simpa [handle, disconnectPeer] using sent
  | revokeToken =>
    refine .inr ⟨_, s, none, .revoke, rfl, .inl ⟨rfl, by simp⟩, rfl, rfl, ?_⟩
    intro accepted sent
    simpa [handle, revokeToken] using sent
  | localSdp session sdpType sdp =>
    left
    constructor
    all_goals cases place : s.sessions[session]? <;> simp [next, handle, place]
  | localIce session candidate mid mlineIndex =>
    left
    constructor
    all_goals cases place : s.sessions[session]? <;> simp [next, handle, place]
  | sessionState session state =>
    cases place : s.sessions[session]? with
    | none =>
      left
      constructor
      all_goals simp [next, handle, place]
    | some r =>
      -- a connection that is over takes its peer out of the admission store
      by_cases isOver : WebrtcState.isOver state
      · right
        refine ⟨_, s, none, .ends (by rw [place]; rfl) isOver, rfl, .inl ⟨rfl, by simp⟩, ?_, ?_, ?_⟩
        · simp [next, handle, place, sessionState, isOver]
        · simp [next, handle, place, sessionState, isOver]
        · intro accepted sent
          simpa [handle, place, sessionState, isOver] using sent
      · left
        constructor
        all_goals simp [next, handle, place, sessionState, isOver]
  | frame capIdx output =>
    left
    refine ⟨by simp, rfl, rfl, ?_⟩
    intro peerId sent
    obtain ⟨r, -, -, trackId, data, different⟩ := mem_encodeCaptureToSessions sent
    cases different

/-! ### Consequences -/

variable {s : Sender} {event : Event}

/-- The store changes by an event's admission call only. -/
theorem next_adm (s : Sender) (event : Event) :
    (s.next event).adm = s.adm ∨
      ∃ op, s.Calls event op ∧ (s.next event).adm = (s.adm.perform op).1 := by
  obtain idle | ⟨op, t, connected, performs⟩ := s.handle_cases event
  · exact .inl idle.adm
  · refine .inr ⟨op, performs.calls, ?_⟩
    rw [performs.adm, callAdmission_adm, performs.store]

/-- An entry has the texts of one that was there before, or it is the entry of a
knock. -/
theorem entry_next {q : Peer} (member : q ∈ (s.next event).adm.peers) :
    (∃ p ∈ s.adm.peers, q.peerId = p.peerId ∧ q.fingerprint = p.fingerprint) ∨
      ∃ peerId displayName fingerprint now,
        s.Calls event (.addPending peerId displayName fingerprint now) ∧
        q = s.adm.knockedPeer peerId displayName fingerprint now := by
  obtain same | ⟨op, calls, changed⟩ := s.next_adm event
  · rw [same] at member
    exact .inl ⟨q, member, rfl, rfl⟩
  · rw [changed] at member
    obtain ⟨n, entry⟩ := List.mem_iff_getElem?.mp member
    obtain ⟨p, old, changes⟩ | ⟨peerId, displayName, fingerprint, now, rfl, knocked, -⟩ :=
      s.adm.entry_origin op entry
    · exact .inl ⟨p, List.mem_of_getElem? old, changes.texts⟩
    · exact .inr ⟨peerId, displayName, fingerprint, now, calls, knocked⟩

/-- A session with a connection was there before, and no disconnect has released
it, or it has been opened for an accepted entry. -/
theorem live_session {r : Session} (member : r ∈ (s.next event).sessions)
    (live : r.wrtc ≠ none) :
    r ∈ s.sessions ∧ (∀ peerId, event = .disconnectPeer peerId → r.peerId = peerId →
        r ∈ spared peerId s.sessions) ∨
      ∃ peer ∈ (s.next event).adm.peers, peer.state = .accepted ∧
        r.peerId = strncpy 64 peer.peerId := by
  obtain idle | ⟨op, t, connected, performs⟩ := s.handle_cases event
  · rw [idle.sessions] at member
    exact .inl ⟨member, fun peerId same => absurd same (idle.other peerId)⟩
  · have kept (old : r ∈ t.sessions) : r ∈ s.sessions ∧ ∀ peerId,
        event = .disconnectPeer peerId → r.peerId = peerId → r ∈ spared peerId s.sessions := by
      rcases performs.before with ⟨same, other⟩ | ⟨peerId, rfl, released⟩
      · rw [same] at old
        exact ⟨old, fun peerId same => absurd same (other peerId)⟩
      · rw [released] at old
        obtain ⟨earlier, behind⟩ := live_releaseFirst old live
        refine ⟨earlier, fun other same named => ?_⟩
        obtain rfl := Event.disconnectPeer.inj same
        exact behind named
    rw [performs.sessions] at member
    obtain same | ⟨peer, opened, notified, state, named, -, added⟩ :=
      t.callAdmission_sessions op connected
    · rw [same] at member
      exact .inl (kept member)
    · rw [added, List.mem_append, List.mem_singleton] at member
      obtain old | rfl := member
      · exact .inl (kept old)
      · refine .inr ⟨peer, ?_, state, named⟩
        rw [performs.adm, callAdmission_adm]
        exact t.adm.notified_mem notified

/-- An acceptance is sent for accepted entries only. -/
theorem accept_signal {peerId : Bytes}
    (sent : .signal (.accept peerId) ∈ (s.handle event).2) :
    ∃ peer ∈ (s.next event).adm.peers, peer.state = .accepted ∧ peer.peerId = peerId := by
  obtain idle | ⟨op, t, connected, performs⟩ := s.handle_cases event
  · exact absurd sent (idle.silent peerId)
  · obtain ⟨peer, notified, state, named⟩ :=
      accept_mem_callAdmission t op connected (performs.accepts peerId sent)
    refine ⟨peer, ?_, state, named⟩
    rw [performs.adm, callAdmission_adm]
    exact t.adm.notified_mem notified

/-! ### Reading serialised JSON -/

/-- The part of a string that is read up to the first quote of its JSON text. -/
def upToQuote (text : Str) : Bytes := (body text).takeWhile (· != quote)

/-- On serialised JSON the reader finds the first member that it cannot tell from
a string member of that name, and stops at the first quote, escaped or not. -/
theorem textMember_stringify {name : String} (nonempty : bytes name ≠ [])
    (letters : ∀ b ∈ bytes name, b = 95 ∨ 97 ≤ b.toNat ∧ b.toNat ≤ 122) (value : Value) :
    textMember name (utf8 (stringify value)) =
      (firstHit (ofAscii (bytes name)) value).map upToQuote := by
  have reads (body tail : Bytes) (_ : Body body) :
      spanTo quote (body ++ quote :: tail) = some (body.takeWhile (· != quote)) := by
    have within : quote ∈ body ++ quote :: tail := by simp
    rw [spanTo, if_pos within, List.takeWhile_append]
    split_ifs with whole
    · have same : body.takeWhile (· != quote) = body :=
        (List.takeWhile_prefix _).eq_of_length whole
      simp [same]
    · rfl
  have found := strstr_stringify nonempty letters reads value
  have joined (x : Option Bytes) (f : Bytes → Option Bytes) : x.bind f = (x.map f).join := by
    cases x <;> rfl
  rw [textMember, joined, found]
  cases firstHit (ofAscii (bytes name)) value <;> rfl

/-! ### A sample -/

/-- One source, and the defaults. -/
def sampleConfig : SenderConfig where
  sourceName := some (bytes "cam")
  videoSourceNames := []
  audioSourceNames := []
  maxReceivers := 0
  tokenTtlMinutes := 0
  reusableToken := false
  twitchStMode := false

/-- The frame that announces a peer. -/
def pendingFrame (peerId : Bytes) : Bytes :=
  braced (member "type" (bytes "pending") ++ 44 :: member "peer_id" peerId)

end Sender

end Tether.Plugin
