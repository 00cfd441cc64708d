import Tether.Plugin.Sender
import Tether.Semantics.Locks

/-!
# The locks of the plugin

The plugin runs on threads of OBS, of libdatachannel and of its own. What they share is guarded
by mutexes, and some calls wait for others to return: a connection is deleted when its callbacks
have returned, a callback is removed from OBS when it does not run, a thread is joined when it
has ended. Whoever waits like this asks for what the other one has until it returns, just as for
a mutex. Of every function this module keeps what it takes and what it gives back, for each
path through it.

Everything else that a thread may wait for is taken to come: the signal of a condition, what is
read from the network or a socket, and the locks that OBS and the libraries have of their own.

## Main definitions

* `PluginLock`, `PluginLock.rank` — what is waited for, and the order in which it is taken
* `Locking.Activity` — what the threads do
* `Locking.Activity.locks` — what they take and give back

## Main results

* `inOrder_activity` — every activity takes what it takes in the order of the ranks
* `never_stuck` — no lock is had twice, one thread always gets on, and all of them can finish
-/

namespace Tether.Plugin

open Semantics Worker

/-- What a thread may wait for. Objects are told apart by numbers. -/
inductive PluginLock
  /-- `g_lock` of the receive sessions -/
  | registry
  /-- `lock` of a receive session -/
  | session (s : ℕ)
  /-- `g_lock` of the known tokens -/
  | knownTokens
  /-- `lock` of a sender -/
  | sender (s : ℕ)
  /-- `frame_lock` of a sender -/
  | frame (s : ℕ)
  /-- `lock` of a sender's admission store -/
  | admission (s : ℕ)
  /-- `lock` of a signaling connection -/
  | signaling (c : ℕ)
  /-- `lock` of a peer connection -/
  | webrtc (w : ℕ)
  /-- `lock` of an audio sender -/
  | audioSender (a : ℕ)
  /-- `lock` of a track of it -/
  | senderTrack (t : ℕ)
  /-- `lock` of an audio receiver -/
  | audioReceiver (r : ℕ)
  /-- `decoder_lock` of a source -/
  | decoder (d : ℕ)
  /-- `lock` of the control plane -/
  | control
  /-- The thread of the control plane, until it ends. -/
  | controlThread
  /-- The encoder thread of a sender, until it ends. -/
  | worker (s : ℕ)
  /-- The graphics context of OBS. -/
  | graphics
  /-- The lock under which OBS calls its render callbacks. -/
  | renderCallbacks
  /-- The lock under which OBS calls the audio callbacks of a source. -/
  | audioCallbacks (source : ℕ)
  /-- A callback of a peer connection, until it returns. -/
  | peerCallback (w k : ℕ)
  /-- A callback of a signaling connection, until it returns. -/
  | socketCallback (c k : ℕ)
  deriving DecidableEq

/-- Locks are taken in the order of these numbers. -/
def PluginLock.rank : PluginLock → ℕ
  | .controlThread => 0
  | .registry | .worker _ | .graphics | .socketCallback _ _ => 1
  | .sender _ | .renderCallbacks => 2
  | .peerCallback _ _ => 3
  | .audioCallbacks _ => 4
  | _ => 5

namespace Locking

/-- A part of a thread. -/
abbrev Part := List (LockAct PluginLock)

/-- What is done under a lock, and takes no other one. -/
def guarded (lock : PluginLock) : Part := within lock []

/-- A wait until callbacks have returned. -/
def await (callbacks : List PluginLock) : Part := callbacks.flatMap guarded

/-! ### Connections -/

/-- `tether_webrtc_release`: `rtcDeletePeerConnection` waits for the callbacks in flight. -/
def webrtcRelease (w : ℕ) (inFlight : List ℕ) : Part := await (inFlight.map (.peerCallback w ·))

/-- `tether_webrtc_add_video_track_ex`, `tether_webrtc_add_audio_track` -/
def addTrack (w : ℕ) (added : Bool) : Part := if added then guarded (.webrtc w) else []

/-- `on_local_description`; sending the description takes no lock. -/
def onLocalDescription (w : ℕ) (fingerprint : Bool) : Part :=
  if fingerprint then guarded (.webrtc w) else []

/-- `on_track` -/
def onTrack (w : ℕ) : Part := guarded (.webrtc w)

/-- `on_track_message`, and what the packet is handed to. -/
def onTrackMessage (w : ℕ) (binary : Bool) (handed : Part) : Part :=
  if binary then guarded (.webrtc w) ++ handed else []

/-- `handle_message`, which keeps a token, and the event it raises. -/
def handleMessage (c : ℕ) (token : Bool) (event : Part) : Part :=
  (if token then guarded (.signaling c) else []) ++ event

/-- `tether_signaling_release`: `rtcDelete` waits for the callbacks in flight. -/
def signalingRelease (c : ℕ) (inFlight : List ℕ) : Part :=
  await (inFlight.map (.socketCallback c ·))

/-! ### Audio -/

/-- `on_audio_capture`; pushing a packet takes no lock. -/
def onAudioCapture (t : ℕ) (audible : Bool) : Part :=
  if audible then guarded (.senderTrack t) else []

/-- OBS calls the audio callbacks of a source. -/
def signalAudio (source : ℕ) (captures : List (ℕ × Bool)) : Part :=
  within (.audioCallbacks source) (captures.flatMap fun (t, audible) => onAudioCapture t audible)

/-- What `tether_audio_sender_attach` meets. -/
structure Attachment where
  source : ℕ
  found : Bool
  added : Bool
  encoder : Bool

def audioSenderAttach (w a : ℕ) (x : Attachment) : Part :=
  if !x.found then []
  else
    addTrack w x.added ++
      if x.added && x.encoder then guarded (.audioCallbacks x.source) ++ guarded (.audioSender a)
      else []

/-- `tether_audio_sender_detach` -/
def audioSenderDetach (a source : ℕ) (found : Bool) : Part :=
  guarded (.audioSender a) ++ if found then guarded (.audioCallbacks source) else []

/-- `tether_audio_sender_release` -/
def audioSenderRelease (sources : List ℕ) : Part := await (sources.map .audioCallbacks)

/-- An audio receiver that a packet is handed to: whether it wants it, and the source that what
is decoded goes to, with the callbacks there. -/
structure Listener where
  r : ℕ
  wanted : Bool
  output : Option (ℕ × List (ℕ × Bool))

/-- `tether_audio_receiver_push_packet`; `obs_source_output_audio` calls the audio callbacks. -/
def audioPushPacket (x : Listener) : Part :=
  if x.wanted then
    guarded (.audioReceiver x.r) ++
      (x.output.map fun (source, captures) => signalAudio source captures).getD []
  else []

/-! ### The sender -/

/-- A callback of a sender: the control plane takes its lock, the dialog posts an event. -/
def told (plane : Bool) : Part := if plane then guarded .control else []

/-- What `create_session` meets. -/
structure NewSession where
  created : Bool
  w : ℕ
  a : ℕ
  videos : List Bool
  audios : List Attachment

def createSession (s : ℕ) (n : NewSession) : Part :=
  if !n.created then []
  else n.videos.flatMap (addTrack n.w) ++ n.audios.flatMap (audioSenderAttach n.w n.a) ++
    guarded (.sender s)

def onAdmissionChanged (s : ℕ) (plane : Bool) (state : PeerState) (n : NewSession) : Part :=
  match state with
  | .accepted => createSession s n
  | .rejected | .revoked => told plane
  | .pending | .disconnected => []

/-- `tether_admission_add_pending`, `tether_admission_accept` and the like: the callback comes
when the lock has been given back. -/
def admissionCall (s : ℕ) (plane : Bool) (notified : Option PeerState) (n : NewSession) : Part :=
  guarded (.admission s) ++ (notified.map fun state => onAdmissionChanged s plane state n).getD []

/-- `tether_admission_disconnect_peer`, whose callback finds nothing to do. -/
def admissionDisconnect (s : ℕ) (plane found : Bool) : Part :=
  admissionCall s plane (if found then some .disconnected else none) ⟨false, 0, 0, [], []⟩

/-- A signaling event of a sender. -/
inductive SenderEvent
  | tokenIssued
  | requestPending (notified : Option PeerState) (n : NewSession)
  | sdpAnswer
  | iceCandidate
  | peerGone (found : Bool)
  | other

def onSignalingEvent (s : ℕ) (plane : Bool) : SenderEvent → Part
  | .tokenIssued => told plane
  | .requestPending notified n => admissionCall s plane notified n ++ told plane
  -- the description and the candidate are applied under the lock
  | .sdpAnswer | .iceCandidate => guarded (.sender s)
  | .peerGone found => admissionDisconnect s plane found ++ told plane
  | .other => []

def sessionState (s : ℕ) (plane isOver found : Bool) : Part :=
  told plane ++ if isOver then admissionDisconnect s plane found else []

/-- `graphics_render_cb`, for which frames are copied. -/
def graphicsRenderCb (s : ℕ) (copied : List Bool) : Part :=
  copied.flatMap fun frame => if frame then guarded (.frame s) else []

/-- `encode_capture_to_sessions`; pushing a packet takes no lock. -/
def encodeCaptureToSessions (s : ℕ) : Part := guarded (.sender s)

/-- A round of `encoder_worker_main`: `frame_lock` is given up in every wait for `frame_cond`,
whose signal is taken to come, and for every frame that is encoded. -/
def encoderRound (s waits frames : ℕ) : Part :=
  (List.replicate waits (guarded (.frame s))).flatten ++ guarded (.frame s) ++
    (List.replicate frames (encodeCaptureToSessions s ++ guarded (.frame s))).flatten

/-- What `release_session` finds. -/
structure OldSession where
  audio : Option (List ℕ)
  wrtc : Option (ℕ × List ℕ)

def OldSession.audioPart (r : OldSession) : Part := (r.audio.map audioSenderRelease).getD []

def OldSession.wrtcPart (r : OldSession) : Part :=
  (r.wrtc.map fun (w, inFlight) => webrtcRelease w inFlight).getD []

def releaseSession (r : OldSession) : Part := r.audioPart ++ r.wrtcPart

/-- `tether_sender_create`, which adds the render callback. -/
def senderCreate : Part := guarded .renderCallbacks

/-- `tether_sender_release`: the callback is removed, the worker is told to end and joined, the
sessions and the signaling connection are released, and the surfaces of the captures freed. -/
def senderRelease (s c : ℕ) (sessions : List OldSession) (inFlight : List ℕ) : Part :=
  guarded .renderCallbacks ++ guarded (.frame s) ++ guarded (.worker s) ++
    within (.sender s) (sessions.flatMap releaseSession) ++ signalingRelease c inFlight ++
      guarded .graphics

/-- `tether_sender_disconnect_peer` -/
def senderDisconnectPeer (s : ℕ) (plane : Bool) (session : Option OldSession) (found : Bool) :
    Part :=
  within (.sender s) ((session.map fun r => r.wrtcPart ++ r.audioPart).getD []) ++
    admissionDisconnect s plane found ++ told plane

/-! ### Receive sessions -/

/-- `set_state` of a session; what subscribers do then takes no lock. -/
def setState (s : ℕ) (changes : Bool) : Part := if changes then guarded (.session s) else []

/-- `on_session_video` of a source. -/
def onSessionVideo (d : ℕ) (wanted : Bool) : Part := if wanted then guarded (.decoder d) else []

/-- `wrtc_video_cb`, for the subscribers of the snapshot. -/
def wrtcVideoCb (s : ℕ) (subscribers : List (ℕ × Bool)) : Part :=
  guarded (.session s) ++ subscribers.flatMap fun (d, wanted) => onSessionVideo d wanted

/-- `wrtc_audio_cb` -/
def wrtcAudioCb (s : ℕ) (subscribers : List Listener) : Part :=
  guarded (.session s) ++ subscribers.flatMap audioPushPacket

/-- What `session_create_locked` comes to. -/
inductive SessionCreation
  | refused
  /-- No signaling object: the peer connection is released again. -/
  | noSignaling (w : ℕ) (inFlight : List ℕ)
  | created (s : ℕ) (changes : Bool)

def sessionCreateLocked : SessionCreation → Part
  | .refused => []
  | .noSignaling w inFlight => webrtcRelease w inFlight
  | .created s changes => setState s changes

/-- `tether_receive_session_get`, which creates a session under `g_lock`. -/
def sessionGet (creation : Option SessionCreation) : Part :=
  within .registry ((creation.map sessionCreateLocked).getD [])

/-- What `session_destroy` finds. -/
structure OldReceiveSession where
  c : ℕ
  w : ℕ
  socketInFlight : List ℕ
  peerInFlight : List ℕ

def sessionDestroy (x : OldReceiveSession) : Part :=
  signalingRelease x.c x.socketInFlight ++ webrtcRelease x.w x.peerInFlight

/-- `tether_receive_session_release`, which destroys outside of `g_lock`. -/
def sessionRelease (last : Option OldReceiveSession) : Part :=
  guarded .registry ++ (last.map sessionDestroy).getD []

def sessionSubscribe (s : ℕ) : Part := guarded (.session s) ++ guarded .registry

def sessionUnsubscribe (s : ℕ) (last : Option OldReceiveSession) : Part :=
  guarded (.session s) ++ sessionRelease last

/-- `tether_receive_session_enumerate`, with what the callback does to a session. -/
def sessionEnumerate (sessions : List (Part × Option OldReceiveSession)) : Part :=
  guarded .registry ++ sessions.flatMap fun (callback, last) => callback ++ sessionRelease last

/-- `tether_receive_session_shutdown` -/
def sessionShutdown (doomed : List OldReceiveSession) : Part :=
  guarded .registry ++ doomed.flatMap sessionDestroy

/-! ### Threads -/

/-- A call from a thread that has no lock of the plugin: from the user interface, from OBS, or
from the control plane's own thread. -/
inductive Call
  | senderCreate
  | senderRelease (s c : ℕ) (sessions : List OldSession) (inFlight : List ℕ)
  | admission (s : ℕ) (plane : Bool) (notified : Option PeerState) (n : NewSession)
  | senderDisconnectPeer (s : ℕ) (plane : Bool) (session : Option OldSession) (found : Bool)
  | audioDetach (a source : ℕ) (found : Bool)
  | localFingerprint (w : ℕ)
  | sessionGet (creation : Option SessionCreation)
  | sessionRelease (last : Option OldReceiveSession)
  | sessionSubscribe (s : ℕ)
  | sessionUnsubscribe (s : ℕ) (last : Option OldReceiveSession)
  /-- `tether_receive_session_video_mids`, `…_audio_mids`, `…_get_stats` -/
  | sessionLook (s : ℕ)
  /-- The control plane's callback takes no lock. -/
  | sessionEnumerate (sessions : List (Option OldReceiveSession))
  /-- `tether_receive_session_init` -/
  | sessionInit
  | sessionShutdown (doomed : List OldReceiveSession)
  /-- Every function of `known-tokens.c` -/
  | knownTokens
  /-- `release_video_decoder`, in `destroy` of a source -/
  | decoderRelease (d : ℕ)
  /-- What a command does to the control plane's own data. -/
  | control

def Call.locks : Call → Part
  | .senderCreate => Locking.senderCreate
  | .senderRelease s c sessions inFlight => Locking.senderRelease s c sessions inFlight
  | .admission s plane notified n => admissionCall s plane notified n
  | .senderDisconnectPeer s plane session found =>
    Locking.senderDisconnectPeer s plane session found
  | .audioDetach a source found => audioSenderDetach a source found
  | .localFingerprint w => guarded (.webrtc w)
  | .sessionGet creation => Locking.sessionGet creation
  | .sessionRelease last => Locking.sessionRelease last
  | .sessionSubscribe s => Locking.sessionSubscribe s
  | .sessionUnsubscribe s last => Locking.sessionUnsubscribe s last
  | .sessionLook s => guarded (.session s)
  | .sessionEnumerate sessions => Locking.sessionEnumerate (sessions.map fun last => ([], last))
  | .sessionInit => guarded .registry
  | .sessionShutdown doomed => Locking.sessionShutdown doomed
  | .knownTokens => guarded .knownTokens
  | .decoderRelease d => guarded (.decoder d)
  | .control => guarded .control

/-- A callback of a peer connection. -/
inductive PeerCallback
  | localDescription (fingerprint : Bool)
  | localCandidate
  | track
  | videoMessage (binary : Bool) (s : ℕ) (subscribers : List (ℕ × Bool))
  | audioMessage (binary : Bool) (s : ℕ) (subscribers : List Listener)
  /-- `session_state` of a sender -/
  | senderState (s : ℕ) (plane isOver found : Bool)
  /-- `wrtc_state_cb` of a receive session -/
  | receiverState (s : ℕ) (changes : Bool)

def PeerCallback.locks (w : ℕ) : PeerCallback → Part
  | .localDescription fingerprint => onLocalDescription w fingerprint
  | .localCandidate => []
  | .track => onTrack w
  | .videoMessage binary s subscribers => onTrackMessage w binary (wrtcVideoCb s subscribers)
  | .audioMessage binary s subscribers => onTrackMessage w binary (wrtcAudioCb s subscribers)
  | .senderState s plane isOver found => sessionState s plane isOver found
  | .receiverState s changes => setState s changes

/-- A callback of a signaling connection. -/
inductive SocketCallback
  /-- `on_open`, `on_closed`, `on_error` -/
  | stateChanged
  | senderMessage (s : ℕ) (plane token : Bool) (event : SenderEvent)
  /-- `signaling_event` of a receive session; applying a description takes no lock. -/
  | receiverMessage (s : ℕ) (token changes : Bool)

def SocketCallback.locks (c : ℕ) : SocketCallback → Part
  | .stateChanged => []
  | .senderMessage s plane token event => handleMessage c token (onSignalingEvent s plane event)
  | .receiverMessage s token changes => handleMessage c token (setState s changes)

/-- What a thread does. -/
inductive Activity
  | calls (made : List Call)
  /-- The thread of the control plane, and the calls of its commands. Clients are taken to come
  and to send something. -/
  | control (made : List Call)
  /-- OBS renders, with its graphics context. -/
  | render (senders : List (ℕ × List Bool))
  | encoder (s : ℕ) (rounds : List (ℕ × ℕ))
  | audio (source : ℕ) (captures : List (ℕ × Bool))
  | peer (w k : ℕ) (callback : PeerCallback)
  | socket (c k : ℕ) (callback : SocketCallback)
  /-- `tether_control_shutdown`, which joins the control plane's thread. -/
  | controlShutdown (made : List Call)

def Activity.locks : Activity → Part
  | .calls made => made.flatMap Call.locks
  | .control made => within .controlThread (made.flatMap Call.locks)
  | .render senders => within .graphics (within .renderCallbacks
      (senders.flatMap fun (s, copied) => graphicsRenderCb s copied))
  | .encoder s rounds => within (.worker s) (rounds.flatMap fun (waits, frames) =>
      encoderRound s waits frames)
  | .audio source captures => signalAudio source captures
  | .peer w k callback => within (.peerCallback w k) (callback.locks w)
  | .socket c k callback => within (.socketCallback c k) (callback.locks c)
  | .controlShutdown made => guarded .controlThread ++ made.flatMap Call.locks

/-! ### The order of the locks -/

section Order

variable {n : ℕ}

/-- Locks of these ranks only, in their order. -/
abbrev InOrder (n : ℕ) (part : Part) : Prop := Above PluginLock.rank n part

theorem inOrder_guarded {lock : PluginLock} (le : n ≤ lock.rank) : InOrder n (guarded lock) :=
  (Above.nil _).within le

theorem inOrder_await {callbacks : List PluginLock} (le : ∀ lock ∈ callbacks, n ≤ lock.rank) :
    InOrder n (await callbacks) :=
  .flatMap fun lock member => inOrder_guarded (le lock member)

theorem inOrder_ite {first second : Part} (b : Bool) (inOrder : InOrder n first)
    (other : InOrder n second) : InOrder n (if b then first else second) := by
  split
  · exact inOrder
  · exact other

theorem inOrder_getD {ι : Type*} {f : ι → Part} (x : Option ι) (inOrder : ∀ i, InOrder n (f i)) :
    InOrder n ((x.map f).getD []) := by
  cases x with
  | none => exact .nil n
  | some i => exact inOrder i

theorem inOrder_replicate {part : Part} (count : ℕ) (inOrder : InOrder n part) :
    InOrder n (List.replicate count part).flatten := by
  have all : InOrder n ((List.replicate count part).flatMap id) :=
    .flatMap fun other member => by rwa [List.eq_of_mem_replicate member]
  rwa [List.flatMap_id] at all

/-! #### Connections -/

theorem inOrder_webrtcRelease (w : ℕ) (inFlight : List ℕ) :
    InOrder 3 (webrtcRelease w inFlight) := by
  apply inOrder_await
  intro lock member
  obtain ⟨k, -, rfl⟩ := List.mem_map.mp member
  exact Nat.le_refl 3

theorem inOrder_signalingRelease (c : ℕ) (inFlight : List ℕ) :
    InOrder 1 (signalingRelease c inFlight) := by
  apply inOrder_await
  intro lock member
  obtain ⟨k, -, rfl⟩ := List.mem_map.mp member
  exact Nat.le_refl 1

theorem inOrder_addTrack (w : ℕ) (added : Bool) : InOrder 5 (addTrack w added) :=
  inOrder_ite added (inOrder_guarded (Nat.le_refl 5)) (.nil 5)

theorem inOrder_onTrackMessage (w : ℕ) (binary : Bool) {handed : Part}
    (inOrder : InOrder 4 handed) : InOrder 4 (onTrackMessage w binary handed) :=
  inOrder_ite binary ((inOrder_guarded (show 4 ≤ 5 by decide)).append inOrder) (.nil 4)

theorem inOrder_handleMessage (c : ℕ) (token : Bool) {event : Part} (inOrder : InOrder 2 event) :
    InOrder 2 (handleMessage c token event) :=
  (inOrder_ite token (inOrder_guarded (show 2 ≤ 5 by decide)) (.nil 2)).append inOrder

/-! #### Audio -/

theorem inOrder_audioSenderAttach (w a : ℕ) (x : Attachment) :
    InOrder 3 (audioSenderAttach w a x) := by
  refine inOrder_ite _ (.nil 3) (.append ?_ ?_)
  · exact (inOrder_addTrack w x.added).mono (by decide)
  · refine inOrder_ite _ (.append ?_ ?_) (.nil 3)
    · exact inOrder_guarded (show 3 ≤ 4 by decide)
    · exact inOrder_guarded (show 3 ≤ 5 by decide)

theorem inOrder_audioSenderDetach (a source : ℕ) (found : Bool) :
    InOrder 3 (audioSenderDetach a source found) :=
  (inOrder_guarded (show 3 ≤ 5 by decide)).append
    (inOrder_ite found (inOrder_guarded (show 3 ≤ 4 by decide)) (.nil 3))

theorem inOrder_audioSenderRelease (sources : List ℕ) : InOrder 3 (audioSenderRelease sources) := by
  apply inOrder_await
  intro lock member
  obtain ⟨source, -, rfl⟩ := List.mem_map.mp member
  exact show 3 ≤ 4 by decide

theorem inOrder_signalAudio (source : ℕ) (captures : List (ℕ × Bool)) :
    InOrder 4 (signalAudio source captures) := by
  have part : InOrder 5 (captures.flatMap fun (t, audible) => onAudioCapture t audible) :=
    .flatMap fun (t, audible) _ =>
      inOrder_ite audible (inOrder_guarded (Nat.le_refl 5)) (.nil 5)
  exact part.within (Nat.le_refl 4)

theorem inOrder_audioPushPacket (x : Listener) : InOrder 4 (audioPushPacket x) :=
  inOrder_ite x.wanted
    ((inOrder_guarded (show 4 ≤ 5 by decide)).append
      (inOrder_getD x.output fun (source, captures) => inOrder_signalAudio source captures))
    (.nil 4)

/-! #### The sender -/

theorem inOrder_told (plane : Bool) : InOrder 5 (told plane) :=
  inOrder_ite plane (inOrder_guarded (Nat.le_refl 5)) (.nil 5)

theorem inOrder_createSession (s : ℕ) (x : NewSession) : InOrder 2 (createSession s x) := by
  refine inOrder_ite _ (.nil 2) (.append (.append (.flatMap ?_) (.flatMap ?_)) ?_)
  · exact fun added _ => (inOrder_addTrack x.w added).mono (by decide)
  · exact fun attachment _ => (inOrder_audioSenderAttach x.w x.a attachment).mono (by decide)
  · exact inOrder_guarded (Nat.le_refl 2)

theorem inOrder_admissionCall (s : ℕ) (plane : Bool) (notified : Option PeerState)
    (x : NewSession) : InOrder 2 (admissionCall s plane notified x) := by
  refine (inOrder_guarded (show 2 ≤ 5 by decide)).append (inOrder_getD notified fun state => ?_)
  cases state with
  | accepted => exact inOrder_createSession s x
  | rejected | revoked => exact (inOrder_told plane).mono (by decide)
  | pending | disconnected => exact .nil 2

/-- A disconnected entry leads to no session. -/
theorem inOrder_admissionDisconnect (s : ℕ) (plane found : Bool) :
    InOrder 5 (admissionDisconnect s plane found) := by
  refine (inOrder_guarded (Nat.le_refl 5)).append ?_
  cases found <;> exact .nil 5

theorem inOrder_onSignalingEvent (s : ℕ) (plane : Bool) (event : SenderEvent) :
    InOrder 2 (onSignalingEvent s plane event) := by
  have tells : InOrder 2 (told plane) := (inOrder_told plane).mono (by decide)
  cases event with
  | tokenIssued => exact tells
  | requestPending notified x => exact (inOrder_admissionCall s plane notified x).append tells
  | sdpAnswer | iceCandidate => exact inOrder_guarded (Nat.le_refl 2)
  | peerGone found =>
    exact ((inOrder_admissionDisconnect s plane found).mono (by decide)).append tells
  | other => exact .nil 2

theorem inOrder_sessionState (s : ℕ) (plane isOver found : Bool) :
    InOrder 5 (sessionState s plane isOver found) :=
  (inOrder_told plane).append
    (inOrder_ite isOver (inOrder_admissionDisconnect s plane found) (.nil 5))

theorem inOrder_encoderRound (s waits frames : ℕ) : InOrder 2 (encoderRound s waits frames) := by
  have frame : InOrder 2 (guarded (.frame s)) := inOrder_guarded (show 2 ≤ 5 by decide)
  have encode : InOrder 2 (encodeCaptureToSessions s) := inOrder_guarded (Nat.le_refl 2)
  exact ((inOrder_replicate waits frame).append frame).append
    (inOrder_replicate frames (encode.append frame))

theorem inOrder_audioPart (r : OldSession) : InOrder 3 r.audioPart :=
  inOrder_getD r.audio inOrder_audioSenderRelease

theorem inOrder_wrtcPart (r : OldSession) : InOrder 3 r.wrtcPart :=
  inOrder_getD r.wrtc fun (w, inFlight) => inOrder_webrtcRelease w inFlight

theorem inOrder_senderRelease (s c : ℕ) (sessions : List OldSession) (inFlight : List ℕ) :
    InOrder 1 (senderRelease s c sessions inFlight) := by
  have session : ∀ r ∈ sessions, InOrder 3 (releaseSession r) := fun r _ =>
    (inOrder_audioPart r).append (inOrder_wrtcPart r)
  refine .append (.append (.append (.append (.append ?_ ?_) ?_) ?_)
    (inOrder_signalingRelease c inFlight)) (inOrder_guarded (Nat.le_refl 1))
  · exact inOrder_guarded (show 1 ≤ 2 by decide)
  · exact inOrder_guarded (show 1 ≤ 5 by decide)
  · exact inOrder_guarded (Nat.le_refl 1)
  · exact (Above.flatMap session).within (show 1 ≤ 2 by decide)

theorem inOrder_senderDisconnectPeer (s : ℕ) (plane : Bool) (session : Option OldSession)
    (found : Bool) : InOrder 2 (senderDisconnectPeer s plane session found) := by
  refine .append (.append ?_ ?_) ?_
  · have part : InOrder 3 ((session.map fun r => r.wrtcPart ++ r.audioPart).getD []) :=
      inOrder_getD session fun r => (inOrder_wrtcPart r).append (inOrder_audioPart r)
    exact part.within (Nat.le_refl 2)
  · exact (inOrder_admissionDisconnect s plane found).mono (by decide)
  · exact (inOrder_told plane).mono (by decide)

/-! #### Receive sessions -/

theorem inOrder_setState (s : ℕ) (changes : Bool) : InOrder 5 (setState s changes) :=
  inOrder_ite changes (inOrder_guarded (Nat.le_refl 5)) (.nil 5)

theorem inOrder_wrtcVideoCb (s : ℕ) (subscribers : List (ℕ × Bool)) :
    InOrder 5 (wrtcVideoCb s subscribers) :=
  (inOrder_guarded (Nat.le_refl 5)).append (.flatMap fun (_, wanted) _ =>
    inOrder_ite wanted (inOrder_guarded (Nat.le_refl 5)) (.nil 5))

theorem inOrder_wrtcAudioCb (s : ℕ) (subscribers : List Listener) :
    InOrder 4 (wrtcAudioCb s subscribers) :=
  (inOrder_guarded (show 4 ≤ 5 by decide)).append
    (.flatMap fun x _ => inOrder_audioPushPacket x)

theorem inOrder_sessionGet (creation : Option SessionCreation) :
    InOrder 1 (sessionGet creation) := by
  have part : InOrder 2 ((creation.map sessionCreateLocked).getD []) := by
    refine inOrder_getD creation fun creation => ?_
    cases creation with
    | refused => exact .nil 2
    | noSignaling w inFlight => exact (inOrder_webrtcRelease w inFlight).mono (by decide)
    | created s changes => exact (inOrder_setState s changes).mono (by decide)
  exact part.within (Nat.le_refl 1)

theorem inOrder_sessionDestroy (x : OldReceiveSession) : InOrder 1 (sessionDestroy x) :=
  (inOrder_signalingRelease x.c x.socketInFlight).append
    ((inOrder_webrtcRelease x.w x.peerInFlight).mono (by decide))

theorem inOrder_sessionRelease (last : Option OldReceiveSession) :
    InOrder 1 (sessionRelease last) :=
  (inOrder_guarded (Nat.le_refl 1)).append (inOrder_getD last inOrder_sessionDestroy)

/-! #### Threads -/

theorem inOrder_call (call : Call) : InOrder 1 call.locks := by
  have registry : InOrder 1 (guarded .registry) := inOrder_guarded (Nat.le_refl 1)
  have leaf {lock : PluginLock} (top : lock.rank = 5) : InOrder 1 (guarded lock) :=
    inOrder_guarded (by omega)
  cases call with
  | senderCreate => exact inOrder_guarded (show 1 ≤ 2 by decide)
  | senderRelease s c sessions inFlight => exact inOrder_senderRelease s c sessions inFlight
  | admission s plane notified x =>
    exact (inOrder_admissionCall s plane notified x).mono (by decide)
  | senderDisconnectPeer s plane session found =>
    exact (inOrder_senderDisconnectPeer s plane session found).mono (by decide)
  | audioDetach a source found => exact (inOrder_audioSenderDetach a source found).mono (by decide)
  | sessionGet creation => exact inOrder_sessionGet creation
  | sessionRelease last => exact inOrder_sessionRelease last
  | sessionSubscribe s => exact (leaf rfl).append registry
  | sessionUnsubscribe s last => exact (leaf rfl).append (inOrder_sessionRelease last)
  | sessionEnumerate sessions =>
    refine registry.append (.flatMap fun (callback, last) member => ?_)
    obtain ⟨last', -, same⟩ := List.mem_map.mp member
    obtain ⟨rfl, rfl⟩ := Prod.mk.inj same
    exact (Above.nil 1).append (inOrder_sessionRelease last')
  | sessionInit => exact registry
  | sessionShutdown doomed =>
    exact registry.append (.flatMap fun x _ => inOrder_sessionDestroy x)
  | localFingerprint w => exact leaf rfl
  | sessionLook s => exact leaf rfl
  | knownTokens => exact leaf rfl
  | decoderRelease d => exact leaf rfl
  | control => exact leaf rfl

theorem inOrder_peerCallback (w : ℕ) (callback : PeerCallback) :
    InOrder 4 (callback.locks w) := by
  cases callback with
  | localDescription fingerprint => exact (inOrder_addTrack w fingerprint).mono (by decide)
  | localCandidate => exact .nil 4
  | track => exact inOrder_guarded (show 4 ≤ 5 by decide)
  | videoMessage binary s subscribers =>
    exact inOrder_onTrackMessage w binary ((inOrder_wrtcVideoCb s subscribers).mono (by decide))
  | audioMessage binary s subscribers =>
    exact inOrder_onTrackMessage w binary (inOrder_wrtcAudioCb s subscribers)
  | senderState s plane isOver found =>
    exact (inOrder_sessionState s plane isOver found).mono (by decide)
  | receiverState s changes => exact (inOrder_setState s changes).mono (by decide)

theorem inOrder_socketCallback (c : ℕ) (callback : SocketCallback) :
    InOrder 2 (callback.locks c) := by
  cases callback with
  | stateChanged => exact .nil 2
  | senderMessage s plane token event =>
    exact inOrder_handleMessage c token (inOrder_onSignalingEvent s plane event)
  | receiverMessage s token changes =>
    exact inOrder_handleMessage c token ((inOrder_setState s changes).mono (by decide))

/-- Every thread takes its locks in the order of their ranks. -/
theorem inOrder_activity (activity : Activity) : InOrder 0 activity.locks := by
  have calls (made : List Call) : InOrder 1 (made.flatMap Call.locks) :=
    .flatMap fun call _ => inOrder_call call
  cases activity with
  | calls made => exact (calls made).mono (by decide)
  | control made => exact (calls made).within (Nat.le_refl 0)
  | render senders =>
    have part : InOrder 3 (senders.flatMap fun (s, copied) => graphicsRenderCb s copied) :=
      .flatMap fun (s, copied) _ => .flatMap fun frame _ =>
        inOrder_ite frame (inOrder_guarded (show 3 ≤ 5 by decide)) (.nil 3)
    have called : InOrder 2 (within .renderCallbacks
        (senders.flatMap fun (s, copied) => graphicsRenderCb s copied)) :=
      part.within (Nat.le_refl 2)
    exact called.within (show 0 ≤ 1 by decide)
  | encoder s rounds =>
    have part : InOrder 2 (rounds.flatMap fun (waits, frames) => encoderRound s waits frames) :=
      .flatMap fun (waits, frames) _ => inOrder_encoderRound s waits frames
    exact part.within (show 0 ≤ 1 by decide)
  | audio source captures => exact (inOrder_signalAudio source captures).mono (by decide)
  | peer w k callback => exact (inOrder_peerCallback w callback).within (show 0 ≤ 3 by decide)
  | socket c k callback => exact (inOrder_socketCallback c callback).within (show 0 ≤ 1 by decide)
  | controlShutdown made =>
    exact (inOrder_guarded (Nat.le_refl 0)).append ((calls made).mono (by decide))

end Order

/-- Whatever the threads do, and in whatever order they get on: no two of them ever have one
lock, one of them gets on as long as there is something to do, and all of them can finish. -/
theorem never_stuck (activities : List Activity) (schedule : List ℕ) :
    let now := run Worker.turn ((activities.map Activity.locks).map Worker.start) schedule
    (Worker.taken now).Nodup ∧
      (¬Worker.Finished now → ∃ t ∈ now, Worker.canMove now t = true) ∧
      ∃ more, Worker.Finished (run Worker.turn now more) := by
  intro now
  have parts : ∀ part ∈ activities.map Activity.locks, InOrder 0 part := by
    intro part member
    obtain ⟨activity, -, rfl⟩ := List.mem_map.mp member
    exact inOrder_activity activity
  have sound := (Worker.sound_start parts).run schedule
  exact ⟨sound.exclusive, sound.exists_canMove, sound.exists_finish⟩

end Locking

end Tether.Plugin
