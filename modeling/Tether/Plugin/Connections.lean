import Tether.Plugin.Sender
import Tether.Semantics.Custody

/-!
# The peer connections of a sender

A sender opens a peer connection for an accepted entry, hands it what the receiver answers and
the packets of the video encoders, and releases it on a disconnect, or when the sender itself is
released. A released connection is freed memory, so nothing may reach it afterwards, and none
may be left over.

Audio is left out. Its packets are pushed from a capture callback that belongs to the audio sender
of the session, and a disconnect releases the connection first and the audio sender second, so a
callback in between them is not covered by what is stated here.

## Main definitions

* `Sender.Effect.handling`, `Sender.log` — what the calls of a run do with peer connections
* `Sender.live` — the connections that sessions hold
* `Sender.release` — the end of a sender

## Main results

* `keeps_next` — an event handles the connections that are held, and no others
* `connections_of_run` — over a sender's whole life each connection is opened once, used, and
  released once, as far as signaling and video go
-/

namespace Tether.Plugin.Sender

open Text Semantics

/-- What a call does with a peer connection. -/
def Effect.handling : Effect → Option Handling
  | .negotiate wrtc => some ⟨wrtc, .opens⟩
  | .applyRemoteSdp wrtc _ _ => some ⟨wrtc, .uses⟩
  | .addRemoteIce wrtc _ _ => some ⟨wrtc, .uses⟩
  | .pushVideo r _ _ => r.wrtc.map (⟨·, .uses⟩)
  | .release wrtc => some ⟨wrtc, .closes⟩
  | .signal _ | .onToken _ | .onPending _ _ _ | .onPeerState _ _ | .onPeerGone _ => none

def log (effects : List Effect) : List Handling := effects.filterMap Effect.handling

/-- The connections that sessions hold, in the order of the sessions. -/
def live (sessions : List Session) : List ℕ := sessions.filterMap (·.wrtc)

/-- `tether_sender_release`: every session that still has a connection gives it up. -/
def release (s : Sender) : List Effect := (live s.sessions).map .release

@[simp] theorem log_nil : log [] = [] := rfl

@[simp] theorem log_append (first second : List Effect) :
    log (first ++ second) = log first ++ log second :=
  List.filterMap_append

theorem log_cons (effect : Effect) (rest : List Effect) :
    log (effect :: rest) = effect.handling.toList ++ log rest := by
  cases seen : effect.handling <;> simp [log, seen]

/-- The custody that holds what the sessions hold. -/
structure Follows (c : Custody) (s : Sender) : Prop where
  made : c.made = s.connections
  held : c.held = live s.sessions

/-! ### Releasing one session -/

theorem mem_live {sessions : List Session} {r : Session} {wrtc : ℕ} (member : r ∈ sessions)
    (holds : r.wrtc = some wrtc) : wrtc ∈ live sessions :=
  List.mem_filterMap.mpr ⟨r, member, holds⟩

theorem live_cons (r : Session) (rest : List Session) :
    live (r :: rest) = r.wrtc.toList ++ live rest := by
  cases holds : r.wrtc <;> simp [live, holds]

/-- The peer's first session has no connection to lose, or it loses the one it has. -/
theorem live_releaseFirst_cases {sessions : List Session} (peerId : Bytes)
    (nodup : (live sessions).Nodup) :
    (sessions.find? (·.peerId = peerId)).bind (·.wrtc) = none ∧
        live (releaseFirst peerId sessions) = live sessions ∨
      ∃ wrtc ∈ live sessions, (sessions.find? (·.peerId = peerId)).bind (·.wrtc) = some wrtc ∧
        live (releaseFirst peerId sessions) = (live sessions).erase wrtc := by
  induction sessions with
  | nil => exact .inl ⟨rfl, rfl⟩
  | cons r rest ih =>
    rw [live_cons] at nodup
    by_cases named : r.peerId = peerId
    · cases holds : r.wrtc <;> simp [releaseFirst, named, live_cons, releaseMedia, holds]
    · rw [releaseFirst, if_neg named, live_cons, live_cons,
        List.find?_cons_of_neg (by simpa using named)]
      obtain ⟨nothing, same⟩ | ⟨wrtc, within, found, less⟩ := ih nodup.of_append_right
      · exact .inl ⟨nothing, by rw [same]⟩
      · -- the connection that goes is one of the rest, so it is not the first
        have other : wrtc ∉ r.wrtc.toList := fun own => nodup.disjoint own within
        refine .inr ⟨wrtc, List.mem_append_right _ within, found, ?_⟩
        rw [less, List.erase_append_right _ other]

/-! ### One event -/

variable {c : Custody} {s : Sender}

/-- Calls that reach held connections only. -/
theorem keeps_reaching (follows : Follows c s) {t : Sender} {effects : List Effect}
    (sessions : t.sessions = s.sessions) (connections : t.connections = s.connections)
    (reach : ∀ effect ∈ effects, ∀ entry ∈ effect.handling,
      entry.act = .uses ∧ entry.resource ∈ live s.sessions) :
    ∃ d : Custody, c.Keeps (log effects) d ∧ Follows d t := by
  refine ⟨c, Custody.keeps_uses fun entry member => ?_, ?_, ?_⟩
  · obtain ⟨effect, sent, seen⟩ := List.mem_filterMap.mp member
    rw [follows.held]
    exact reach effect sent entry seen
  · rw [connections]
    exact follows.made
  · rw [sessions]
    exact follows.held

/-- An admission call opens a connection for an accepted entry, or does nothing to them. -/
theorem keeps_callAdmission (follows : Follows c s) (op : Admission.Op) (connected : Connected) :
    ∃ d : Custody, c.Keeps (log (s.callAdmission op connected).2) d ∧
      Follows d (s.callAdmission op connected).1 := by
  rw [callAdmission]
  rcases s.adm.perform op with ⟨adm, _ | peer⟩
  · exact keeps_reaching follows rfl rfl (by simp)
  · cases state : peer.state with
    | accepted =>
      cases connected with
      | none =>
        simp only [onAdmissionChanged, createSession, state]
        exact keeps_reaching follows rfl rfl (by simp [Effect.handling])
      | some trackIds =>
        have entry : c.after ⟨s.connections, .opens⟩ = some c.opened := if_pos follows.made.symm
        refine ⟨c.opened, ?_, ?_, ?_⟩
        · simp [onAdmissionChanged, createSession, state, log_cons, Effect.handling,
            Custody.keeps_cons, entry]
        · simp [onAdmissionChanged, createSession, state, Custody.opened, follows.made]
        · simp [onAdmissionChanged, createSession, state, Custody.opened, follows.made,
            follows.held, live, newSession]
    | _ =>
      simp only [onAdmissionChanged, state]
      exact keeps_reaching follows rfl rfl (by simp [Effect.handling])

/-- A signaling event reaches the connection of the peer's first session, or opens one. -/
theorem keeps_onSignalingEvent (follows : Follows c s) (evt : SignalingEvent) (msg : Msg)
    (now : UInt64) (connected : Connected) :
    ∃ d : Custody, c.Keeps (log (s.onSignalingEvent evt msg now connected).2) d ∧
      Follows d (s.onSignalingEvent evt msg now connected).1 := by
  have held {peerId : Bytes} {wrtc : ℕ} (found : (s.findSession peerId).bind (·.wrtc) = some wrtc) :
      wrtc ∈ live s.sessions := by
    obtain ⟨r, found, holds⟩ := Option.bind_eq_some_iff.mp found
    exact mem_live (List.mem_of_find?_eq_some found) holds
  -- what is told behind an admission call handles no connection
  have calls {op : Admission.Op} {t : Sender} {effects told : List Effect}
      (called : s.callAdmission op connected = (t, effects)) (silent : log told = []) :
      ∃ d : Custody, c.Keeps (log (effects ++ told)) d ∧ Follows d t := by
    rw [log_append, silent, List.append_nil]
    simpa [called] using keeps_callAdmission follows op connected
  fun_cases onSignalingEvent s evt msg now connected
  case case1 => exact keeps_reaching follows rfl rfl (by simp [Effect.handling])
  case case2 called => exact calls called (by rfl)
  case case3 found => exact keeps_reaching follows rfl rfl (by simp [Effect.handling, held found])
  case case5 found => exact keeps_reaching follows rfl rfl (by simp [Effect.handling, held found])
  case case7 called => exact calls called (by rfl)
  all_goals exact keeps_reaching follows rfl rfl (by simp)

theorem keeps_disconnectPeer (follows : Follows c s) (peerId : Bytes) :
    ∃ d : Custody, c.Keeps (log (s.disconnectPeer peerId).2) d ∧
      Follows d (s.disconnectPeer peerId).1 := by
  obtain ⟨d, released, behind⟩ : ∃ d : Custody,
      c.Keeps (log (((s.findSession peerId).bind (·.wrtc)).toList.map .release)) d ∧
        Follows d { s with sessions := releaseFirst peerId s.sessions } := by
    have nodup : (live s.sessions).Nodup := by
      rw [← follows.held]
      exact c.nodup
    obtain ⟨nothing, same⟩ | ⟨wrtc, within, found, less⟩ :=
      live_releaseFirst_cases peerId nodup
    · rw [findSession, nothing]
      exact ⟨c, Custody.keeps_nil.mpr rfl, follows.made, by rw [follows.held, same]⟩
    · have entry : c.after ⟨wrtc, .closes⟩ = some (c.closed wrtc) :=
        if_pos (by rwa [follows.held])
      rw [findSession, found]
      refine ⟨c.closed wrtc, ?_, follows.made, ?_⟩
      · simp [log, Effect.handling, Custody.keeps_cons, entry]
      · rw [less, ← follows.held]
        rfl
  obtain ⟨e, kept, follows⟩ := keeps_callAdmission behind (.disconnectPeer peerId) none
  refine ⟨e, ?_, follows⟩
  simpa [disconnectPeer, log_cons, Effect.handling] using released.trans kept

theorem keeps_sessionState (follows : Follows c s) (r : Session) (state : WebrtcState) :
    ∃ d : Custody, c.Keeps (log (s.sessionState r state).2) d ∧
      Follows d (s.sessionState r state).1 := by
  rw [sessionState]
  split
  · simpa [log_cons, Effect.handling] using
      keeps_callAdmission follows (.disconnectPeer r.peerId) none
  · exact keeps_reaching follows rfl rfl (by simp [Effect.handling])

/-- An event handles the connections that are held, and no others. -/
theorem keeps_next (follows : Follows c s) (event : Event) :
    ∃ d : Custody, c.Keeps (log (s.handle event).2) d ∧ Follows d (s.next event) := by
  cases event with
  | message json now connected =>
    rw [next, handle, onMessage]
    cases handleMessage json with
    | none => exact keeps_reaching follows rfl rfl (by simp)
    | some raised =>
      have kept : Follows c { s with sig := s.sig.keepToken raised } :=
        ⟨follows.made, follows.held⟩
      exact keeps_onSignalingEvent kept raised.1 raised.2 now connected
  | accept peerId pin connected => exact keeps_callAdmission follows (.accept peerId pin) connected
  | reject peerId => exact keeps_callAdmission follows (.reject peerId) none
  | disconnectPeer peerId => exact keeps_disconnectPeer follows peerId
  | revokeToken =>
    simpa [next, handle, revokeToken, log_cons, Effect.handling] using
      keeps_callAdmission follows .revokeAll none
  | localSdp session sdpType sdp =>
    rw [next, handle]
    split <;> exact keeps_reaching follows rfl rfl (by simp [Effect.handling])
  | localIce session candidate mid mlineIndex =>
    rw [next, handle]
    split <;> exact keeps_reaching follows rfl rfl (by simp [Effect.handling])
  | sessionState session state =>
    rw [next, handle]
    split
    · exact keeps_reaching follows rfl rfl (by simp)
    · exact keeps_sessionState follows _ state
  | frame capIdx output =>
    refine keeps_reaching follows rfl rfl fun effect sent entry seen => ?_
    obtain ⟨r, member, holds, trackId, data, rfl⟩ := mem_encodeCaptureToSessions sent
    obtain ⟨wrtc, holds⟩ := Option.ne_none_iff_exists'.mp holds
    obtain rfl : ⟨wrtc, .uses⟩ = entry := by simpa [Effect.handling, holds] using seen
    exact ⟨rfl, mem_live member holds⟩

/-! ### The whole life -/

/-- Everything that is done with peer connections in a run, the release behind it included. -/
def handledIn (fresh : Sender) (events : List Event) : List Handling :=
  log (outputs next (fun s event => (s.handle event).2) fresh events) ++
    log (fresh.after events).release

/-- What is handled in a run leads to the custody of its last state. -/
theorem keeps_run {cfg : SenderConfig} {fresh : Sender} (created : create cfg = some fresh)
    (events : List Event) :
    ∃ c : Custody, Custody.empty.Keeps
        (log (outputs next (fun s event => (s.handle event).2) fresh events)) c ∧
      Follows c (fresh.after events) := by
  induction events using List.reverseRecOn with
  | nil =>
    have none : fresh.connections = 0 := by
      rw [create] at created
      split at created
      · simp at created
      · obtain rfl := Option.some.inj created
        rfl
    refine ⟨.empty, Custody.keeps_nil.mpr rfl, none.symm, ?_⟩
    rw [after, run_nil, (empty_of_create created).2]
    rfl
  | append_singleton before event ih =>
    obtain ⟨c, kept, follows⟩ := ih
    obtain ⟨d, more, follows⟩ := keeps_next follows event
    rw [outputs_concat, log_append, after_concat]
    exact ⟨d, kept.trans more, follows⟩

/-- A peer is let in, answers, and is disconnected; another one stays until the end. -/
def answeredRun : List Event :=
  [.message (pendingFrame (bytes "p1")) 0 none, .message (pendingFrame (bytes "p2")) 0 none,
    .accept (bytes "p1") false (some [1]), .accept (bytes "p2") false (some [1]),
    .message (braced (member "type" (bytes "sdp") ++ 44 :: member "peer_id" (bytes "p1") ++
      44 :: member "sdp" (bytes "v=0"))) 0 none, .disconnectPeer (bytes "p1")]

end Tether.Plugin.Sender
