import Tether.Plugin.Sender

/-!
# Who gets media

Frames go to the sessions that have a connection. The admission store does not
know the sessions, and only a disconnect releases one, so the two agree as long
as a peer has no connection left when its entry stops being accepted.

## Main definitions

* `Admission.Accepts` — the store has an accepted entry of this peer
* `Sender.TearsDown` — an event does not take an acceptance away from a peer
  that keeps a connection

## Main results

* `media_only_to_accepted` — if every event tears down, connections and frames
  are for accepted peers
* `rejected_peer_gets_media` — a reject leaves the connection as it is
-/

namespace Tether.Plugin

open Text Semantics

/-- The peer is currently accepted. -/
def Admission.Accepts (adm : Admission) (peerId : Bytes) : Prop :=
  ∃ p ∈ adm.peers, p.peerId = peerId ∧ p.state = .accepted

instance (adm : Admission) (peerId : Bytes) : Decidable (adm.Accepts peerId) :=
  inferInstanceAs (Decidable (∃ p ∈ adm.peers, _ ∧ _))

namespace Sender

/-- A session of this peer has a connection. -/
def HasConnection (s : Sender) (peerId : Bytes) : Prop :=
  ∃ r ∈ s.sessions, r.peerId = peerId ∧ r.wrtc ≠ none

instance (s : Sender) (peerId : Bytes) : Decidable (s.HasConnection peerId) :=
  inferInstanceAs (Decidable (∃ r ∈ s.sessions, _ ∧ _))

/-- The peer whose entry an event closes without a look at its sessions. -/
def leaver (s : Sender) : Event → Option Bytes
  | .message json _ _ =>
    match handleMessage json with
    | some (.peerGone, msg) => msg.peerId
    | _ => none
  | .reject peerId => some peerId
  | .sessionState session state =>
    if WebrtcState.isOver state then s.sessions[session]?.map (·.peerId) else none
  | _ => none

/-- The event does not take an acceptance away from a peer that keeps a
connection. A disconnect releases the first session of its peer, so there must
be no second one with a connection. -/
def TearsDown (s : Sender) : Event → Prop
  | .disconnectPeer peerId =>
    ∀ r ∈ spared peerId s.sessions, r.peerId = peerId → r.wrtc = none
  | .revokeToken => ∀ r ∈ s.sessions, r.wrtc = none
  | event => ∀ peerId ∈ s.leaver event, ¬ s.HasConnection peerId

instance (s : Sender) (event : Event) : Decidable (s.TearsDown event) := by
  cases event <;> exact inferInstanceAs (Decidable (∀ _ ∈ _, _))

/-! ### The invariant -/

/-- The sessions agree with the store. -/
structure Gated (s : Sender) : Prop where
  short : ∀ p ∈ s.adm.peers, p.peerId.length < 64
  accepted : ∀ r ∈ s.sessions, r.wrtc ≠ none → s.adm.Accepts r.peerId

/-- Identifiers fit their buffer. -/
theorem short_next {s : Sender} (short : ∀ p ∈ s.adm.peers, p.peerId.length < 64)
    (event : Event) : ∀ p ∈ (s.next event).adm.peers, p.peerId.length < 64 := by
  intro q member
  obtain ⟨p, old, named, -⟩ | ⟨peerId, _, _, _, -, rfl⟩ := entry_next member
  · rw [named]
    exact short p old
  · rw [Admission.knockedPeer_peerId]
    exact strncpy_length_lt (by decide) peerId

/-- An accepted entry stays accepted, if a connection hangs on it and the event
tears down. -/
theorem accepts_next {s : Sender} {event : Event} (tearsDown : s.TearsDown event) {r : Session}
    (member : r ∈ s.sessions) (live : r.wrtc ≠ none)
    (spares : ∀ peerId, event = .disconnectPeer peerId → r.peerId = peerId →
      r ∈ spared peerId s.sessions)
    (accepts : s.adm.Accepts r.peerId) : (s.next event).adm.Accepts r.peerId := by
  obtain ⟨p, entry, named, state⟩ := accepts
  have connection : s.HasConnection p.peerId := ⟨r, member, named.symm, live⟩
  obtain same | ⟨op, calls, changed⟩ := s.next_adm event
  · exact ⟨p, by rwa [same], named, state⟩
  obtain ⟨n, place⟩ := List.mem_iff_getElem?.mp entry
  obtain ⟨q, after, changes⟩ := s.adm.entry_kept op place
  have kept : q ∈ (s.next event).adm.peers := changed ▸ List.mem_of_getElem? after
  -- the call that closes an entry is made by an event that the condition is about
  cases changes with
  | kept => exact ⟨p, kept, named, state⟩
  | accepted pin => exact ⟨_, kept, named, rfl⟩
  | rejected =>
    cases calls with
    | reject => exact absurd connection (tearsDown p.peerId rfl)
  | disconnected =>
    cases calls with
    | gone raised => exact absurd connection (tearsDown p.peerId (by simp [leaver, raised]))
    | disconnect =>
      exact absurd (tearsDown r (spares p.peerId rfl named.symm) named.symm) live
    | ends place isOver =>
      exact absurd connection (tearsDown p.peerId (by rw [leaver, if_pos isOver, place]; rfl))
  | revoked =>
    cases calls with
    | revoke => exact absurd (tearsDown r member) live

/-- An event that tears down keeps sessions and store in agreement. -/
theorem gated_next {s : Sender} {event : Event} (gated : s.Gated)
    (tearsDown : s.TearsDown event) : (s.next event).Gated := by
  have short := short_next gated.short event
  refine ⟨short, fun r member live => ?_⟩
  obtain ⟨old, spares⟩ | ⟨peer, entry, state, named⟩ := live_session member live
  · exact accepts_next tearsDown old live spares (gated.accepted r old live)
  · rw [strncpy_of_lt (short peer entry)] at named
    exact ⟨peer, entry, named.symm, state⟩

theorem gated_create {cfg : SenderConfig} {fresh : Sender} (created : create cfg = some fresh) :
    fresh.Gated := by
  obtain ⟨peers, sessions⟩ := empty_of_create created
  exact ⟨by simp [peers], by simp [sessions]⟩

/-! ### Frames -/

/-- In every run whose events all tear down, every connection belongs to a peer
that is currently accepted, and so does every connection that a frame is pushed
to. -/
theorem media_only_to_accepted {cfg : SenderConfig} {fresh : Sender}
    (created : create cfg = some fresh) (events : List Event)
    (tearDown : EveryStep (fun before event => (fresh.after before).TearsDown event) events) :
    (∀ r ∈ (fresh.after events).sessions, r.wrtc ≠ none →
        (fresh.after events).adm.Accepts r.peerId) ∧
      ∀ capIdx output r trackId data,
        .pushVideo r trackId data ∈ fresh.effectsAt events (.frame capIdx output) →
          (fresh.after events).adm.Accepts r.peerId := by
  have gated : (fresh.after events).Gated := by
    refine guarded_induction (fun events => (fresh.after events).Gated) ?_ ?_ events tearDown
    · exact gated_create created
    · intro before event invariant tearsDown
      rw [after_concat]
      exact gated_next invariant tearsDown
  refine ⟨gated.accepted, fun capIdx output r trackId data pushed => ?_⟩
  obtain ⟨other, member, live, _, _, same⟩ := mem_encodeCaptureToSessions pushed
  obtain ⟨rfl, -, -⟩ := Effect.pushVideo.inj same
  exact gated.accepted r member live

/-- A receiver knocks, is accepted, disconnected and accepted again. -/
def resumedRun : List Event :=
  [.message (pendingFrame (bytes "p1")) 0 none, .accept (bytes "p1") false (some [1]),
    .disconnectPeer (bytes "p1"), .accept (bytes "p1") false (some [1])]

/-- The first session of the sample's receiver is released, the second one gets
the frame, and the receiver is accepted. -/
theorem media_only_to_accepted_resumed : ∃ fresh, create sampleConfig = some fresh ∧
    ∃ r trackId data,
      .pushVideo r trackId data ∈ fresh.effectsAt resumedRun (.frame 0 [[[1]], [[2]]]) ∧
        (fresh.after resumedRun).adm.Accepts r.peerId := by
  have created : create sampleConfig = some _ := rfl
  have pushed : .pushVideo ⟨bytes "p1", some 1, some [], [⟨1, bytes "video0"⟩]⟩ 1 [2] ∈
      ((create sampleConfig).map fun fresh =>
        fresh.effectsAt resumedRun (.frame 0 [[[1]], [[2]]])).getD [] := by
    decide +kernel
  refine ⟨_, created, _, _, _, pushed, ?_⟩
  exact (media_only_to_accepted created resumedRun (by decide +kernel)).2 _ _ _ _ _ pushed

/-! ### A reject while media flows -/

/-- A receiver knocks, is accepted and then rejected. -/
def rejectedRun : List Event :=
  [.message (pendingFrame (bytes "p1")) 0 none, .accept (bytes "p1") false (some [1]),
    .reject (bytes "p1")]

/-- The next frame still goes to the rejected peer's connection: a reject does
not look at the sessions. -/
theorem rejected_peer_gets_media : ∃ fresh, create sampleConfig = some fresh ∧
    (∃ r trackId data, r.peerId = bytes "p1" ∧ r.wrtc ≠ none ∧
      .pushVideo r trackId data ∈ fresh.effectsAt rejectedRun (.frame 0 [[[1]]])) ∧
    ¬ (fresh.after rejectedRun).adm.Accepts (bytes "p1") := by
  refine ⟨_, rfl, ?_, by decide +kernel⟩
  refine ⟨⟨bytes "p1", some 0, some [], [⟨1, bytes "video0"⟩]⟩, 1, [1], rfl, by simp, ?_⟩
  decide +kernel

end Sender

end Tether.Plugin
