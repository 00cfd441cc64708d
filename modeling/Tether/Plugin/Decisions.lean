import Mathlib.Data.List.Nodup
import Tether.Plugin.MediaGate

/-!
# What the sender tells the room

Every event of the sender makes at most one admission call. Here each call is described
by what it makes of one identifier, and each event by the calls of the signaling client
that it leaves behind.

## Main definitions

* `Admission.Distinct` — no two entries have the same identifier
* `Sender.signals` — the signaling calls among the effects
* `Sender.verdict`, `Sender.farewell` — the calls that follow an admission call

## Main results

* `Admission.accepts_setPeerState` — who is accepted when an entry has been set
* `Sender.speaks` — what an event does to the store and says to the room
-/

namespace Tether.Plugin

open Text Semantics

namespace Admission

/-! ### Identifiers -/

/-- No two entries have the same identifier. -/
def Distinct (adm : Admission) : Prop := (adm.peers.map (·.peerId)).Nodup

/-- There is an entry of this identifier. -/
def Lists (adm : Admission) (peerId : Bytes) : Prop := ∃ p ∈ adm.peers, p.peerId = peerId

instance (adm : Admission) (peerId : Bytes) : Decidable (adm.Lists peerId) :=
  inferInstanceAs (Decidable (∃ p ∈ adm.peers, _))

section Set

variable {adm : Admission} {peerId id : Bytes}

theorem findPeer_eq_none : adm.findPeer peerId = none ↔ ¬ adm.Lists peerId := by
  simp [findPeer, Lists]

theorem updateFirst_of_absent {peers : List Peer} (absent : ∀ p ∈ peers, p.peerId ≠ peerId)
    (f : Peer → Peer) : updateFirst peerId f peers = peers := by
  induction peers with
  | nil => rfl
  | cons p rest ih =>
    rw [updateFirst, if_neg (absent p List.mem_cons_self),
      ih fun q member => absent q (List.mem_cons_of_mem _ member)]

/-- With distinct identifiers the first entry is the only one. -/
theorem updateFirst_eq_map {peers : List Peer} (distinct : (peers.map (·.peerId)).Nodup)
    (f : Peer → Peer) :
    updateFirst peerId f peers = peers.map fun p => if p.peerId = peerId then f p else p := by
  induction peers with
  | nil => rfl
  | cons p rest ih =>
    rw [List.map_cons, List.nodup_cons] at distinct
    rw [updateFirst, List.map_cons]
    by_cases named : p.peerId = peerId
    · have absent : ∀ q ∈ rest, q.peerId ≠ peerId := by
        intro q member same
        exact distinct.1 (List.mem_map.mpr ⟨q, member, same.trans named.symm⟩)
      rw [if_pos named, if_pos named, ← ih distinct.2, updateFirst_of_absent absent]
    · rw [if_neg named, if_neg named, ih distinct.2]

/-- The identifiers stay as they are. -/
theorem map_peerId_setPeerState (newState : PeerState) (pin : Bool) :
    (adm.setPeerState peerId newState pin).1.peers.map (·.peerId) = adm.peers.map (·.peerId) := by
  rcases adm.setPeerState_cases peerId newState pin with ⟨-, same⟩ | ⟨p, -, changed⟩
  · rw [same]
  · rw [changed]
    generalize adm.peers = peers
    induction peers with
    | nil => rfl
    | cons p rest ih =>
      simp only [updateFirst]
      split_ifs
      · rfl
      · rw [List.map_cons, ih, List.map_cons]

/-- Who is accepted when an entry has been set. -/
theorem accepts_setPeerState (distinct : adm.Distinct) (newState : PeerState) (pin : Bool) :
    (adm.setPeerState peerId newState pin).1.Accepts id ↔
      if id = peerId then newState = .accepted ∧ adm.Lists peerId else adm.Accepts id := by
  rcases adm.setPeerState_cases peerId newState pin with ⟨absent, same⟩ | ⟨p, found, changed⟩
  · rw [same]
    have unlisted := findPeer_eq_none.mp absent
    split_ifs with here
    · subst here
      refine iff_of_false (fun ⟨p, member, named, _⟩ => unlisted ⟨p, member, named⟩) ?_
      exact fun both => unlisted both.2
    · rfl
  · have listed : adm.Lists peerId := by
      by_contra unlisted
      rw [findPeer_eq_none.mpr unlisted] at found
      cases found
    rw [changed]
    simp only [Accepts, updateFirst_eq_map distinct, List.mem_map]
    constructor
    · rintro ⟨q, ⟨r, member, rfl⟩, named, state⟩
      by_cases here : r.peerId = peerId
      · rw [if_pos here] at named state
        rw [if_pos (named.symm.trans here)]
        exact ⟨state, listed⟩
      · rw [if_neg here] at named state
        rw [if_neg (named ▸ here)]
        exact ⟨r, member, named, state⟩
    · split_ifs with here
      · -- the entry that is set, and then those that are not
        rintro ⟨rfl, r, member, named⟩
        exact ⟨_, ⟨r, member, if_pos named⟩, named.trans here.symm, rfl⟩
      · rintro ⟨r, member, named, state⟩
        exact ⟨r, ⟨r, member, if_neg (named ▸ here)⟩, named, state⟩

/-- Without an entry there is nothing to set. -/
theorem setPeerState_of_absent (absent : ¬ adm.Lists peerId) (newState : PeerState) (pin : Bool) :
    (adm.setPeerState peerId newState pin).1 = adm := by
  rw [setPeerState, findPeer_eq_none.mpr absent]

/-- Nobody is accepted after a revoke. -/
theorem not_accepts_revokeAll : ¬ adm.revokeAll.Accepts id := by
  rintro ⟨q, member, -, state⟩
  obtain ⟨p, -, rfl⟩ := List.mem_map.mp member
  cases state

end Set

end Admission

namespace Sender

/-! ### Signals -/

/-- The signaling calls among the effects. -/
def signals (effects : List Effect) : List Signal :=
  effects.filterMap fun effect => match effect with
    | .signal call => some call
    | _ => none

@[simp] theorem signals_nil : signals [] = [] := rfl

@[simp] theorem signals_append (first second : List Effect) :
    signals (first ++ second) = signals first ++ signals second := List.filterMap_append

/-- What the sender says when an entry has been changed. -/
def verdict : Option Peer → List Signal
  | none => []
  | some peer =>
    match peer.state with
    | .accepted => [.accept peer.peerId]
    | .rejected | .revoked => [.reject peer.peerId]
    | .pending | .disconnected => []

/-- What it says besides. -/
def farewell : Event → List Signal
  | .disconnectPeer peerId => [.reject peerId]
  | .revokeToken => [.revokeToken]
  | _ => []

/-- What follows when the state of an entry is set. -/
theorem verdict_setPeerState (adm : Admission) (peerId : Bytes) (newState : PeerState)
    (pin : Bool) :
    verdict (adm.setPeerState peerId newState pin).2 =
      if adm.Lists peerId then
        match newState with
        | .accepted => [.accept peerId]
        | .rejected | .revoked => [.reject peerId]
        | .pending | .disconnected => []
      else [] := by
  rcases adm.setPeerState_cases peerId newState pin with ⟨absent, same⟩ | ⟨p, found, changed⟩
  · rw [same, if_neg (Admission.findPeer_eq_none.mp absent)]
    rfl
  · have named : p.peerId = peerId := by simpa using List.find?_some found
    have listed : adm.Lists peerId := ⟨p, List.mem_of_find?_eq_some found, named⟩
    rw [changed, if_pos listed]
    cases newState <;> simp [verdict, Peer.set, named]

/-- A disconnect is not spoken of. -/
theorem verdict_disconnect (adm : Admission) (peerId : Bytes) :
    verdict (adm.perform (.disconnectPeer peerId)).2 = [] :=
  (verdict_setPeerState adm peerId .disconnected false).trans (ite_self _)

/-- A knock that is let in at once is told so. -/
theorem verdict_knocked (adm : Admission) {peerId : Bytes} (fits : peerId.length < 64)
    (displayName fingerprint : Bytes) (now : UInt64) :
    verdict (some (adm.knockedPeer peerId displayName fingerprint now)) =
      if (adm.knockedPeer peerId displayName fingerprint now).state = .accepted then
        [.accept peerId]
      else [] := by
  have whole : strncpy 64 peerId = peerId := strncpy_of_lt fits
  rw [Admission.knockedPeer]
  by_cases meets : (adm.cfg.autoAcceptPinned && adm.pinMatches fingerprint) = true
  · simp only [if_pos meets, verdict, Admission.newPeer, whole, if_true]
  · simp only [if_neg meets, verdict, Admission.newPeer, reduceCtorEq, if_false]

theorem signals_callAdmission (s : Sender) (op : Admission.Op) (connected : Connected) :
    signals (s.callAdmission op connected).2 = verdict (s.adm.perform op).2 := by
  rw [callAdmission]
  -- the room is told whether or not the connection could be created
  rcases s.adm.perform op with ⟨adm, _ | peer⟩
  · rfl
  · cases state : peer.state <;> cases connected <;>
      simp [onAdmissionChanged, createSession, signals, verdict, state]

/-- The call is one of the exchange of descriptions and candidates. -/
def IsExchange : Signal → Prop
  | .sendSdp .. | .sendIce .. => True
  | _ => False

/-- Events other than knocks and departures say nothing. -/
theorem signals_onSignalingEvent (s : Sender) {evt : SignalingEvent} {peerId payload : Option Bytes}
    (now : UInt64) (connected : Connected)
    (noKnock : evt ≠ .requestPending ∨ peerId = none ∨ payload = none)
    (noDeparture : evt ≠ .peerGone ∨ peerId = none) :
    signals (s.onSignalingEvent evt ⟨peerId, payload⟩ now connected).2 = [] := by
  rcases evt <;> rcases peerId <;> rcases payload <;> simp_all [onSignalingEvent, signals]
  -- an answer and a candidate are left
  all_goals split <;> simp

section Message

variable (s : Sender) {json : Bytes} (now : UInt64) (connected : Connected)

/-- A frame is handed on by a sender that may have kept a new token. -/
theorem handle_of_raised {evt : SignalingEvent} {msg : Msg}
    (raised : handleMessage json = some (evt, msg)) :
    ∃ kept : Sender, kept.adm = s.adm ∧
      s.handle (.message json now connected) = kept.onSignalingEvent evt msg now connected := by
  refine ⟨{ s with sig := s.sig.keepToken (evt, msg) }, rfl, ?_⟩
  rw [handle, onMessage, raised]

theorem speaks_knock {peerId payload : Bytes}
    (raised : handleMessage json = some (.requestPending, ⟨some peerId, some payload⟩)) :
    let knock :=
      .addPending peerId (textBuffer "name" payload) (textBuffer "fingerprint" payload) now
    (s.next (.message json now connected)).adm = (s.adm.perform knock).1 ∧
      signals (s.handle (.message json now connected)).2 = verdict (s.adm.perform knock).2 := by
  obtain ⟨kept, adm, handled⟩ := s.handle_of_raised now connected raised
  rw [next, handled, onSignalingEvent_knock, ← adm, signals_append, signals_callAdmission]
  exact ⟨kept.callAdmission_adm _ _, List.append_nil _⟩

theorem speaks_gone {peerId : Bytes} {payload : Option Bytes}
    (raised : handleMessage json = some (.peerGone, ⟨some peerId, payload⟩)) :
    (s.next (.message json now connected)).adm = (s.adm.perform (.disconnectPeer peerId)).1 ∧
      signals (s.handle (.message json now connected)).2 =
        verdict (s.adm.perform (.disconnectPeer peerId)).2 := by
  obtain ⟨kept, adm, handled⟩ := s.handle_of_raised now connected raised
  rw [next, handled, onSignalingEvent_gone, ← adm, signals_append, signals_callAdmission]
  exact ⟨kept.callAdmission_adm _ _, List.append_nil _⟩

/-- Frames other than knocks and departures leave the store alone. -/
theorem speaks_silent
    (noKnock : ∀ peerId payload,
      handleMessage json ≠ some (.requestPending, ⟨some peerId, some payload⟩))
    (noDeparture : ∀ peerId payload,
      handleMessage json ≠ some (.peerGone, ⟨some peerId, payload⟩)) :
    (s.next (.message json now connected)).adm = s.adm ∧
      signals (s.handle (.message json now connected)).2 = [] := by
  rcases raised : handleMessage json with _ | ⟨evt, ⟨peerId, payload⟩⟩
  · have ignored : s.handle (.message json now connected) = (s, []) := by
      rw [handle, onMessage, raised]
    rw [next, ignored]
    exact ⟨rfl, rfl⟩
  · obtain ⟨kept, adm, handled⟩ := s.handle_of_raised now connected raised
    rw [raised] at noKnock noDeparture
    have knock : evt ≠ .requestPending ∨ peerId = none ∨ payload = none := by
      rcases peerId <;> rcases payload <;> simp_all
    have departure : evt ≠ .peerGone ∨ peerId = none := by
      rcases peerId <;> simp_all
    rw [next, handled, ← adm]
    exact ⟨(kept.onSignalingEvent_idle now connected knock departure).1,
      kept.signals_onSignalingEvent now connected knock departure⟩

end Message

/-- What an event does to the store, and says to the room. -/
theorem speaks (s : Sender) (event : Event) :
    (s.next event).adm = s.adm ∧ (∀ call ∈ signals (s.handle event).2, IsExchange call) ∨
      ∃ op, s.Calls event op ∧ (s.next event).adm = (s.adm.perform op).1 ∧
        signals (s.handle event).2 = verdict (s.adm.perform op).2 ++ farewell event := by
  cases event with
  | message json now connected =>
    by_cases knock : ∃ peerId payload,
        handleMessage json = some (.requestPending, ⟨some peerId, some payload⟩)
    · obtain ⟨peerId, payload, raised⟩ := knock
      obtain ⟨changed, said⟩ := s.speaks_knock now connected raised
      exact .inr ⟨_, .knock raised, changed, said.trans (List.append_nil _).symm⟩
    by_cases departure : ∃ peerId payload,
        handleMessage json = some (.peerGone, ⟨some peerId, payload⟩)
    · obtain ⟨peerId, payload, raised⟩ := departure
      obtain ⟨changed, said⟩ := s.speaks_gone now connected raised
      exact .inr ⟨_, .gone raised, changed, said.trans (List.append_nil _).symm⟩
    push Not at knock departure
    obtain ⟨same, silent⟩ := s.speaks_silent now connected knock departure
    exact .inl ⟨same, by simp [silent]⟩
  | accept peerId pin connected =>
    refine .inr ⟨_, .accept peerId pin connected, s.callAdmission_adm _ _, ?_⟩
    exact (s.signals_callAdmission _ connected).trans (List.append_nil _).symm
  | reject peerId =>
    refine .inr ⟨_, .reject peerId, s.callAdmission_adm _ _, ?_⟩
    exact (s.signals_callAdmission _ none).trans (List.append_nil _).symm
  | disconnectPeer peerId =>
    -- the session is released first, and the room hears last
    let released : Sender := { s with sessions := releaseFirst peerId s.sessions }
    refine .inr ⟨_, .disconnect peerId, released.callAdmission_adm _ _, ?_⟩
    have media :
        signals (((s.findSession peerId).bind (·.wrtc)).toList.map Effect.release) = [] := by
      cases (s.findSession peerId).bind (·.wrtc) <;> rfl
    have said := released.signals_callAdmission (.disconnectPeer peerId) none
    simp only [handle, disconnectPeer, signals_append, media, List.nil_append]
    rw [said]
    rfl
  | revokeToken =>
    refine .inr ⟨_, .revoke, s.callAdmission_adm .revokeAll none, ?_⟩
    simp only [handle, revokeToken, signals_append, signals_callAdmission]
    rfl
  | localSdp session sdpType sdp =>
    left
    cases place : s.sessions[session]? <;> simp [next, handle, place, signals, IsExchange]
  | localIce session candidate mid mlineIndex =>
    left
    cases place : s.sessions[session]? <;> simp [next, handle, place, signals, IsExchange]
  | sessionState session state =>
    cases place : s.sessions[session]? with
    | none => exact .inl (by simp [next, handle, place])
    | some r =>
      -- the store learns that the connection has ended, and the room does not
      by_cases isOver : WebrtcState.isOver state
      · refine .inr ⟨_, .ends (by rw [place]; rfl) isOver, ?_, ?_⟩
        · simp only [next, handle, place, sessionState, if_pos isOver]
          exact s.callAdmission_adm _ _
        · simp only [handle, place, sessionState, if_pos isOver, farewell, List.append_nil]
          exact s.signals_callAdmission _ _
      · exact .inl (by simp [next, handle, place, sessionState, isOver, signals])
  | frame capIdx output =>
    refine .inl ⟨rfl, fun call said => ?_⟩
    obtain ⟨effect, sent, shape⟩ := List.mem_filterMap.mp said
    -- what a frame comes to is media
    obtain ⟨r, -, -, trackId, data, rfl⟩ := mem_encodeCaptureToSessions sent
    cases shape

end Sender

end Tether.Plugin
