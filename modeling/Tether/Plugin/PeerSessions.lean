import Tether.Plugin.Sender
import Tether.Semantics.Lookup

/-!
# One session for each peer

Sessions are appended whenever an entry is accepted, they stay in the list when
they are released, and they are looked up by the first match. So a peer has one
live session, and the one that is found, exactly as long as no acceptance opens
a session for a peer that has had one.

## Main definitions

* `Sender.opened` — the peer that an event opens a session for
* `Sender.OnePerPeer` — no second live session, and lookups find the live one
* `Sender.AnswersReach` — what a peer answers reaches the connection that has
  sent it an offer

## Main results

* `sessions_next` — an event opens a session, releases one, or leaves them alone
* `one_session_iff` — both properties hold along a run if and only if every
  session that it opens is the first one of its peer
* `accepted_twice` — two live sessions of one peer
-/

namespace Tether.Plugin.Sender

open Text Semantics

/-! ### What opens a session -/

/-- The peer that an admission call opens a session for: its entry is accepted,
and the connection has been created. -/
def openedBy (s : Sender) (op : Admission.Op) : Connected → Option Bytes
  | none => none
  | some _ => ((s.adm.perform op).2.filter (·.state = .accepted)).map (strncpy 64 ·.peerId)

/-- The peer that an event opens a session for. -/
def opened (s : Sender) : Event → Option Bytes
  | .accept peerId pin connected => s.openedBy (.accept peerId pin) connected
  | .message json now connected =>
    match handleMessage json with
    | some (.requestPending, ⟨some peerId, some payload⟩) =>
      s.openedBy (.addPending peerId (textBuffer "name" payload)
        (textBuffer "fingerprint" payload) now) connected
    | _ => none
  | _ => none

/-- A session that the event opens is the first one of its peer. -/
def OpensFirst (s : Sender) (event : Event) : Prop :=
  ∀ peerId ∈ s.opened event, s.findSession peerId = none

instance (s : Sender) (event : Event) : Decidable (s.OpensFirst event) :=
  inferInstanceAs (Decidable (∀ _ ∈ s.opened event, _))

/-- The sessions after an admission call. -/
theorem callAdmission_opens (s : Sender) (op : Admission.Op) (connected : Connected) :
    s.openedBy op connected = none ∧
        (s.callAdmission op connected).1.sessions = s.sessions ∨
      ∃ r, s.openedBy op connected = some r.peerId ∧ r.wrtc ≠ none ∧
        (s.callAdmission op connected).1.sessions = s.sessions ++ [r] := by
  rw [callAdmission]
  cases connected with
  | none =>
    left
    refine ⟨rfl, ?_⟩
    cases performed : s.adm.perform op with
    | mk adm notified =>
      cases notified with
      | none => rfl
      | some peer => cases state : peer.state <;> simp [onAdmissionChanged, createSession, state]
  | some trackIds =>
    rw [openedBy]
    cases performed : s.adm.perform op with
    | mk adm notified =>
      cases notified with
      | none => exact .inl ⟨rfl, rfl⟩
      | some peer =>
        -- a session is opened for an acceptance, if the connection can be made
        by_cases state : peer.state = .accepted
        · right
          refine ⟨newSession { s with adm := adm } peer.peerId trackIds, ?_, ?_, ?_⟩
          · simp [state, newSession]
          · simp [newSession]
          · simp [onAdmissionChanged, createSession, state]
        · left
          refine ⟨by simp [state], ?_⟩
          cases other : peer.state <;> simp_all [onAdmissionChanged]

/-- A call that only closes entries opens nothing. -/
theorem callAdmission_closes (s : Sender) (peerId : Bytes) (connected : Connected) :
    (s.callAdmission (.disconnectPeer peerId) connected).1.sessions = s.sessions := by
  obtain ⟨-, same⟩ | ⟨r, opens, -⟩ := s.callAdmission_opens (.disconnectPeer peerId) connected
  · exact same
  · cases connected with
    | none => simp [openedBy] at opens
    | some trackIds =>
      obtain ⟨-, changed⟩ | ⟨p, -, changed⟩ := s.adm.setPeerState_cases peerId .disconnected false
      all_goals
        simp [openedBy, Admission.perform, Admission.disconnectPeer, changed, Peer.set] at opens

/-- What an event does to the sessions. -/
theorem sessions_next (s : Sender) (event : Event) :
    s.opened event = none ∧ ((s.next event).sessions = s.sessions ∨
        ∃ peerId, (s.next event).sessions = releaseFirst peerId s.sessions) ∨
      ∃ r, s.opened event = some r.peerId ∧ r.wrtc ≠ none ∧
        (s.next event).sessions = s.sessions ++ [r] := by
  have closes {t : Sender} {op : Admission.Op} :
      (t.callAdmission op none).1.sessions = t.sessions := by
    obtain ⟨-, same⟩ | ⟨r, opens, -⟩ := t.callAdmission_opens op none
    · exact same
    · simp [openedBy] at opens
  cases event with
  | accept peerId pin connected =>
    obtain ⟨silent, same⟩ | opens := s.callAdmission_opens (.accept peerId pin) connected
    · exact .inl ⟨silent, .inl same⟩
    · exact .inr opens
  | message json now connected =>
    cases raised : handleMessage json with
    | none =>
      left
      refine ⟨by simp [opened, raised], .inl ?_⟩
      rw [next, handle, onMessage, raised]
    | some frame =>
      obtain ⟨evt, ⟨peerId, payload⟩⟩ := frame
      -- the token that the signaling connection keeps is not looked at
      obtain ⟨kept, same, adm, sessions⟩ : ∃ kept : Sender,
          kept = { s with sig := s.sig.keepToken (evt, ⟨peerId, payload⟩) } ∧
            kept.adm = s.adm ∧ kept.sessions = s.sessions := ⟨_, rfl, rfl, rfl⟩
      have handled : s.next (.message json now connected) =
          (kept.onSignalingEvent evt ⟨peerId, payload⟩ now connected).1 := by
        rw [next, handle, onMessage, raised, same]
      by_cases knock : evt = .requestPending ∧ peerId ≠ none ∧ payload ≠ none
      · obtain ⟨rfl, known, carried⟩ := knock
        obtain ⟨peerId, rfl⟩ := Option.ne_none_iff_exists'.mp known
        obtain ⟨payload, rfl⟩ := Option.ne_none_iff_exists'.mp carried
        have opens : s.opened (.message json now connected) =
            kept.openedBy (.addPending peerId (textBuffer "name" payload)
              (textBuffer "fingerprint" payload) now) connected := by
          rw [opened, raised]
          cases connected with
          | none => rfl
          | some trackIds => simp only [openedBy, adm]
        rw [handled, onSignalingEvent_knock, opens, ← sessions]
        obtain ⟨silent, same⟩ | opens := kept.callAdmission_opens (.addPending peerId
          (textBuffer "name" payload) (textBuffer "fingerprint" payload) now) connected
        · exact .inl ⟨silent, .inl same⟩
        · exact .inr opens
      · left
        refine ⟨?_, .inl ?_⟩
        · rw [opened, raised]
          rcases evt <;> rcases peerId <;> rcases payload <;> simp_all
        · rw [handled, ← sessions]
          -- a departure closes the entry, and leaves the session in the list
          by_cases gone : evt = .peerGone ∧ peerId ≠ none
          · obtain ⟨rfl, known⟩ := gone
            obtain ⟨peerId, rfl⟩ := Option.ne_none_iff_exists'.mp known
            rw [onSignalingEvent_gone]
            exact kept.callAdmission_closes peerId connected
          · refine (kept.onSignalingEvent_idle now connected ?_ ?_).2.1
            · simpa only [not_and_or, ne_eq, not_not] using knock
            · simpa only [not_and_or, ne_eq, not_not] using gone
  | reject peerId => exact .inl ⟨rfl, .inl closes⟩
  | disconnectPeer peerId =>
    left
    -- only a disconnect of the user releases a session
    refine ⟨rfl, .inr ⟨peerId, ?_⟩⟩
    rw [next, handle, disconnectPeer]
    exact closes
  | revokeToken =>
    refine .inl ⟨rfl, .inl ?_⟩
    rw [next, handle, revokeToken]
    exact closes
  | sessionState session state =>
    left
    refine ⟨rfl, .inl ?_⟩
    rw [next, handle]
    cases s.sessions[session]? with
    | none => rfl
    | some r =>
      simp only [sessionState]
      split
      · exact closes
      · rfl
  | localSdp session sdpType sdp =>
    refine .inl ⟨rfl, .inl ?_⟩
    rw [next, handle]
    cases s.sessions[session]? <;> rfl
  | localIce session candidate mid mlineIndex =>
    refine .inl ⟨rfl, .inl ?_⟩
    rw [next, handle]
    cases s.sessions[session]? <;> rfl
  | frame capIdx output => exact .inl ⟨rfl, .inl rfl⟩

/-! ### One live session -/

/-- A peer has no second live session, and lookups find the live one. -/
structure OnePerPeer (s : Sender) : Prop where
  one : ∀ (i j : ℕ) (r r' : Session), s.sessions[i]? = some r → s.sessions[j]? = some r' →
    r.peerId = r'.peerId → r.wrtc ≠ none → r'.wrtc ≠ none → i = j
  found : ∀ r ∈ s.sessions, r.wrtc ≠ none → s.findSession r.peerId = some r

/-- No peer has had two sessions. -/
def Distinct (s : Sender) : Prop := (s.sessions.map (·.peerId)).Nodup

theorem Distinct.findSession {s : Sender} (distinct : s.Distinct) {r : Session}
    (member : r ∈ s.sessions) : s.findSession r.peerId = some r :=
  find?_key distinct member

theorem Distinct.onePerPeer {s : Sender} (distinct : s.Distinct) : s.OnePerPeer := by
  constructor
  · intro i j r r' first second same _ _
    have places : (s.sessions.map (·.peerId))[i]? = (s.sessions.map (·.peerId))[j]? := by
      rw [List.getElem?_map, List.getElem?_map, first, second, Option.map_some, same,
        Option.map_some]
    obtain ⟨within, -⟩ := List.getElem?_eq_some_iff.mp first
    exact (List.getElem?_inj (by simpa using within) distinct).mp places
  · intro r member _
    exact distinct.findSession member

theorem map_peerId_releaseFirst (peerId : Bytes) (sessions : List Session) :
    (releaseFirst peerId sessions).map (·.peerId) = sessions.map (·.peerId) := by
  induction sessions with
  | nil => rfl
  | cons r rest ih =>
    rw [releaseFirst]
    split_ifs
    · rfl
    · rw [List.map_cons, ih, List.map_cons]

/-- No session of this peer is listed. -/
theorem findSession_eq_none {s : Sender} {peerId : Bytes} :
    s.findSession peerId = none ↔ peerId ∉ s.sessions.map (·.peerId) := by
  simp [findSession]

theorem distinct_next {s : Sender} {event : Event} (distinct : s.Distinct)
    (first : s.OpensFirst event) : (s.next event).Distinct := by
  obtain ⟨-, same | ⟨peerId, released⟩⟩ | ⟨r, opens, -, added⟩ := s.sessions_next event
  · rwa [Distinct, same]
  · -- a released session stays in the list, under its peer
    rwa [Distinct, released, map_peerId_releaseFirst]
  · have new := findSession_eq_none.mp (first r.peerId opens)
    rw [Distinct, added, List.map_append, List.map_singleton]
    exact List.Nodup.append distinct (List.nodup_singleton _) (by simpa using new)

/-- A session that is not the first one of its peer is a second live one, or is
hidden behind the released one. -/
theorem opensFirst_of_onePerPeer {s : Sender} {event : Event}
    (after : (s.next event).OnePerPeer) : s.OpensFirst event := by
  intro peerId opens
  obtain ⟨silent, -⟩ | ⟨r, opened, live, added⟩ := s.sessions_next event
  · rw [silent] at opens
    cases opens
  · obtain rfl : r.peerId = peerId := Option.some.inj (opened.symm.trans opens)
    cases earlier : s.findSession r.peerId with
    | none => rfl
    | some first =>
      have member : first ∈ s.sessions := List.mem_of_find?_eq_some earlier
      have found : (s.next event).findSession r.peerId = some r :=
        after.found r (by simp [added]) live
      -- the lookup stops at the earlier session
      rw [findSession, added, List.find?_append, ← findSession, earlier] at found
      obtain rfl : first = r := by simpa using found
      exfalso
      obtain ⟨i, place⟩ := List.mem_iff_getElem?.mp member
      obtain ⟨within, -⟩ := List.getElem?_eq_some_iff.mp place
      have same : i = s.sessions.length := by
        apply after.one i s.sessions.length first first _ _ rfl live live
        · rw [added, List.getElem?_append_left within, place]
        · rw [added, List.getElem?_append_right (Nat.le_refl _), Nat.sub_self]
          rfl
      omega

/-! ### Answers and candidates -/

/-- The connection that a remote description or candidate is applied to. -/
def Effect.target : Effect → Option ℕ
  | .applyRemoteSdp wrtc _ _ => some wrtc
  | .addRemoteIce wrtc _ _ => some wrtc
  | _ => none

/-- What a peer sends is meant for the connection whose local description has
gone out to it. At the end of the run it goes to no other one, and it does go
there as long as that connection is live. -/
def AnswersReach (fresh : Sender) (events : List Event) : Prop :=
  ∀ earlier later session sdpType sdp r wrtc,
    events = earlier ++ .localSdp session sdpType sdp :: later →
    (fresh.after earlier).sessions[session]? = some r → r.wrtc = some wrtc →
    ∀ json evt payload now connected,
      handleMessage json = some (evt, ⟨some r.peerId, some payload⟩) →
      (∀ effect ∈ fresh.effectsAt events (.message json now connected),
        ∀ target ∈ effect.target, target = wrtc) ∧
      ∀ r', (fresh.after events).sessions[session]? = some r' → r'.wrtc ≠ none →
        (evt = .sdpAnswer → ∀ text ∈ textMember "sdp" payload,
          .applyRemoteSdp wrtc (bytes "answer") text ∈
            fresh.effectsAt events (.message json now connected)) ∧
        (evt = .iceCandidate → ∀ cand ∈ textMember "candidate" payload,
          ∀ mid ∈ textMember "mid" payload,
          .addRemoteIce wrtc cand mid ∈
            fresh.effectsAt events (.message json now connected))

/-- An admission call applies nothing to a connection. -/
theorem target_callAdmission {s : Sender} {op : Admission.Op} {connected : Connected}
    {effect : Effect} (sent : effect ∈ (s.callAdmission op connected).2) :
    effect.target = none := by
  rw [callAdmission] at sent
  cases performed : s.adm.perform op with
  | mk adm notified =>
    rw [performed] at sent
    cases notified with
    | none => simp at sent
    | some peer =>
      cases state : peer.state <;> cases connected <;>
        simp only [onAdmissionChanged, createSession, state, List.mem_cons, List.not_mem_nil,
          or_false] at sent
      all_goals
        rcases sent with rfl | rfl <;> rfl

theorem onSignalingEvent_answer (s : Sender) (peerId json : Bytes) (now : UInt64)
    (connected : Connected) :
    s.onSignalingEvent .sdpAnswer ⟨some peerId, some json⟩ now connected =
      match (s.findSession peerId).bind (·.wrtc), textMember "sdp" json with
      | some wrtc, some sdp => (s, [.applyRemoteSdp wrtc (bytes "answer") sdp])
      | _, _ => (s, []) := rfl

theorem onSignalingEvent_candidate (s : Sender) (peerId json : Bytes) (now : UInt64)
    (connected : Connected) :
    s.onSignalingEvent .iceCandidate ⟨some peerId, some json⟩ now connected =
      match (s.findSession peerId).bind (·.wrtc), textMember "candidate" json,
        textMember "mid" json with
      | some wrtc, some cand, some mid => (s, [.addRemoteIce wrtc cand mid])
      | _, _, _ => (s, []) := rfl

/-- What a message is applied to is the connection of the first session of its
peer. -/
theorem target_onSignalingEvent {s : Sender} {evt : SignalingEvent} {peerId payload : Bytes}
    {now : UInt64} {connected : Connected} {effect : Effect}
    (sent : effect ∈ (s.onSignalingEvent evt ⟨some peerId, some payload⟩ now connected).2)
    {wrtc : ℕ} (applied : effect.target = some wrtc) :
    (s.findSession peerId).bind (·.wrtc) = some wrtc := by
  cases evt with
  | requestPending =>
    rw [onSignalingEvent_knock, List.mem_append, List.mem_singleton] at sent
    obtain called | rfl := sent
    · rw [target_callAdmission called] at applied
      cases applied
    · cases applied
  | peerGone =>
    rw [onSignalingEvent_gone, List.mem_append, List.mem_singleton] at sent
    obtain called | rfl := sent
    · rw [target_callAdmission called] at applied
      cases applied
    · cases applied
  | sdpAnswer =>
    rw [onSignalingEvent_answer] at sent
    split at sent
    · rename_i connection _ live _
      obtain rfl := List.mem_singleton.mp sent
      cases applied
      exact live
    · cases sent
  | iceCandidate =>
    rw [onSignalingEvent_candidate] at sent
    split at sent
    · rename_i connection _ _ live _ _
      obtain rfl := List.mem_singleton.mp sent
      cases applied
      exact live
    · cases sent
  | tokenIssued =>
    obtain rfl := List.mem_singleton.mp sent
    cases applied
  | _ => cases sent

theorem getElem?_releaseFirst (peerId : Bytes) {sessions : List Session} {i : ℕ} {r : Session}
    (place : sessions[i]? = some r) :
    (releaseFirst peerId sessions)[i]? = some r ∨
      (releaseFirst peerId sessions)[i]? = some (releaseMedia r) := by
  induction sessions generalizing i with
  | nil => simp at place
  | cons first rest ih =>
    rw [releaseFirst]
    by_cases named : first.peerId = peerId
    · rw [if_pos named]
      cases i with
      | zero =>
        obtain rfl : first = r := by simpa using place
        exact .inr rfl
      | succ i => exact .inl place
    · rw [if_neg named]
      cases i with
      | zero => exact .inl place
      | succ i => exact ih place

/-- A session keeps its place and its peer, and its connection until it is
released. -/
theorem session_kept (fresh : Sender) (earlier : List Event) {i : ℕ} {r : Session}
    (place : (fresh.after earlier).sessions[i]? = some r) (later : List Event) :
    ∃ r', (fresh.after (earlier ++ later)).sessions[i]? = some r' ∧ r'.peerId = r.peerId ∧
      (r'.wrtc ≠ none → r'.wrtc = r.wrtc) := by
  induction later using List.reverseRecOn with
  | nil => exact ⟨r, by rwa [List.append_nil], rfl, fun _ => rfl⟩
  | append_singleton later event ih =>
    obtain ⟨r', here, named, kept⟩ := ih
    rw [← List.append_assoc, after_concat]
    obtain ⟨-, same | ⟨peerId, released⟩⟩ | ⟨_, -, -, added⟩ :=
      (fresh.after (earlier ++ later)).sessions_next event
    · exact ⟨r', by rwa [same], named, kept⟩
    · rw [released]
      obtain there | there := getElem?_releaseFirst peerId here
      · exact ⟨r', there, named, kept⟩
      · exact ⟨_, there, named, fun live => absurd rfl live⟩
    · obtain ⟨within, -⟩ := List.getElem?_eq_some_iff.mp here
      exact ⟨r', by rwa [added, List.getElem?_append_left within], named, kept⟩

/-- With one session for each peer, what a peer sends reaches the connection
that it has heard of. -/
theorem answersReach_of_distinct {fresh : Sender} {events : List Event}
    (distinct : (fresh.after events).Distinct) : fresh.AnswersReach events := by
  intro earlier later session sdpType sdp r wrtc split place live json evt payload now connected
    raised
  -- the session of the offer is in its place still, and it is what the lookup finds
  obtain ⟨r', there, named, kept⟩ :=
    session_kept fresh earlier place (.localSdp session sdpType sdp :: later)
  rw [← split] at there
  have found : (fresh.after events).findSession r.peerId = some r' := by
    rw [← named]
    exact distinct.findSession (List.mem_of_getElem? there)
  obtain ⟨kept', same, sessions⟩ : ∃ kept' : Sender,
      kept' = { fresh.after events with
        sig := (fresh.after events).sig.keepToken (evt, ⟨some r.peerId, some payload⟩) } ∧
        kept'.findSession r.peerId = some r' := ⟨_, rfl, found⟩
  have handled : fresh.effectsAt events (.message json now connected) =
      (kept'.onSignalingEvent evt ⟨some r.peerId, some payload⟩ now connected).2 := by
    rw [effectsAt, handle, onMessage, raised, same]
  rw [handled]
  constructor
  · intro effect sent target applied
    have connection := target_onSignalingEvent sent applied
    rw [sessions, Option.bind_some] at connection
    rw [kept (by simp [connection]), live] at connection
    exact (Option.some.inj connection).symm
  · intro other there' stays
    obtain rfl : r' = other := Option.some.inj (there.symm.trans there')
    have connection : (kept'.findSession r.peerId).bind (·.wrtc) = some wrtc := by
      rw [sessions, Option.bind_some, kept stays, live]
    constructor
    · rintro rfl text carried
      rw [onSignalingEvent_answer, connection, carried]
      exact List.mem_singleton_self _
    · rintro rfl cand first mid second
      rw [onSignalingEvent_candidate, connection, first, second]
      exact List.mem_singleton_self _

/-! ### Along a run -/

theorem distinct_create {cfg : SenderConfig} {fresh : Sender}
    (created : create cfg = some fresh) : fresh.Distinct := by
  rw [Distinct, (empty_of_create created).2]
  exact List.nodup_nil

/-- Along a run, a peer never has two live sessions, lookups find the live one,
and what a peer sends reaches the connection whose offer it has got, if and only
if every session that the run opens is the first one of its peer. -/
theorem one_session_iff {cfg : SenderConfig} {fresh : Sender}
    (created : create cfg = some fresh) (events : List Event) :
    (∀ before later, events = before ++ later →
        (fresh.after before).OnePerPeer ∧ fresh.AnswersReach before) ↔
      EveryStep (fun before event => (fresh.after before).OpensFirst event) events := by
  apply always_iff_everyStep (fun events => (fresh.after events).Distinct)
  · exact distinct_create created
  · intro before event one first
    rw [after_concat]
    exact distinct_next one first
  · intro events distinct
    exact ⟨distinct.onePerPeer, answersReach_of_distinct distinct⟩
  · rintro before event - ⟨one, -⟩
    rw [after_concat] at one
    exact opensFirst_of_onePerPeer one

/-- Two peers knock and are accepted. -/
def twoPeersRun : List Event :=
  [.message (pendingFrame (bytes "p1")) 0 none, .message (pendingFrame (bytes "p2")) 0 none,
    .accept (bytes "p1") false (some [1]), .accept (bytes "p2") false (some [1])]

/-- Each of the sample's two peers has one live session. -/
theorem one_session_iff_twoPeers : ∃ fresh, create sampleConfig = some fresh ∧
    (fresh.after twoPeersRun).OnePerPeer := by
  have created : create sampleConfig = some _ := rfl
  refine ⟨_, created, ?_⟩
  exact ((one_session_iff created twoPeersRun).mpr (by decide +kernel) twoPeersRun []
    (by simp)).1

/-! ### A peer that is accepted twice -/

/-- A peer knocks and is accepted two times. -/
def acceptedTwiceRun : List Event :=
  [.message (pendingFrame (bytes "p1")) 0 none,
    .accept (bytes "p1") false (some [1]), .accept (bytes "p1") false (some [1])]

/-- Both acceptances open a session, and both sessions are live. -/
theorem accepted_twice : ∃ fresh, create sampleConfig = some fresh ∧
    (fresh.after acceptedTwiceRun).sessions.map (fun r => (r.peerId, r.wrtc)) =
      [(bytes "p1", some 0), (bytes "p1", some 1)] ∧
    ¬ (fresh.after acceptedTwiceRun).OnePerPeer := by
  have created : create sampleConfig = some _ := rfl
  refine ⟨_, created, ?_⟩
  have sessions : ((create sampleConfig).map fun fresh => (fresh.after acceptedTwiceRun).sessions) =
      some [⟨bytes "p1", some 0, some [], [⟨1, bytes "video0"⟩]⟩,
        ⟨bytes "p1", some 1, some [], [⟨1, bytes "video0"⟩]⟩] := by
    decide +kernel
  rw [created, Option.map_some] at sessions
  have listed := Option.some.inj sessions
  refine ⟨by rw [listed]; rfl, fun one => ?_⟩
  have same : 0 = 1 :=
    one.one 0 1 _ _ (by rw [listed]; rfl) (by rw [listed]; rfl) (by rfl) (by simp) (by simp)
  cases same

end Tether.Plugin.Sender
