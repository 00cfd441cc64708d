import Tether.Plugin.Sender
import Tether.Semantics.Lookup

/-!
# The peers that the control plane lists

The control plane keeps a list of its own of the peers that have knocked: a callback of
the sender adds a row, others change or remove the first row of a peer. The sender asks
its admission store about a knock and tells the control plane of it, whatever the store
has said.

## Main definitions

* `CtrlPeer`, `Effect.told` — a row, and what a callback does to the list
* `ControlPlane`, `ControlEvent` — a sender and its list
* `ControlPlane.Shown` — a waiting row has its entry, and no peer has two rows
* `ControlPlane.Orderly` — an event that keeps the list in order

## Main results

* `Sender.rowStep` — what an event does to the store and the list
* `only_admitted_iff` — the list is right along a run if and only if every event is orderly
* `refused_knock_shown` — a second knock
-/

namespace Tether.Plugin

open Text Semantics

/-! ### Rows -/

/-- `struct ctrl_peer`; the state is 0 for waiting, 1 for connected and 2 for failed. -/
structure CtrlPeer where
  peerId : Bytes
  name : Bytes
  fingerprint : Bytes
  state : ℤ
  deriving DecidableEq

/-- `on_sender_pending` -/
def onSenderPending (rows : List CtrlPeer) (peerId name fp : Bytes) : List CtrlPeer :=
  rows ++ [⟨strncpy 64 peerId, strncpy 64 name, strncpy 160 fp, 0⟩]

/-- A state in the words of the list. -/
def rowState : DialogState → ℤ
  | .peerConnected => 1
  | .failed => 2
  | .waiting => 0

/-- `on_sender_peer_state` -/
def onSenderPeerState (rows : List CtrlPeer) (peerId : Bytes) (state : DialogState) :
    List CtrlPeer :=
  replaceFirst CtrlPeer.peerId peerId (fun row => { row with state := rowState state }) rows

/-- `on_sender_peer_gone` -/
def onSenderPeerGone (rows : List CtrlPeer) (peerId : Bytes) : List CtrlPeer :=
  rows.eraseP (CtrlPeer.peerId · = peerId)

namespace Sender

/-- What a callback does to the list. -/
def Effect.told (rows : List CtrlPeer) : Effect → List CtrlPeer
  | .onPending peerId name fp => onSenderPending rows peerId name fp
  | .onPeerState peerId state => onSenderPeerState rows peerId state
  | .onPeerGone peerId => onSenderPeerGone rows peerId
  | _ => rows

/-- The list after the callbacks of one event. -/
def rowsAfter (rows : List CtrlPeer) (effects : List Effect) : List CtrlPeer :=
  effects.foldl Effect.told rows

theorem rowsAfter_append (rows : List CtrlPeer) (first second : List Effect) :
    rowsAfter rows (first ++ second) = rowsAfter (rowsAfter rows first) second :=
  List.foldl_append

end Sender

/-- `struct tether_control`, a sender and the list of its peers. -/
structure ControlPlane where
  sender : Option Sender
  peers : List CtrlPeer

/-- What happens to the control plane: its sender is created, something reaches the sender, or
the sender is revoked, which ends it. -/
inductive ControlEvent
  | create (cfg : SenderConfig)
  | reaches (event : Sender.Event) (other : event ≠ .revokeToken)
  | revoke

namespace ControlPlane

/-- No sender yet. -/
def idle : ControlPlane := ⟨none, []⟩

/-- `cmd_sender_create`, the callbacks, and `cmd_sender_revoke`. -/
def next (c : ControlPlane) : ControlEvent → ControlPlane
  | .create cfg =>
    match c.sender with
    | some _ => c
    | none => { c with sender := Sender.create cfg }
  | .reaches event _ =>
    match c.sender with
    | none => c
    | some s =>
      { sender := some (s.handle event).1
        peers := Sender.rowsAfter c.peers (s.handle event).2 }
  | .revoke =>
    match c.sender with
    | none => c
    | some _ => { sender := none, peers := [] }

/-- The control plane after some events. -/
def after (events : List ControlEvent) : ControlPlane := run next idle events

end ControlPlane

/-! ### The law -/

/-- An entry that may wait or be connected. -/
def Admission.Holds (adm : Admission) (peerId : Bytes) : Prop :=
  ∃ p ∈ adm.peers, p.peerId = peerId ∧ (p.state = .pending ∨ p.state = .accepted)

instance (adm : Admission) (peerId : Bytes) : Decidable (adm.Holds peerId) :=
  inferInstanceAs (Decidable (∃ p ∈ adm.peers, _ ∧ _))

/-- The knock of an event: the peer and the time. -/
def Sender.Event.knock? : Sender.Event → Option (Bytes × UInt64)
  | .message json now _ =>
    match handleMessage json with
    | some (.requestPending, ⟨some peerId, some _⟩) => some (peerId, now)
    | _ => none
  | _ => none

namespace ControlPlane

variable (c : ControlPlane)

/-- Every row that waits has an entry that is pending or accepted, and no peer has two rows. -/
structure Shown : Prop where
  admitted : ∀ row ∈ c.peers, row.state = 0 → ∃ s, c.sender = some s ∧ s.adm.Holds row.peerId
  unique : (c.peers.map CtrlPeer.peerId).Nodup

/-- A knock that is refused leaves the list alone. -/
def RefusesQuietly : ControlEvent → Prop
  | .reaches event other => ∀ s peerId now, c.sender = some s →
      event.knock? = some (peerId, now) → ¬ s.adm.Admits peerId now →
        (c.next (.reaches event other)).peers = c.peers
  | _ => True

/-- A knock is let in, by a peer that is not listed; and no connection is reported as waiting
for a peer that is listed and has no entry that may wait. -/
def Orderly : ControlEvent → Prop
  | .reaches event _ => ∀ s, c.sender = some s →
    (∀ peerId now, event.knock? = some (peerId, now) →
      s.adm.Admits peerId now ∧ ∀ row ∈ c.peers, row.peerId ≠ strncpy 64 peerId) ∧
    ∀ session state r, event = .sessionState session state → s.sessions[session]? = some r →
      Sender.dialogState state = .waiting → (∃ row ∈ c.peers, row.peerId = r.peerId) →
        s.adm.Holds r.peerId
  | _ => True

end ControlPlane

/-! ### What an event does -/

namespace Sender

/-- What an event does to the admission store and to the list. -/
inductive RowStep (s : Sender) (event : Event) (rows : List CtrlPeer) : Prop
  | knock (peerId name fp : Bytes) (now : UInt64) (knocks : event.knock? = some (peerId, now))
    (adm : (s.handle event).1.adm = (s.adm.addPending peerId name fp now).1)
    (told : rowsAfter rows (s.handle event).2 = onSenderPending rows peerId name fp)
  | accept (peerId : Bytes) (pin : Bool) (silent : event.knock? = none)
    (adm : (s.handle event).1.adm = (s.adm.setPeerState peerId .accepted pin).1)
    (told : rowsAfter rows (s.handle event).2 = rows)
  | gone (peerId : Bytes) (state : PeerState) (silent : event.knock? = none)
    (adm : (s.handle event).1.adm = (s.adm.setPeerState peerId state false).1)
    (told : rowsAfter rows (s.handle event).2 = onSenderPeerGone rows peerId)
  | reported (session : ℕ) (state : WebrtcState) (r : Session)
    (reports : event = .sessionState session state) (found : s.sessions[session]? = some r)
    (adm : (s.handle event).1.adm =
      if WebrtcState.isOver state then (s.adm.setPeerState r.peerId .disconnected false).1
      else s.adm)
    (told : rowsAfter rows (s.handle event).2 =
      onSenderPeerState rows r.peerId (dialogState state))
  | nothing (silent : event.knock? = none) (adm : (s.handle event).1.adm = s.adm)
    (told : rowsAfter rows (s.handle event).2 = rows)

theorem rowsAfter_quiet {effects : List Effect} {rows : List CtrlPeer}
    (quiet : ∀ effect ∈ effects, ∀ rows, Effect.told rows effect = rows) :
    rowsAfter rows effects = rows := by
  induction effects with
  | nil => rfl
  | cons effect rest ih =>
    obtain ⟨here, later⟩ := List.forall_mem_cons.mp quiet
    rw [rowsAfter, List.foldl_cons, here]
    exact ih later

section Calls

variable (s : Sender) (connected : Connected) (rows : List CtrlPeer)

/-- An admission call tells the control plane only of a rejection. -/
theorem rowsAfter_callAdmission (op : Admission.Op) :
    rowsAfter rows (s.callAdmission op connected).2 =
      match (s.adm.perform op).2 with
      | none => rows
      | some p =>
        if p.state = .rejected ∨ p.state = .revoked then onSenderPeerGone rows p.peerId
        else rows := by
  rw [callAdmission]
  rcases s.adm.perform op with ⟨adm, _ | peer⟩
  · rfl
  · cases state : peer.state <;> cases connected <;>
      simp [onAdmissionChanged, createSession, state, rowsAfter, Effect.told]

theorem rowsAfter_addPending (peerId name fp : Bytes) (now : UInt64) :
    rowsAfter rows (s.callAdmission (.addPending peerId name fp now) connected).2 = rows := by
  rw [rowsAfter_callAdmission, Admission.perform]
  obtain ⟨-, ⟨-, silent⟩ | ⟨-, told, -⟩⟩ := s.adm.addPending_cases peerId name fp now
  · rw [silent]
  · rw [told, Admission.knockedPeer]
    split_ifs <;> simp [Admission.newPeer]

/-- A call that sets another state than a rejection leaves the list alone. -/
theorem rowsAfter_setPeerState {op : Admission.Op} {peerId : Bytes} {newState : PeerState}
    {pin : Bool} (sets : s.adm.perform op = s.adm.setPeerState peerId newState pin)
    (other : newState ≠ .rejected ∧ newState ≠ .revoked) :
    rowsAfter rows (s.callAdmission op connected).2 = rows := by
  rw [rowsAfter_callAdmission, sets]
  rcases s.adm.setPeerState_cases peerId newState pin with ⟨-, same⟩ | ⟨p, -, changed⟩
  · rw [same]
  · rw [changed]
    simp [Peer.set, other]

end Calls

/-- Events other than knocks and departures leave the list alone. -/
theorem rowsAfter_idle (s : Sender) {evt : SignalingEvent} {peerId payload : Option Bytes}
    (now : UInt64) (connected : Connected) (rows : List CtrlPeer)
    (noKnock : evt ≠ .requestPending ∨ peerId = none ∨ payload = none)
    (noDeparture : evt ≠ .peerGone ∨ peerId = none) :
    rowsAfter rows (s.onSignalingEvent evt ⟨peerId, payload⟩ now connected).2 = rows := by
  rcases evt <;> rcases peerId <;> rcases payload <;>
    simp_all [onSignalingEvent, rowsAfter, Effect.told]
  -- an answer and a candidate are left: they reach a connection or nothing
  all_goals split <;> simp [Effect.told]

theorem knock?_message {json : Bytes} {evt : SignalingEvent} {peerId payload : Option Bytes}
    (raised : handleMessage json = some (evt, ⟨peerId, payload⟩)) (now : UInt64)
    (connected : Connected) :
    (Event.message json now connected).knock? =
      if evt = .requestPending ∧ payload.isSome then peerId.map fun id => (id, now) else none := by
  rw [Event.knock?, raised]
  cases evt <;> cases peerId <;> cases payload <;> rfl

theorem rowStep_message (s : Sender) (json : Bytes) (now : UInt64) (connected : Connected)
    (rows : List CtrlPeer) : RowStep s (.message json now connected) rows := by
  rcases raised : handleMessage json with _ | ⟨evt, ⟨peerId, payload⟩⟩
  · have handled : s.handle (.message json now connected) = (s, []) := by
      rw [handle, onMessage, raised]
    exact .nothing (by rw [Event.knock?, raised]) (by rw [handled]) (by rw [handled]; rfl)
  obtain ⟨t, handled, adm⟩ : ∃ t : Sender, s.handle (.message json now connected) =
      t.onSignalingEvent evt ⟨peerId, payload⟩ now connected ∧ t.adm = s.adm :=
    ⟨{ s with sig := s.sig.keepToken (evt, ⟨peerId, payload⟩) },
      by rw [handle, onMessage, raised], rfl⟩
  have knocks := knock?_message raised now connected
  by_cases idle : (evt ≠ .requestPending ∨ peerId = none ∨ payload = none) ∧
      (evt ≠ .peerGone ∨ peerId = none)
  · have kept := (t.onSignalingEvent_idle now connected idle.1 idle.2).1
    have silent := t.rowsAfter_idle now connected rows idle.1 idle.2
    refine .nothing ?_ (by rw [handled, kept, adm]) (by rw [handled, silent])
    rw [knocks]
    rcases idle.1 with other | rfl | rfl
    · exact if_neg fun both => other both.1
    · simp
    · simp
  · rw [not_and_or, not_or, not_or, not_or, not_not, not_not] at idle
    rcases idle with ⟨rfl, known, carried⟩ | ⟨rfl, known⟩
    · obtain ⟨peerId, rfl⟩ := Option.ne_none_iff_exists'.mp known
      obtain ⟨payload, rfl⟩ := Option.ne_none_iff_exists'.mp carried
      rw [onSignalingEvent_knock] at handled
      have entered := t.callAdmission_adm (.addPending peerId (textBuffer "name" payload)
        (textBuffer "fingerprint" payload) now) connected
      refine .knock peerId _ _ now (by rw [knocks]; rfl) (by rw [handled, entered, adm]; rfl) ?_
      rw [handled, rowsAfter_append, rowsAfter_addPending]
      rfl
    · obtain ⟨peerId, rfl⟩ := Option.ne_none_iff_exists'.mp known
      rw [onSignalingEvent_gone] at handled
      refine .gone peerId .disconnected (by rw [knocks]; simp)
        (by rw [handled, callAdmission_adm, adm]; rfl) ?_
      rw [handled, rowsAfter_append, t.rowsAfter_setPeerState connected rows rfl (by simp)]
      rfl

/-- A report about a session. -/
theorem sessionState_rows (s : Sender) (r : Session) (state : WebrtcState)
    (rows : List CtrlPeer) :
    (s.sessionState r state).1.adm =
        (if WebrtcState.isOver state then (s.adm.setPeerState r.peerId .disconnected false).1
        else s.adm) ∧
      rowsAfter rows (s.sessionState r state).2 =
        onSenderPeerState rows r.peerId (dialogState state) := by
  rw [sessionState]
  by_cases isOver : WebrtcState.isOver state
  · simp only [isOver, ↓reduceIte]
    refine ⟨s.callAdmission_adm (.disconnectPeer r.peerId) none, ?_⟩
    rw [← List.singleton_append, rowsAfter_append, s.rowsAfter_setPeerState none _ rfl (by simp)]
    rfl
  · simp only [isOver, Bool.false_eq_true, ↓reduceIte]
    exact ⟨trivial, rfl⟩

/-- What an event does. -/
theorem rowStep (s : Sender) (event : Event) (other : event ≠ .revokeToken)
    (rows : List CtrlPeer) : RowStep s event rows := by
  cases event with
  | message json now connected => exact s.rowStep_message json now connected rows
  | accept peerId pin connected =>
    exact .accept peerId pin rfl (s.callAdmission_adm _ connected)
      (s.rowsAfter_setPeerState connected rows rfl (by simp))
  | reject peerId =>
    have adm := s.callAdmission_adm (.reject peerId) none
    have told := s.rowsAfter_callAdmission none rows (.reject peerId)
    rcases s.adm.setPeerState_cases peerId .rejected false with ⟨-, same⟩ | ⟨p, found, changed⟩
    · -- there is nobody to reject
      have performed : s.adm.perform (.reject peerId) = (s.adm, none) := same
      rw [performed] at adm told
      exact .nothing rfl adm told
    · have performed : s.adm.perform (.reject peerId) = _ := changed
      have named : p.peerId = peerId := by simpa using List.find?_some found
      rw [performed] at adm told
      refine .gone peerId .rejected rfl (adm.trans (by rw [changed])) (told.trans ?_)
      simp [Peer.set, named]
  | disconnectPeer peerId =>
    let calm : Sender := { s with sessions := releaseFirst peerId s.sessions }
    have handled : s.handle (.disconnectPeer peerId) =
        ((calm.callAdmission (.disconnectPeer peerId) none).1,
          ((s.findSession peerId).bind (·.wrtc)).toList.map Effect.release ++
            (calm.callAdmission (.disconnectPeer peerId) none).2 ++
              [.signal (.reject peerId), .onPeerGone peerId]) := rfl
    refine .gone peerId .disconnected rfl (by rw [handled, callAdmission_adm]; rfl) ?_
    have released : rowsAfter rows
        (((s.findSession peerId).bind (·.wrtc)).toList.map Effect.release) = rows := by
      apply rowsAfter_quiet
      intro effect member rows
      obtain ⟨wrtc, -, rfl⟩ := List.mem_map.mp member
      rfl
    rw [handled, rowsAfter_append, rowsAfter_append, released,
      calm.rowsAfter_setPeerState none rows rfl (by simp)]
    rfl
  | revokeToken => exact absurd rfl other
  | localSdp session sdpType sdp =>
    refine .nothing rfl ?_ ?_ <;> rw [handle] <;> cases s.sessions[session]? <;> rfl
  | localIce session candidate mid mlineIndex =>
    refine .nothing rfl ?_ ?_ <;> rw [handle] <;> cases s.sessions[session]? <;> rfl
  | sessionState session state =>
    cases found : s.sessions[session]? with
    | none => exact .nothing rfl (by rw [handle, found]) (by rw [handle, found]; rfl)
    | some r =>
      have handled : s.handle (.sessionState session state) = s.sessionState r state := by
        rw [handle, found]
      obtain ⟨adm, told⟩ := s.sessionState_rows r state rows
      exact .reported session state r rfl found (handled ▸ adm) (handled ▸ told)
  | frame capIdx output =>
    refine .nothing rfl rfl (rowsAfter_quiet fun effect member rows => ?_)
    obtain ⟨r, -, -, trackId, data, rfl⟩ := mem_encodeCaptureToSessions member
    rfl

end Sender

/-! ### Entries -/

namespace Admission

variable {adm : Admission} {peerId : Bytes}

theorem holds_addPending {id name fp : Bytes} {now : UInt64} (holds : adm.Holds id) :
    (adm.addPending peerId name fp now).1.Holds id := by
  obtain ⟨p, member, named, live⟩ := holds
  obtain ⟨-, ⟨same, -⟩ | ⟨added, -⟩⟩ := adm.addPending_cases peerId name fp now
  · exact ⟨p, by rwa [same], named, live⟩
  · exact ⟨p, by rw [added]; exact List.mem_append_left _ member, named, live⟩

/-- An admitted knock has an entry. -/
theorem holds_of_admits {name fp : Bytes} {now : UInt64} (admits : adm.Admits peerId now) :
    (adm.addPending peerId name fp now).1.Holds (strncpy 64 peerId) := by
  rw [admits_iff name fp] at admits
  obtain ⟨-, ⟨-, silent⟩ | ⟨added, -⟩⟩ := adm.addPending_cases peerId name fp now
  · rw [silent] at admits
    contradiction
  · refine ⟨adm.knockedPeer peerId name fp now, ?_, knockedPeer_peerId, ?_⟩
    · rw [added]
      exact List.mem_append_right _ (List.mem_singleton_self _)
    · rw [knockedPeer]
      split_ifs
      · exact .inr rfl
      · exact .inl rfl

/-- A change of another entry, or one that accepts. -/
theorem holds_setPeerState {id : Bytes} {state : PeerState} {pin : Bool} (holds : adm.Holds id)
    (spares : id = peerId → state = .accepted) :
    (adm.setPeerState peerId state pin).1.Holds id := by
  obtain ⟨p, member, rfl, live⟩ := holds
  rcases adm.setPeerState_cases peerId state pin with ⟨-, same⟩ | ⟨q, -, changed⟩
  · rw [same]
    exact ⟨p, member, rfl, live⟩
  · obtain ⟨n, entry⟩ := List.mem_iff_getElem?.mp member
    rw [changed]
    rcases getElem?_updateFirst peerId (Peer.set state pin) entry with kept | ⟨named, set⟩
    · exact ⟨p, List.mem_of_getElem? kept, rfl, live⟩
    · exact ⟨p.set state pin, List.mem_of_getElem? set, rfl, .inr (spares named)⟩

end Admission

/-! ### Runs -/

namespace ControlPlane

variable {c : ControlPlane}

theorem next_reaches {s : Sender} (sender : c.sender = some s) (event : Sender.Event)
    (other : event ≠ .revokeToken) :
    c.next (.reaches event other) =
      ⟨some (s.handle event).1, Sender.rowsAfter c.peers (s.handle event).2⟩ := by
  rw [next, sender]

/-- A change of a store that keeps what the waiting rows need. -/
theorem Shown.of_holds {rows : List CtrlPeer} {s : Sender}
    (admitted : ∀ row ∈ rows, row.state = 0 → s.adm.Holds row.peerId)
    (unique : (rows.map CtrlPeer.peerId).Nodup) : Shown ⟨some s, rows⟩ :=
  ⟨fun row member waits => ⟨s, rfl, admitted row member waits⟩, unique⟩

/-- What a waiting row of a sender has. -/
theorem Shown.holds (shown : c.Shown) {s : Sender} (sender : c.sender = some s) {row : CtrlPeer}
    (member : row ∈ c.peers) (waits : row.state = 0) : s.adm.Holds row.peerId := by
  obtain ⟨t, same, holds⟩ := shown.admitted row member waits
  obtain rfl := Option.some.inj (sender.symm.trans same)
  exact holds

/-- An orderly event of the sender keeps the list right. -/
theorem Shown.reaches (shown : c.Shown) {s : Sender} (sender : c.sender = some s)
    {event : Sender.Event} (other : event ≠ .revokeToken)
    (orderly : c.Orderly (.reaches event other)) : (c.next (.reaches event other)).Shown := by
  obtain ⟨knocks, reports⟩ := orderly s sender
  rw [next_reaches sender]
  rcases s.rowStep event other c.peers with
    ⟨peerId, name, fp, now, knock, adm, told⟩ | ⟨peerId, pin, -, adm, told⟩ |
    ⟨peerId, state, -, adm, told⟩ | ⟨session, state, r, rfl, found, adm, told⟩ | ⟨-, adm, told⟩
  · -- a knock: the row and the entry carry the same shortened identifier
    obtain ⟨admits, fresh⟩ := knocks peerId now knock
    rw [told, onSenderPending]
    refine .of_holds (fun row member waits => ?_) ?_
    · rw [adm]
      rcases List.mem_append.mp member with old | new
      · exact Admission.holds_addPending (shown.holds sender old waits)
      · obtain rfl := List.mem_singleton.mp new
        exact Admission.holds_of_admits admits
    · rw [List.map_append, List.map_singleton, List.nodup_append']
      refine ⟨shown.unique, List.nodup_singleton _, ?_⟩
      rw [List.disjoint_singleton, List.mem_map]
      rintro ⟨row, member, same⟩
      exact fresh row member same
  · -- an acceptance leaves the rows, and an accepted entry is still one that may wait
    rw [told]
    refine .of_holds (fun row member waits => ?_) shown.unique
    rw [adm]
    exact Admission.holds_setPeerState (shown.holds sender member waits) fun _ => rfl
  · -- a departure takes the only row of the peer away
    rw [told, onSenderPeerGone]
    refine .of_holds (fun row member waits => ?_) ?_
    · obtain ⟨there, differs⟩ := mem_eraseP_key shown.unique member
      rw [adm]
      exact Admission.holds_setPeerState (shown.holds sender there waits)
        fun same => absurd same differs
    · exact shown.unique.sublist (List.eraseP_sublist.map _)
  · -- a report changes the row of its peer
    rw [told, onSenderPeerState]
    refine .of_holds (fun row member waits => ?_) ?_
    · rw [adm]
      rcases mem_replaceFirst shown.unique member with ⟨old, there, named, rfl⟩ | ⟨there, differs⟩
      · -- the row says what the connection does, and waits if the connection does
        have waiting : Sender.dialogState state = .waiting := by
          cases state <;> first | rfl | cases waits
        have alive : Sender.WebrtcState.isOver state = false := by
          cases state <;> first | rfl | cases waiting
        rw [alive, if_neg Bool.false_ne_true]
        have holds := reports session state r rfl found waiting ⟨old, there, named⟩
        rwa [← named] at holds
      · have holds := shown.holds sender there waits
        split_ifs
        · exact Admission.holds_setPeerState holds fun same => absurd same differs
        · exact holds
    · rw [map_replaceFirst]
      · exact shown.unique
      · exact fun row => rfl
  · rw [told]
    refine .of_holds (fun row member waits => ?_) shown.unique
    rw [adm]
    exact shown.holds sender member waits

/-- An orderly event keeps the list right. -/
theorem Shown.next (shown : c.Shown) {e : ControlEvent} (orderly : c.Orderly e) :
    (c.next e).Shown := by
  cases e with
  | create cfg =>
    cases sender : c.sender with
    | some s => rwa [ControlPlane.next, sender]
    | none =>
      rw [ControlPlane.next, sender]
      refine ⟨fun row member waits => ?_, shown.unique⟩
      -- no row waits while there is no sender
      obtain ⟨s, present, -⟩ := shown.admitted row member waits
      rw [sender] at present
      cases present
  | reaches event other =>
    cases sender : c.sender with
    | some s => exact shown.reaches sender other orderly
    | none => rwa [ControlPlane.next, sender]
  | revoke =>
    cases sender : c.sender with
    | some s =>
      rw [ControlPlane.next, sender]
      exact ⟨fun row member => absurd member List.not_mem_nil, List.nodup_nil⟩
    | none => rwa [ControlPlane.next, sender]

/-- A knock adds its row, whatever the store says. -/
theorem knock_rows {s : Sender} (sender : c.sender = some s) {event : Sender.Event}
    (other : event ≠ .revokeToken) {peerId : Bytes} {now : UInt64}
    (knocks : event.knock? = some (peerId, now)) :
    ∃ name fp, (c.next (.reaches event other)).peers = onSenderPending c.peers peerId name fp := by
  rw [next_reaches sender]
  rcases s.rowStep event other c.peers with
    ⟨id, name, fp, time, knock, -, told⟩ | ⟨-, -, silent, -, -⟩ | ⟨-, -, silent, -, -⟩ |
    ⟨session, state, r, rfl, -, -, -⟩ | ⟨silent, -, -⟩
  · obtain ⟨rfl, rfl⟩ := Prod.mk.inj (Option.some.inj (knock.symm.trans knocks))
    exact ⟨name, fp, told⟩
  · rw [silent] at knocks
    cases knocks
  · rw [silent] at knocks
    cases knocks
  · cases knocks
  · rw [silent] at knocks
    cases knocks

/-- A knock that is not refused keeps the quiet rule. -/
theorem Orderly.refusesQuietly {e : ControlEvent} (orderly : c.Orderly e) :
    c.RefusesQuietly e := by
  cases e with
  | create cfg => trivial
  | revoke => trivial
  | reaches event other =>
    intro s peerId now sender knocks refused
    exact absurd ((orderly s sender).1 peerId now knocks).1 refused

/-- An event that keeps the list right, and is refused quietly, is orderly. -/
theorem Shown.orderly {e : ControlEvent} (shown : (c.next e).Shown) (quiet : c.RefusesQuietly e) :
    c.Orderly e := by
  cases e with
  | create cfg => trivial
  | revoke => trivial
  | reaches event other =>
    intro s sender
    constructor
    · intro peerId now knocks
      obtain ⟨name, fp, rows⟩ := knock_rows sender other knocks
      constructor
      · by_contra refused
        -- the list has grown by a row
        have same := quiet s peerId now sender knocks refused
        rw [rows, onSenderPending, List.append_right_eq_self] at same
        cases same
      · have unique := shown.unique
        rw [rows, onSenderPending, List.map_append, List.map_singleton, List.nodup_append',
          List.disjoint_singleton] at unique
        intro row member same
        exact unique.2.2 (List.mem_map.mpr ⟨row, member, same⟩)
    · rintro session state r rfl found waiting ⟨row, member, named⟩
      have alive : Sender.WebrtcState.isOver state = false := by
        cases state <;> first | rfl | cases waiting
      have handled : s.handle (.sessionState session state) = s.sessionState r state := by
        rw [Sender.handle, found]
      obtain ⟨adm, told⟩ := s.sessionState_rows r state c.peers
      rw [alive, if_neg Bool.false_ne_true] at adm
      rw [next_reaches sender, handled, told] at shown
      obtain ⟨old, -, same, changed⟩ := exists_mem_replaceFirst
        (f := fun row : CtrlPeer => { row with state := rowState (Sender.dialogState state) })
        member named
      have holds := shown.holds rfl changed (by rw [waiting]; rfl)
      rwa [adm, same] at holds

/-- Along a run, all rows that wait have an entry that may wait, no peer has two rows, and no
refused knock changes the list, if and only if every event is orderly. -/
theorem only_admitted_iff (events : List ControlEvent) :
    (∀ before later, events = before ++ later →
      (after before).Shown ∧
        EveryStep (fun before e => (after before).RefusesQuietly e) before) ↔
      EveryStep (fun before e => (after before).Orderly e) events := by
  -- `Shown` carries the induction, and each of its losses shows the event that was not orderly
  refine always_iff_everyStep _ ?_ ?_ (fun _ inv => inv) ?_ events
  · exact ⟨⟨fun row member => absurd member List.not_mem_nil, List.nodup_nil⟩, .nil⟩
  · rintro before e ⟨shown, quiet⟩ orderly
    refine ⟨?_, everyStep_concat.mpr ⟨quiet, orderly.refusesQuietly⟩⟩
    rw [after, run_concat]
    exact shown.next orderly
  · rintro before e - ⟨shown, quiet⟩
    rw [after, run_concat] at shown
    exact shown.orderly (everyStep_concat.mp quiet).2

/-! ### A second knock -/

/-- The knock of a peer. -/
def sampleKnock : ControlEvent :=
  .reaches (.message (Sender.pendingFrame (bytes "p1")) 0 none) (by simp)

/-- The peer has knocked twice. -/
def knockedTwice : List ControlEvent := [.create Sender.sampleConfig, sampleKnock, sampleKnock]

/-- The second knock is refused and gets a row. When the peer is rejected that row is left, and
it waits. -/
theorem refused_knock_shown :
    ¬ (after [.create Sender.sampleConfig, sampleKnock]).RefusesQuietly sampleKnock ∧
      ¬ (after knockedTwice).Shown ∧
      ∃ row ∈ (after (knockedTwice ++ [.reaches (.reject (bytes "p1")) (by simp)])).peers,
        row.state = 0 ∧
          ((after (knockedTwice ++ [.reaches (.reject (bytes "p1")) (by simp)])).sender.map
            fun s => decide (s.adm.Holds row.peerId)) = some false := by
  refine ⟨fun quiet => ?_, fun shown => ?_, ?_⟩
  · have refused : (after [.create Sender.sampleConfig, sampleKnock]).sender.map
        (fun s => decide (s.adm.Admits (bytes "p1") 0)) = some false := by decide +kernel
    cases sender : (after [.create Sender.sampleConfig, sampleKnock]).sender with
    | none =>
      rw [sender] at refused
      cases refused
    | some s =>
      rw [sender] at refused
      have rows := quiet s (bytes "p1") 0 sender (by decide +kernel)
        (of_decide_eq_false (Option.some.inj refused))
      have grown : ((after [.create Sender.sampleConfig, sampleKnock]).next
        sampleKnock).peers.length =
          (after [.create Sender.sampleConfig, sampleKnock]).peers.length + 1 := by
        decide +kernel
      exact absurd (grown.symm.trans (congrArg List.length rows)) (by simp)
  · exact absurd shown.unique (by decide +kernel)
  · decide +kernel

end ControlPlane

end Tether.Plugin
