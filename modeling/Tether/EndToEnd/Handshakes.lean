import Tether.EndToEnd.Link
import Tether.Semantics.Handshake

/-!
# The handshake about one identifier

The sender's store and the room's records are two sides of one handshake for each
identifier: the room takes in and loses a receiver, the sender decides about it. Here each
step that a party can take is read as a move of every handshake.

## Main definitions

* `Link.view` — the handshake about one identifier
* `Link.Coherent` — what frames, entries and records have in common
* `Link.Moves` — a step keeps the link coherent and moves the handshakes

## Main results

* `Coherent.room_knock`, `Coherent.room_gone`, `Coherent.room_decided`,
  `Coherent.room_quiet` — the moves of the room
* `Coherent.sender_accept`, `Coherent.sender_drop`, `Coherent.sender_unmark`,
  `Coherent.sender_revoke`, `Coherent.sender_knock`, `Coherent.sender_quiet` — those of the
  sender
-/

namespace Tether.EndToEnd.Link

open Text Js Semantics Plugin
open Backend (Room Env Millis Uuid Socket PeerConn Hosts IsNotice NoNotice standing)

/-! ### The handshakes -/

/-- What a call says about one identifier. -/
def decision? (id : Uuid) : Signal → Option Decision
  | .accept peerId => if peerId = id.text then some .mark else none
  | .reject peerId => if peerId = id.text then some .drop else none
  | .revokeToken => some .drop
  | .sendSdp .. | .sendIce .. => none

/-- The handshake about one identifier. -/
def view (link : Link) (id : Uuid) : Handshake where
  record := standing id link.room.guests
  decisions := link.up.filterMap (decision? id)
  leaving := link.Leaving id.text
  marked := link.sender.adm.Accepts id.text

/-- What the frames, the entries and the records have in common. -/
structure Coherent (host : PeerConn) (link : Link) : Prop where
  hosts : Hosts link.room host
  ws : host.ws = link.ws
  own : host.id ∉ link.issued
  guests : ∀ g ∈ link.room.guests, g.id ∈ link.issued
  entries : ∀ p ∈ link.sender.adm.peers, ∃ id ∈ link.issued, p.peerId = id.text
  distinct : link.sender.adm.Distinct
  accepts : ∀ peerId, .accept peerId ∈ link.up → ∃ id ∈ link.issued, peerId = id.text
  rejects : ∀ peerId, .reject peerId ∈ link.up → ∃ id, host.id ≠ id ∧ peerId = id.text
  frames : ∀ frame ∈ link.down, IsNotice frame →
    ∃ id ∈ link.issued, (∃ msg, frame = Backend.pending id msg) ∨ frame = Backend.peerGone id

/-- The link stays coherent, and each handshake makes a move or none. -/
def Moves (host : PeerConn) (link next : Link) : Prop :=
  Coherent host next ∧ ∀ id, Handshake.Step (link.view id) (next.view id)

section Departures

theorem text_injective {id other : Uuid} (same : id.text = other.text) : id = other :=
  Backend.Uuid.str_injective (congrArg ofAscii same)

theorem departs_peerGone {peerId : Bytes} {id : Uuid} :
    Departs peerId (Backend.peerGone id) ↔ peerId = id.text := by
  have named : (Backend.peerGone id).get? (str "peer_id") = some (.str id.str) :=
    Backend.peerId_message "peer_gone" id.str []
  rw [Departs, Backend.peerGone, Backend.isType_message, decide_eq_true rfl, ← Backend.peerGone,
    named, Value.isStr_some_str, decide_eq_true_eq, and_iff_right rfl]
  exact ⟨fun same => ofAscii_injective same.symm, fun same => by rw [same]; rfl⟩

theorem not_departs_pending {peerId : Bytes} {id : Uuid} {msg : Value} :
    ¬ Departs peerId (Backend.pending id msg) := by
  rintro ⟨type, -⟩
  rw [Backend.pending, Backend.isType_message] at type
  revert type
  decide

theorem isNotice_of_departs {peerId : Bytes} {frame : Value} (departs : Departs peerId frame) :
    IsNotice frame := .inr departs.1

end Departures

variable {engine : Engine} {env : Env} {host : PeerConn} {link : Link}

section Issued

variable {id : Uuid}

theorem Coherent.issued_of_accepts (coherent : Coherent host link)
    (accepted : link.sender.adm.Accepts id.text) : id ∈ link.issued := by
  obtain ⟨p, member, named, -⟩ := accepted
  obtain ⟨other, known, same⟩ := coherent.entries p member
  exact text_injective (named.symm.trans same) ▸ known

theorem Coherent.issued_of_leaving (coherent : Coherent host link)
    (leaving : link.Leaving id.text) : id ∈ link.issued := by
  obtain ⟨frame, member, departs⟩ := leaving
  obtain ⟨other, known, ⟨msg, rfl⟩ | rfl⟩ :=
    coherent.frames frame member (isNotice_of_departs departs)
  · exact absurd departs not_departs_pending
  · exact text_injective (departs_peerGone.mp departs) ▸ known

theorem Coherent.issued_of_mark (coherent : Coherent host link)
    (marked : .mark ∈ (link.view id).decisions) : id ∈ link.issued := by
  obtain ⟨call, sent, decided⟩ := List.mem_filterMap.mp marked
  -- of all calls only an accept of this peer marks
  cases call with
  | accept peerId =>
    rw [decision?] at decided
    split_ifs at decided with named
    obtain ⟨other, known, same⟩ := coherent.accepts peerId sent
    exact text_injective (named.symm.trans same) ▸ known
  | reject peerId =>
    rw [decision?] at decided
    split_ifs at decided
    cases decided
  | revokeToken => cases decided
  | sendSdp => cases decided
  | sendIce => cases decided

end Issued

/-! ### What the room does -/

section Room

variable {room : Room} {later : List Signal} {frames : List Value} {issued : List Uuid}

/-- What has to be seen to when the room has taken a step. -/
theorem Coherent.of_room (coherent : Coherent host link) (hosts : Hosts room host)
    (fewer : later ⊆ link.up) (more : link.issued ⊆ issued) (own : host.id ∉ issued)
    (guests : ∀ g ∈ room.guests, g.id ∈ issued)
    (notices : ∀ frame ∈ frames, IsNotice frame →
      ∃ id ∈ issued, (∃ msg, frame = Backend.pending id msg) ∨ frame = Backend.peerGone id) :
    Coherent host { link with
      room := room, up := later, down := link.down ++ frames, issued := issued } where
  hosts := hosts
  ws := coherent.ws
  own := own
  guests := guests
  entries p member := by
    obtain ⟨id, known, same⟩ := coherent.entries p member
    exact ⟨id, more known, same⟩
  distinct := coherent.distinct
  accepts peerId sent := by
    obtain ⟨id, known, same⟩ := coherent.accepts peerId (fewer sent)
    exact ⟨id, more known, same⟩
  rejects peerId sent := coherent.rejects peerId (fewer sent)
  frames frame member notice := by
    rcases List.mem_append.mp member with old | new
    · obtain ⟨id, known, same⟩ := coherent.frames frame old notice
      exact ⟨id, more known, same⟩
    · exact notices frame new notice

/-- The handshake behind a step of the room. -/
theorem view_room (id : Uuid) :
    view { link with room := room, up := later, down := link.down ++ frames, issued := issued } id =
      { link.view id with
        record := standing id room.guests
        decisions := later.filterMap (decision? id)
        leaving := link.Leaving id.text ∨ ∃ frame ∈ frames, Departs id.text frame } := by
  -- the room has no say in the mark
  ext
  · rfl
  · rfl
  · simp only [view, Leaving, List.mem_append, or_and_right, exists_or]
  · rfl

/-- Without notices nobody is reported to leave. -/
theorem leaving_of_silent {leaving : Prop} (id : Uuid)
    (silent : ∀ frame ∈ frames, ¬ IsNotice frame) :
    (leaving ∨ ∃ frame ∈ frames, Departs id.text frame) = leaving := by
  apply propext
  rw [or_iff_left]
  rintro ⟨frame, member, departs⟩
  exact silent frame member (isNotice_of_departs departs)

/-- The records stay as they are, and the sender hears no notice. -/
theorem Coherent.room_quiet (coherent : Coherent host link) (hosts : Hosts room host)
    (same : room.guests = link.room.guests) (silent : ∀ frame ∈ frames, ¬ IsNotice frame)
    (more : link.issued ⊆ issued) (own : host.id ∉ issued) :
    Moves host link { link with
      room := room, up := link.up, down := link.down ++ frames, issued := issued } := by
  constructor
  · apply coherent.of_room hosts (List.Subset.refl _) more own
    · rw [same]
      exact fun g member => more (coherent.guests g member)
    · exact fun frame member notice => absurd notice (silent frame member)
  · intro id
    rw [view_room, leaving_of_silent id silent, same]
    exact .stay

/-- A new guest knocks. -/
theorem Coherent.room_knock (coherent : Coherent host link) (hosts : Hosts room host)
    {g : PeerConn} (msg : Value) (added : room.guests = link.room.guests ++ [g])
    (unaccepted : g.accepted = false) (fresh : g.id ∉ link.issued) (other : host.id ≠ g.id) :
    Moves host link { link with
      room := room
      up := link.up
      down := link.down ++ [Backend.pending g.id msg]
      issued := g.id :: link.issued } := by
  have new : ∀ p ∈ link.room.guests, p.id ≠ g.id := fun p guest same =>
    fresh (same ▸ coherent.guests p guest)
  constructor
  · apply coherent.of_room hosts (List.Subset.refl _) (List.subset_cons_self _ _)
    · rw [List.mem_cons, not_or]
      exact ⟨other, coherent.own⟩
    · intro p member
      rw [added, List.mem_append, List.mem_singleton] at member
      rcases member with old | rfl
      · exact List.mem_cons_of_mem _ (coherent.guests p old)
      · exact List.mem_cons_self
    · intro frame member _
      obtain rfl := List.mem_singleton.mp member
      exact ⟨g.id, List.mem_cons_self, .inl ⟨msg, rfl⟩⟩
  · intro id
    have leaving : (link.Leaving id.text ∨
        ∃ frame ∈ [Backend.pending g.id msg], Departs id.text frame) = link.Leaving id.text := by
      simp [not_departs_pending]
    -- for its own handshake the guest enters, for all others nothing happens
    rw [view_room, leaving, added, Backend.standing_concat g new, unaccepted]
    by_cases here : g.id = id
    · subst here
      rw [if_pos rfl]
      apply Handshake.Step.enter
      · exact Backend.standing_eq_none.mpr new
      · exact fun marked => fresh (coherent.issued_of_mark marked)
      · exact fun departs => fresh (coherent.issued_of_leaving departs)
      · exact fun accepted => fresh (coherent.issued_of_accepts accepted)
    · rw [if_neg here]
      exact .stay

/-- The connection of a guest has ended. -/
theorem Coherent.room_gone (coherent : Coherent host link) (hosts : Hosts room host)
    {g : PeerConn} (guest : g ∈ link.room.guests)
    (left : room.guests = Backend.deletePeer g.id link.room.guests) :
    Moves host link { link with
      room := room
      up := link.up
      down := link.down ++ [Backend.peerGone g.id]
      issued := link.issued } := by
  constructor
  · apply coherent.of_room hosts (List.Subset.refl _) (List.Subset.refl _) coherent.own
    · intro p member
      rw [left] at member
      exact coherent.guests p (Backend.mem_deletePeer.mp member).1
    · intro frame member _
      obtain rfl := List.mem_singleton.mp member
      exact ⟨g.id, coherent.guests g guest, .inr rfl⟩
  · intro id
    rw [view_room, left, Backend.standing_deletePeer]
    -- for this guest the departure is under way, for the others nothing has changed
    by_cases here : g.id = id
    · subst here
      have leaving : (link.Leaving g.id.text ∨
          ∃ frame ∈ [Backend.peerGone g.id], Departs g.id.text frame) = True := by
        simp [departs_peerGone]
      rw [if_pos rfl, leaving]
      exact .leave
    · have leaving : (link.Leaving id.text ∨
          ∃ frame ∈ [Backend.peerGone g.id], Departs id.text frame) = link.Leaving id.text := by
        have different : id.text ≠ g.id.text := fun same => here (text_injective same).symm
        simp [departs_peerGone, different]
      rw [if_neg here, leaving]
      exact .stay

/-- The oldest frame of the sender has reached the room. -/
theorem Coherent.room_decided (coherent : Coherent host link) (hosts : Hosts room host)
    {call : Signal} (sent : link.up = call :: later)
    (silent : ∀ frame ∈ frames, ¬ IsNotice frame)
    (fewer : ∀ g ∈ room.guests, g.id ∈ link.issued)
    (record : ∀ id, standing id room.guests = (decision? id call).elim
      (standing id link.room.guests) (Handshake.apply (standing id link.room.guests))) :
    Moves host link { link with
      room := room, up := later, down := link.down ++ frames, issued := link.issued } := by
  constructor
  · apply coherent.of_room hosts _ (List.Subset.refl _) coherent.own fewer
    · exact fun frame member notice => absurd notice (silent frame member)
    · rw [sent]
      exact List.subset_cons_self _ _
  · intro id
    -- the decision is the oldest one under way, if the frame is one for this guest
    have underWay : (link.view id).decisions =
        (decision? id call).toList ++ later.filterMap (decision? id) := by
      rw [view, sent, List.filterMap_cons]
      cases decision? id call <;> rfl
    rw [view_room, leaving_of_silent id silent, record]
    cases decided : decision? id call with
    | none =>
      rw [decided] at underWay
      have same : later.filterMap (decision? id) = (link.view id).decisions := underWay.symm
      rw [same]
      exact .stay
    | some decision =>
      rw [decided] at underWay
      exact .arrive decision _ underWay

end Room

theorem Coherent.stay (coherent : Coherent host link) : Moves host link link :=
  ⟨coherent, fun _ => .stay⟩

/-! ### What the sender does -/

section Sender

variable {sender : Sender} {calls : List Signal} {later : List Value}

/-- What has to be seen to when the sender has taken a step. -/
theorem Coherent.of_sender (coherent : Coherent host link) (fewer : later ⊆ link.down)
    (entries : ∀ p ∈ sender.adm.peers, ∃ id ∈ link.issued, p.peerId = id.text)
    (distinct : sender.adm.Distinct)
    (accepts : ∀ peerId, .accept peerId ∈ calls → ∃ id ∈ link.issued, peerId = id.text)
    (rejects : ∀ peerId, .reject peerId ∈ calls → ∃ id, host.id ≠ id ∧ peerId = id.text) :
    Coherent host { link with sender := sender, up := link.up ++ calls, down := later } where
  hosts := coherent.hosts
  ws := coherent.ws
  own := coherent.own
  guests := coherent.guests
  entries := entries
  distinct := distinct
  accepts peerId sent := by
    rcases List.mem_append.mp sent with old | new
    · exact coherent.accepts peerId old
    · exact accepts peerId new
  rejects peerId sent := by
    rcases List.mem_append.mp sent with old | new
    · exact coherent.rejects peerId old
    · exact rejects peerId new
  frames frame member := coherent.frames frame (fewer member)

/-- The handshake behind a step of the sender. -/
theorem view_sender (id : Uuid) :
    view { link with sender := sender, up := link.up ++ calls, down := later } id =
      { link.view id with
        decisions := (link.view id).decisions ++ calls.filterMap (decision? id)
        leaving := ∃ frame ∈ later, Departs id.text frame
        marked := sender.adm.Accepts id.text } := by
  ext
  · rfl
  · rw [view, List.filterMap_append]
    rfl
  · rfl
  · rfl

/-- The frames that are left tell of the same departures. -/
def SameDepartures (link : Link) (later : List Value) : Prop :=
  ∀ id : Uuid, (∃ frame ∈ later, Departs id.text frame) ↔ link.Leaving id.text

/-- The entries stay as they are, and the sender decides nothing. -/
theorem Coherent.sender_quiet (coherent : Coherent host link) (fewer : later ⊆ link.down)
    (same : SameDepartures link later) (peers : sender.adm.peers = link.sender.adm.peers)
    (exchange : ∀ call ∈ calls, Sender.IsExchange call) :
    Moves host link { link with sender := sender, up := link.up ++ calls, down := later } := by
  have undecided (id : Uuid) : calls.filterMap (decision? id) = [] := by
    rw [List.filterMap_eq_nil_iff]
    intro call said
    have kind := exchange call said
    cases call with
    | sendSdp => rfl
    | sendIce => rfl
    | _ => exact kind.elim
  constructor
  · apply coherent.of_sender fewer
    · rw [peers]
      exact coherent.entries
    · rw [Admission.Distinct, peers]
      exact coherent.distinct
    · exact fun peerId said => (exchange _ said).elim
    · exact fun peerId said => (exchange _ said).elim
  · intro id
    rw [view_sender, undecided, List.append_nil, Admission.Accepts, peers, propext (same id)]
    exact .stay

theorem Coherent.guest_of_lists (coherent : Coherent host link) {peerId : Bytes}
    (listed : link.sender.adm.Lists peerId) :
    ∃ id ∈ link.issued, host.id ≠ id ∧ peerId = id.text := by
  obtain ⟨p, member, rfl⟩ := listed
  obtain ⟨id, known, same⟩ := coherent.entries p member
  exact ⟨id, known, fun equal => coherent.own (equal ▸ known), same⟩

/-- Setting a state changes no identifiers. -/
theorem Coherent.entries_of_set (coherent : Coherent host link) {peerId : Bytes}
    {newState : PeerState} {pin : Bool}
    (set : sender.adm = (link.sender.adm.setPeerState peerId newState pin).1) :
    (∀ p ∈ sender.adm.peers, ∃ id ∈ link.issued, p.peerId = id.text) ∧ sender.adm.Distinct := by
  have names : sender.adm.peers.map (·.peerId) = link.sender.adm.peers.map (·.peerId) := by
    rw [set, Admission.map_peerId_setPeerState]
  constructor
  · -- the identifiers stay, since only states change
    intro p member
    have listed := List.mem_map_of_mem (f := fun p : Peer => p.peerId) member
    rw [names] at listed
    obtain ⟨q, old, same⟩ := List.mem_map.mp listed
    obtain ⟨id, known, named⟩ := coherent.entries q old
    exact ⟨id, known, same.symm.trans named⟩
  · rw [Admission.Distinct, names]
    exact coherent.distinct

/-- Closing an entry takes an acceptance away, and no other. -/
theorem Coherent.accepts_of_close (coherent : Coherent host link) {peerId : Bytes}
    {newState : PeerState} {pin : Bool} (closes : newState ≠ .accepted)
    (set : sender.adm = (link.sender.adm.setPeerState peerId newState pin).1) (one : Bytes) :
    sender.adm.Accepts one ↔ one ≠ peerId ∧ link.sender.adm.Accepts one := by
  rw [set, Admission.accepts_setPeerState coherent.distinct]
  split_ifs with here
  · exact iff_of_false (fun both => closes both.1) fun both => both.1 here
  · exact (and_iff_right here).symm

/-- The sender closes an entry and tells the room. -/
theorem Coherent.sender_drop (coherent : Coherent host link) {id : Uuid} (other : host.id ≠ id)
    (newState : PeerState) (pin : Bool) (closes : newState ≠ .accepted)
    (set : sender.adm = (link.sender.adm.setPeerState id.text newState pin).1) :
    Moves host link { link with
      sender := sender, up := link.up ++ [.reject id.text], down := link.down } := by
  obtain ⟨entries, distinct⟩ := coherent.entries_of_set set
  constructor
  · apply coherent.of_sender (List.Subset.refl _) entries distinct
    · intro peerId said
      simp at said
    · intro peerId said
      obtain rfl : peerId = id.text := by simpa using said
      exact ⟨id, other, rfl⟩
  · intro one
    rw [view_sender, propext (coherent.accepts_of_close closes set one.text)]
    by_cases here : one.text = id.text
    · have decided : [Signal.reject id.text].filterMap (decision? one) = [.drop] := by
        simp [decision?, here]
      rw [decided, eq_false fun both : one.text ≠ id.text ∧ _ => both.1 here]
      exact .drop
    · have undecided : [Signal.reject id.text].filterMap (decision? one) = [] := by
        simp [decision?, Ne.symm here]
      rw [undecided, List.append_nil, propext (and_iff_right here)]
      exact .stay

/-- The sender closes an entry and does not tell the room. -/
theorem Coherent.sender_unmark (coherent : Coherent host link) (fewer : later ⊆ link.down)
    {peerId : Bytes} (newState : PeerState) (pin : Bool) (closes : newState ≠ .accepted)
    (set : sender.adm = (link.sender.adm.setPeerState peerId newState pin).1)
    (known : link.sender.adm.Accepts peerId → link.Leaving peerId)
    (others : ∀ id : Uuid, id.text ≠ peerId →
      ((∃ frame ∈ later, Departs id.text frame) ↔ link.Leaving id.text)) :
    Moves host link { link with sender := sender, up := link.up ++ [], down := later } := by
  obtain ⟨entries, distinct⟩ := coherent.entries_of_set set
  constructor
  · apply coherent.of_sender fewer entries distinct
    · exact fun one said => absurd said List.not_mem_nil
    · exact fun one said => absurd said List.not_mem_nil
  · intro one
    rw [view_sender, propext (coherent.accepts_of_close closes set one.text), List.filterMap_nil,
      List.append_nil]
    by_cases here : one.text = peerId
    · subst here
      rw [eq_false fun both : one.text ≠ one.text ∧ _ => both.1 rfl]
      apply Handshake.Step.unmark known
      rintro ⟨frame, member, departs⟩
      exact ⟨frame, fewer member, departs⟩
    · rw [propext (and_iff_right here), propext (others one here)]
      exact .stay

/-- Whoever survives is going to have a record, or is known to leave. -/
theorem kept_of_survives {id : Uuid} (survives : link.Survives id.text) :
    (link.view id).settled ≠ none ∨ (link.view id).leaving := by
  -- nothing under way drops the record, or there is nothing to keep
  rcases survives with ⟨g, guest, named, notRejected, notRevoked⟩ | leaving
  · left
    apply Handshake.foldl_apply_ne_none
    · intro dropped
      obtain ⟨call, sent, decided⟩ := List.mem_filterMap.mp dropped
      cases call with
      | accept peerId =>
        rw [decision?] at decided
        split_ifs at decided
        cases decided
      | reject peerId =>
        rw [decision?] at decided
        split_ifs at decided with same
        exact notRejected (same ▸ sent)
      | revokeToken => exact notRevoked sent
      | sendSdp => cases decided
      | sendIce => cases decided
    · intro absent
      exact Backend.standing_eq_none.mp absent g guest (text_injective named)
  · exact .inr leaving

/-- The sender accepts somebody it has an entry of. -/
theorem Coherent.sender_accept (coherent : Coherent host link) {peerId : Bytes} {pin : Bool}
    (listed : link.sender.adm.Lists peerId) (survives : link.Survives peerId)
    (set : sender.adm = (link.sender.adm.setPeerState peerId .accepted pin).1) :
    Moves host link { link with
      sender := sender, up := link.up ++ [.accept peerId], down := link.down } := by
  obtain ⟨entries, distinct⟩ := coherent.entries_of_set set
  obtain ⟨id, known, -, rfl⟩ := coherent.guest_of_lists listed
  constructor
  · apply coherent.of_sender (List.Subset.refl _) entries distinct
    · intro one said
      obtain rfl : one = id.text := by simpa using said
      exact ⟨id, known, rfl⟩
    · intro one said
      simp at said
  · intro one
    -- the entry is marked and the frame is under way, at the same time
    have marked : sender.adm.Accepts one.text ↔
        if one.text = id.text then PeerState.accepted = .accepted ∧ link.sender.adm.Lists id.text
        else link.sender.adm.Accepts one.text := by
      rw [set, Admission.accepts_setPeerState coherent.distinct]
    rw [view_sender, propext marked]
    by_cases here : one.text = id.text
    · obtain rfl := text_injective here
      have decided : [Signal.accept one.text].filterMap (decision? one) = [.mark] := by
        simp [decision?]
      have accepted : PeerState.accepted = .accepted ∧ link.sender.adm.Lists one.text :=
        ⟨rfl, listed⟩
      rw [decided, if_pos rfl, eq_true accepted]
      exact .mark (kept_of_survives survives)
    · have undecided : [Signal.accept id.text].filterMap (decision? one) = [] := by
        simp [decision?, Ne.symm here]
      rw [undecided, List.append_nil, if_neg here]
      exact .stay

/-- The sender revokes the token. -/
theorem Coherent.sender_revoke (coherent : Coherent host link)
    (revoked : sender.adm = link.sender.adm.revokeAll) :
    Moves host link { link with
      sender := sender, up := link.up ++ [.revokeToken], down := link.down } := by
  constructor
  · apply coherent.of_sender (List.Subset.refl _)
    · intro p member
      rw [revoked] at member
      obtain ⟨q, old, rfl⟩ := List.mem_map.mp member
      exact coherent.entries q old
    · rw [revoked, Admission.Distinct, Admission.revokeAll, List.map_map]
      exact coherent.distinct
    · intro one said
      simp at said
    · intro one said
      simp at said
  · intro one
    rw [view_sender, revoked, eq_false Admission.not_accepts_revokeAll]
    exact .drop

/-- A knock gets an entry, and is let in or not. -/
theorem Coherent.sender_knock (coherent : Coherent host link) (fewer : later ⊆ link.down)
    (same : SameDepartures link later) {id : Uuid} (issued : id ∈ link.issued) {p : Peer}
    (named : p.peerId = id.text) (new : ¬ link.sender.adm.Lists id.text)
    (added : sender.adm.peers = link.sender.adm.peers ++ [p])
    (survives : p.state = .accepted → link.Survives id.text)
    (said : calls = if p.state = .accepted then [.accept id.text] else []) :
    Moves host link { link with sender := sender, up := link.up ++ calls, down := later } := by
  constructor
  · apply coherent.of_sender fewer
    · intro q member
      rw [added, List.mem_append, List.mem_singleton] at member
      rcases member with old | rfl
      · exact coherent.entries q old
      · exact ⟨id, issued, named⟩
    · -- the identifier of the new entry was in none before
      rw [Admission.Distinct, added, List.map_append, List.map_singleton, named]
      apply List.Nodup.append coherent.distinct (List.nodup_singleton _)
      rw [List.disjoint_singleton]
      intro listed
      obtain ⟨q, member, same⟩ := List.mem_map.mp listed
      exact new ⟨q, member, same⟩
    · intro peerId sent
      rw [said] at sent
      split_ifs at sent
      · obtain rfl : peerId = id.text := by simpa using sent
        exact ⟨id, issued, rfl⟩
      · cases sent
    · intro peerId sent
      rw [said] at sent
      split_ifs at sent
      · simp at sent
      · cases sent
  · intro one
    have marked : sender.adm.Accepts one.text ↔
        link.sender.adm.Accepts one.text ∨ p.state = .accepted ∧ one.text = id.text := by
      simp only [Admission.Accepts, added, List.mem_append, List.mem_singleton, or_and_right,
        exists_or, exists_eq_left, named]
      rw [and_comm, @eq_comm _ id.text]
    rw [view_sender, propext (same one), propext marked, said]
    -- a pin lets the peer in at once, and the room is told
    by_cases state : p.state = .accepted
    · rw [if_pos state]
      by_cases here : one.text = id.text
      · obtain rfl := text_injective here
        have decided : [Signal.accept one.text].filterMap (decision? one) = [.mark] := by
          simp [decision?]
        have accepted : link.sender.adm.Accepts one.text ∨
            p.state = .accepted ∧ one.text = one.text := .inr ⟨state, rfl⟩
        rw [decided, eq_true accepted]
        exact .mark (kept_of_survives (survives state))
      · have undecided : [Signal.accept id.text].filterMap (decision? one) = [] := by
          simp [decision?, Ne.symm here]
        rw [undecided, List.append_nil, propext (or_iff_left fun both => here both.2)]
        exact .stay
    · rw [if_neg state, List.filterMap_nil, List.append_nil,
        propext (or_iff_left fun both => state both.1)]
      exact .stay

end Sender

end Tether.EndToEnd.Link
