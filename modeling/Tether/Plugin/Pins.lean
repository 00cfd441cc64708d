import Tether.Plugin.Capacity

/-!
# Pins

An entry that has been accepted with a pin keeps it. The calls that end a peer's
session set its state and leave the pin alone, so it goes on vouching for whoever
announces the entry's fingerprint.

## Main definitions

* `Admission.Kick` — a call that ends a peer's session
* `Admission.PinWithdrawn` — no test of the store relies on a peer's entry

## Main results

* `findPeer_perform` — a peer's entry stays its entry
* `kick_keeps_pin` — no kick withdraws a pin
-/

namespace Tether.Plugin

open Text Semantics

namespace Admission

/-! ### The entry of a peer -/

/-- A peer's entry stays the one that is found. -/
theorem findPeer_perform {adm : Admission} {peerId : Bytes} {p : Peer}
    (found : adm.findPeer peerId = some p) (op : Op) :
    ∃ q, (adm.perform op).1.findPeer peerId = some q ∧ op.Changes p q := by
  rw [findPeer, List.find?_eq_some_iff_getElem] at found
  obtain ⟨named, n, within, rfl, first⟩ := found
  obtain ⟨q, after, changes⟩ := adm.entry_kept op (List.getElem?_eq_getElem within)
  refine ⟨q, ?_, changes⟩
  obtain ⟨within', rfl⟩ := List.getElem?_eq_some_iff.mp after
  rw [findPeer, List.find?_eq_some_iff_getElem]
  refine ⟨?_, n, within', rfl, fun m before => ?_⟩
  · rw [changes.texts.1]
    exact named
  · -- the entries in front keep their identifiers, too
    obtain ⟨r, kept, changed⟩ :=
      adm.entry_kept op (List.getElem?_eq_getElem (Nat.lt_trans before within))
    obtain ⟨_, rfl⟩ := List.getElem?_eq_some_iff.mp kept
    rw [changed.texts.1]
    exact first m before

theorem find?_updateFirst {peerId : Bytes} {peers : List Peer} {p : Peer}
    (found : peers.find? (·.peerId = peerId) = some p) {f : Peer → Peer}
    (named : ∀ q, (f q).peerId = q.peerId) :
    (updateFirst peerId f peers).find? (·.peerId = peerId) = some (f p) := by
  induction peers with
  | nil => cases found
  | cons first rest ih =>
    rw [updateFirst]
    by_cases here : first.peerId = peerId
    · obtain rfl : first = p := by simpa [here] using found
      rw [if_pos here, List.find?_cons_of_pos (by simpa [named] using here)]
    · rw [List.find?_cons_of_neg (by simpa using here)] at found
      rw [if_neg here, List.find?_cons_of_neg (by simpa using here), ih found]

/-- An acceptance with a pin pins the entry. -/
theorem findPeer_accept {adm : Admission} {peerId : Bytes} {p : Peer}
    (found : adm.findPeer peerId = some p) :
    (adm.perform (.accept peerId true)).1.findPeer peerId = some (p.set .accepted true) := by
  rw [perform, accept, setPeerState, found]
  exact find?_updateFirst found fun _ => rfl

theorem Op.Changes.pinned {op : Op} {p q : Peer} (changes : op.Changes p q) (pinned : p.pinned) :
    q.pinned := by
  cases changes with
  | kept => exact pinned
  | _ => simp [Peer.set, pinned]

/-- A pin lasts. -/
theorem pinned_run {adm : Admission} {peerId : Bytes} {p : Peer}
    (found : adm.findPeer peerId = some p) (pinned : p.pinned) (ops : List Op) :
    ∃ q, (run next adm ops).findPeer peerId = some q ∧ q.pinned ∧
      q.fingerprint = p.fingerprint := by
  induction ops generalizing adm p with
  | nil => exact ⟨p, found, pinned, rfl⟩
  | cons op ops ih =>
    obtain ⟨q, kept, changes⟩ := findPeer_perform found op
    obtain ⟨r, last, pin, same⟩ := ih kept (changes.pinned pinned)
    exact ⟨r, last, pin, same.trans changes.texts.2⟩

/-! ### Kicks -/

/-- The calls that end a peer's session. -/
inductive Kick
  | disconnect
  | reject
  | revoke
  deriving DecidableEq

def Kick.op (peerId : Bytes) : Kick → Op
  | disconnect => .disconnectPeer peerId
  | reject => .reject peerId
  | revoke => .revokeAll

/-- The entry vouches for this fingerprint when a peer knocks. -/
def Vouches (adm : Admission) (p : Peer) (fingerprint : Bytes) : Prop :=
  adm.cfg.autoAcceptPinned ∧ p.pinned ∧ p.fingerprint = fingerprint

/-- The peer's entry lets nobody in and verifies nothing. -/
structure PinWithdrawn (adm : Admission) (peerId : Bytes) : Prop where
  knocks : ∀ p, adm.findPeer peerId = some p → ∀ fingerprint, ¬ adm.Vouches p fingerprint
  verify : ∀ fingerprint, adm.verifyPinned peerId fingerprint = false

/-- Whoever announces a fingerprint that an entry vouches for and gets an entry is
accepted at once. -/
theorem accepted_of_vouches {adm : Admission} {p : Peer} (member : p ∈ adm.peers)
    {fingerprint : Bytes} (vouches : adm.Vouches p fingerprint) {knocker name : Bytes}
    {now : UInt64} {q : Peer} (entered : (adm.addPending knocker name fingerprint now).2 = some q) :
    q.state = .accepted := by
  obtain ⟨-, ⟨-, silent⟩ | ⟨-, told, -⟩⟩ := adm.addPending_cases knocker name fingerprint now
  · rw [silent] at entered
    cases entered
  · obtain rfl := Option.some.inj (told.symm.trans entered)
    have matches_ : adm.pinMatches fingerprint :=
      List.any_eq_true.mpr ⟨p, member, by simpa using vouches.2⟩
    exact knockedPeer_accepted.mpr (by simpa using ⟨vouches.1, matches_⟩)

section Kicked

variable (cfg : AdmissionConfig) (before : List Op) (peerId : Bytes) (between : List Op)
  (kick : Kick) (later : List Op)

/-- The store after a history in which the peer has been accepted with a pin and then
kicked. -/
def kicked : Admission :=
  after cfg (before ++ .accept peerId true :: (between ++ kick.op peerId :: later))

/-- A peer that has been accepted with a pin and is kicked keeps its pin, whatever
follows: its fingerprint is still verified, and where pins let peers in, it still
lets in whoever announces it. -/
theorem kick_keeps_pin (known : (after cfg before).findPeer peerId ≠ none) :
    ¬ PinWithdrawn (kicked cfg before peerId between kick later) peerId ∧
    ∃ p, (kicked cfg before peerId between kick later).findPeer peerId = some p ∧
      (kicked cfg before peerId between kick later).verifyPinned peerId p.fingerprint ∧
      (cfg.autoAcceptPinned → ∀ knocker name now q,
        ((kicked cfg before peerId between kick later).addPending knocker name p.fingerprint
          now).2 = some q → q.state = .accepted) := by
  obtain ⟨p, found⟩ := Option.ne_none_iff_exists'.mp known
  have split : kicked cfg before peerId between kick later =
      run next ((after cfg before).perform (.accept peerId true)).1
        (between ++ kick.op peerId :: later) := by
    rw [kicked, after, run_append, run_cons]
    rfl
  -- no call that follows takes the pin back
  obtain ⟨q, last, pinned, same⟩ := pinned_run (findPeer_accept found) (by simp [Peer.set])
    (between ++ kick.op peerId :: later)
  rw [← split] at last
  have verified : (kicked cfg before peerId between kick later).verifyPinned peerId
      q.fingerprint := by
    rw [verifyPinned, last, Option.any_some]
    simpa using pinned
  refine ⟨fun withdrawn => ?_, q, last, verified, fun configured knocker name now r entered => ?_⟩
  · rw [withdrawn.verify] at verified
    cases verified
  · have member : q ∈ (kicked cfg before peerId between kick later).peers :=
      List.mem_of_find?_eq_some last
    refine accepted_of_vouches member ⟨?_, pinned, rfl⟩ entered
    rw [kicked, cfg_after]
    exact configured

end Kicked

/-! ### A sample -/

/-- The defaults, with pins that let peers in. -/
def pinningConfig : AdmissionConfig where
  maxReceivers := 0
  rateLimitWindowSeconds := 0
  rateLimitMaxAttempts := 0
  lockoutSeconds := 0
  autoAcceptPinned := true

/-- A peer knocks with a fingerprint. -/
def firstKnock : Op := .addPending (bytes "a") [] (bytes "sha-256 AA") 0

/-- The pin of the sample is not withdrawn. -/
theorem kick_keeps_pin_disconnected :
    ¬ PinWithdrawn (kicked pinningConfig [firstKnock] (bytes "a") [] .disconnect []) (bytes "a") :=
  (kick_keeps_pin pinningConfig [firstKnock] (bytes "a") [] .disconnect [] (by decide)).1

/-- The disconnected peer is let in again under another identifier, and its
fingerprint is still verified. -/
theorem disconnected_peer_returns :
    ((kicked pinningConfig [firstKnock] (bytes "a") [] .disconnect []).addPending (bytes "b") []
      (bytes "sha-256 AA") 1).2.map (·.state) = some .accepted ∧
    (kicked pinningConfig [firstKnock] (bytes "a") [] .disconnect []).verifyPinned (bytes "a")
      (bytes "sha-256 AA") := by
  decide

end Admission

end Tether.Plugin
