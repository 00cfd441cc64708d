import Mathlib.Data.List.Count
import Tether.Plugin.Admission

/-!
# The receiver cap

The cap is compared with the number of accepted entries when a peer knocks, and
at no other time. Peers that knocked while there was room can all be accepted
later, so the cap holds exactly along the runs whose acceptances find room
themselves.

## Main definitions

* `Admission.FindsRoom` — a call accepts no further entry of a full store

## Main results

* `capped_iff` — the accepted entries stay within the cap along a run if and
  only if every call of the run finds room
* `two_accepted` — a cap of one, and two accepted entries
-/

namespace Tether.Plugin.Admission

open Text Semantics

/-! ### Counting -/

/-- Replacing an entry moves it from its old state to its new one. -/
theorem countP_updateFirst {peerId : Bytes} {peers : List Peer} {p : Peer}
    (found : peers.find? (·.peerId = peerId) = some p) (f : Peer → Peer) (holds : Peer → Bool) :
    (updateFirst peerId f peers).countP holds + (if holds p then 1 else 0) =
      peers.countP holds + (if holds (f p) then 1 else 0) := by
  induction peers with
  | nil => simp at found
  | cons first rest ih =>
    rw [updateFirst]
    by_cases named : first.peerId = peerId
    · obtain rfl : first = p := by simpa [named] using found
      rw [if_pos named, List.countP_cons, List.countP_cons]
      omega
    · have later : rest.find? (·.peerId = peerId) = some p := by simpa [named] using found
      rw [if_neg named, List.countP_cons, List.countP_cons]
      have moved := ih later
      omega

section Count

variable (adm : Admission) (peerId displayName fingerprint : Bytes)

/-- A knock that is let in at once takes a slot; any other call of this kind
leaves the number as it is. -/
theorem count_addPending (now : UInt64) :
    (adm.addPending peerId displayName fingerprint now).1.count .accepted =
        adm.count .accepted ∨
      (adm.addPending peerId displayName fingerprint now).1.count .accepted =
          adm.count .accepted + 1 ∧
        adm.count .accepted < adm.cfg.maxReceivers := by
  -- a knock that gets an entry has found room
  obtain ⟨-, ⟨same, -⟩ | ⟨added, -, -, below⟩⟩ :=
    adm.addPending_cases peerId displayName fingerprint now
  · left
    rw [count, same, count]
  · rw [count, added, List.countP_append, List.countP_singleton]
    split_ifs
    · exact .inr ⟨rfl, below⟩
    · exact .inl rfl

variable (pin : Bool)

/-- An acceptance takes a slot, unless the entry has one already. -/
theorem count_accept {p : Peer} (found : adm.findPeer peerId = some p) :
    (adm.accept peerId pin).1.count .accepted =
      adm.count .accepted + (if p.state = .accepted then 0 else 1) := by
  have moved := countP_updateFirst found (Peer.set .accepted pin)
    fun q => decide (q.state = .accepted)
  rw [accept, setPeerState, found]
  simp only [count, Peer.set, decide_true, if_true] at moved ⊢
  split_ifs with already
  · simp only [already, decide_true, if_true] at moved
    omega
  · simp only [already, decide_false, Bool.false_eq_true, if_false] at moved
    omega

/-- Any other state takes no slot. -/
theorem count_setPeerState {newState : PeerState} (other : newState ≠ .accepted) :
    (adm.setPeerState peerId newState pin).1.count .accepted ≤ adm.count .accepted := by
  obtain ⟨-, same⟩ | ⟨p, found, changed⟩ := adm.setPeerState_cases peerId newState pin
  · exact Int.le_of_eq (by rw [same])
  · have moved := countP_updateFirst found (Peer.set newState pin)
      fun q => decide (q.state = .accepted)
    rw [changed]
    simp only [count, Peer.set, other, decide_false, Bool.false_eq_true, if_false] at moved ⊢
    omega

theorem count_revokeAll : adm.revokeAll.count .accepted = 0 := by
  simp [count, revokeAll, List.countP_eq_zero]

end Count

/-! ### The cap along a run -/

/-- The call accepts no further entry of a store that is full already. -/
def FindsRoom (adm : Admission) : Op → Prop
  | .accept peerId _ => ∀ p ∈ adm.findPeer peerId,
      p.state = .accepted ∨ adm.count .accepted < adm.cfg.maxReceivers
  | _ => True

instance (adm : Admission) (op : Op) : Decidable (adm.FindsRoom op) := by
  cases op with
  | accept => exact inferInstanceAs (Decidable (∀ _ ∈ _, _))
  | _ => exact instDecidableTrue

/-- The number of accepted entries is within the cap. -/
def Capped (adm : Admission) : Prop := adm.count .accepted ≤ adm.cfg.maxReceivers

theorem cfg_next (adm : Admission) (op : Op) : (adm.next op).cfg = adm.cfg := by
  have set (peerId : Bytes) (newState : PeerState) (pin : Bool) :
      (adm.setPeerState peerId newState pin).1.cfg = adm.cfg := by
    obtain ⟨-, same⟩ | ⟨_, -, changed⟩ := adm.setPeerState_cases peerId newState pin
    · rw [same]
    · rw [changed]
  cases op with
  | addPending peerId displayName fingerprint now =>
    exact (adm.addPending_cases peerId displayName fingerprint now).1
  | accept peerId pin => exact set peerId .accepted pin
  | reject peerId => exact set peerId .rejected false
  | disconnectPeer peerId => exact set peerId .disconnected false
  | revokeAll => rfl

/-- One call keeps within the cap exactly if it finds room. -/
theorem capped_next_iff {adm : Admission} (capped : adm.Capped) (op : Op) :
    (adm.next op).Capped ↔ adm.FindsRoom op := by
  rw [Capped] at capped
  rw [Capped, cfg_next]
  have lower {fewer : ℤ} (le : fewer ≤ adm.count .accepted) : fewer ≤ adm.cfg.maxReceivers :=
    Int.le_trans le capped
  cases op with
  | addPending peerId displayName fingerprint now =>
    refine iff_of_true ?_ trivial
    obtain same | ⟨more, below⟩ := adm.count_addPending peerId displayName fingerprint now
    · exact lower (Int.le_of_eq same)
    · rw [next, perform, more]
      omega
  | accept peerId pin =>
    rw [FindsRoom]
    cases found : adm.findPeer peerId with
    | none =>
      -- an acceptance of nobody changes nothing
      have same : adm.next (.accept peerId pin) = adm := by
        rw [next, perform, accept, setPeerState, found]
      exact iff_of_true (by rwa [same]) (by simp)
    | some p =>
      rw [next, perform, adm.count_accept peerId pin found]
      simp only [Option.mem_some_iff, forall_eq']
      -- an acceptance of an accepted entry takes no slot, and any other takes one unasked
      by_cases already : p.state = .accepted
      · exact iff_of_true (by rw [if_pos already]; omega) (.inl already)
      · rw [if_neg already]
        constructor
        · intro within
          exact .inr (by omega)
        · rintro (accepted | below)
          · exact absurd accepted already
          · omega
  | reject peerId => exact iff_of_true (lower (adm.count_setPeerState _ _ (by simp))) trivial
  | disconnectPeer peerId =>
    exact iff_of_true (lower (adm.count_setPeerState _ _ (by simp))) trivial
  | revokeAll =>
    refine iff_of_true (lower ?_) trivial
    rw [next, perform, count_revokeAll]
    exact Int.natCast_nonneg _

theorem positiveOr_pos {fallback : ℤ} (positive : 0 < fallback) (value : ℤ) :
    0 < positiveOr fallback value := by
  rw [positiveOr]
  split_ifs <;> omega

theorem cfg_after (cfg : AdmissionConfig) (ops : List Op) :
    (after cfg ops).cfg = (create cfg).cfg := by
  induction ops using List.reverseRecOn with
  | nil => rfl
  | append_singleton before op ih => rw [after_concat, cfg_next, ih]

/-- Along a run, the accepted entries are never more than the effective cap if
and only if every call finds room. -/
theorem capped_iff (cfg : AdmissionConfig) (ops : List Op) :
    (∀ before later, ops = before ++ later →
        (after cfg before).count .accepted ≤ Admission.positiveOr 4 cfg.maxReceivers) ↔
      EveryStep (fun before op => (after cfg before).FindsRoom op) ops := by
  have cap (before : List Op) : (after cfg before).Capped ↔
      (after cfg before).count .accepted ≤ Admission.positiveOr 4 cfg.maxReceivers := by
    rw [Capped, cfg_after]
    rfl
  simp only [← cap]
  apply always_iff_everyStep (fun ops => (after cfg ops).Capped)
  · exact Int.le_of_lt (positiveOr_pos (by decide) _)
  · intro before op within finds
    rw [after_concat]
    exact (capped_next_iff within op).mpr finds
  · exact fun ops within => within
  · intro before op here within
    rw [after_concat] at within
    exact (capped_next_iff here op).mp within

/-! ### Two acceptances under a cap of one -/

/-- Two peers knock while nobody is accepted, and both are accepted. -/
def crowdedOps : List Op :=
  [.addPending (bytes "p1") [] [] 0, .addPending (bytes "p2") [] [] 0,
    .accept (bytes "p1") false, .accept (bytes "p2") false]

/-- The second acceptance does not look at the cap. -/
theorem two_accepted : (after ⟨1, 60, 10, 300, true⟩ crowdedOps).cfg.maxReceivers = 1 ∧
    (after ⟨1, 60, 10, 300, true⟩ crowdedOps).count .accepted = 2 := by
  decide +kernel

end Tether.Plugin.Admission
