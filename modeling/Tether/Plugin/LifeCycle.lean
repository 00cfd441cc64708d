import Tether.Plugin.Sender

/-!
# The life cycle of an entry

The store sets whatever state it is asked for. An entry that was closed stays
closed until the user accepts its peer again, and that acceptance works like the
first one: the failed row of the dialog keeps its button for this.

## Main definitions

* `Peer.IsClosed` — rejected, revoked or disconnected

## Main results

* `closed_until_accepted` — only an acceptance reopens an entry, and it opens a
  session again
* `accept_reopens` — an entry that was disconnected and then accepted
-/

namespace Tether.Plugin

open Text Semantics

/-- The entry has been rejected, revoked or disconnected. -/
def Peer.IsClosed (p : Peer) : Prop :=
  p.state = .rejected ∨ p.state = .revoked ∨ p.state = .disconnected

namespace Admission

/-- A call makes an entry pending never, and accepted only if it accepts it. -/
theorem Op.Changes.state {op : Op} {p q : Peer} (changes : op.Changes p q) :
    q.state = p.state ∨ q.state ≠ .pending ∧
      (q.state = .accepted → ∃ pin, op = .accept p.peerId pin) := by
  cases changes with
  | kept => exact .inl rfl
  | accepted _ pin => exact .inr ⟨by simp [Peer.set], fun _ => ⟨pin, rfl⟩⟩
  | rejected => exact .inr ⟨by simp [Peer.set], by simp [Peer.set]⟩
  | disconnected => exact .inr ⟨by simp [Peer.set], by simp [Peer.set]⟩
  | revoked => exact .inr ⟨by simp [Peer.set], by simp [Peer.set]⟩

/-- What later calls make of an entry that is closed. -/
theorem closed_entry (cfg : AdmissionConfig) {earlier : List Op} {n : ℕ} {p : Peer}
    (entry : (after cfg earlier).peers[n]? = some p) (closed : p.IsClosed) (later : List Op) :
    ∃ q, (after cfg (earlier ++ later)).peers[n]? = some q ∧ q.peerId = p.peerId ∧
      q.state ≠ .pending ∧ (q.state = .accepted → ∃ pin, .accept p.peerId pin ∈ later) := by
  induction later using List.reverseRecOn with
  | nil =>
    refine ⟨p, by rwa [List.append_nil], rfl, ?_, ?_⟩
    · rcases closed with state | state | state <;> simp [state]
    · rcases closed with state | state | state <;> simp [state]
  | append_singleton later op ih =>
    obtain ⟨q, old, named, notPending, reopened⟩ := ih
    obtain ⟨q', new, changes⟩ := entry_kept _ op old
    rw [← List.append_assoc, after_concat]
    refine ⟨q', new, changes.texts.1.trans named, ?_⟩
    obtain same | ⟨notPending', accepts⟩ := changes.state
    · rw [same]
      refine ⟨notPending, fun accepted => ?_⟩
      obtain ⟨pin, member⟩ := reopened accepted
      exact ⟨pin, List.mem_append_left _ member⟩
    · refine ⟨notPending', fun accepted => ?_⟩
      obtain ⟨pin, rfl⟩ := accepts accepted
      exact ⟨pin, by simp [named]⟩

end Admission

namespace Sender

open Admission (Op)

/-- An entry that is closed never becomes pending again, and accepted only by a
call that accepts its peer. That call takes effect: the entry is accepted, the
acceptance is sent, and a session is opened if the connection can be created. -/
theorem closed_until_accepted :
    (∀ (cfg : AdmissionConfig) (earlier later : List Op) (n : ℕ) (p : Peer),
      (Admission.after cfg earlier).peers[n]? = some p → p.IsClosed →
      ∃ q, (Admission.after cfg (earlier ++ later)).peers[n]? = some q ∧
        q.peerId = p.peerId ∧ q.state ≠ .pending ∧
        (q.state = .accepted → ∃ pin, Op.accept p.peerId pin ∈ later)) ∧
    ∀ (s : Sender) (p : Peer) pin connected, s.adm.findPeer p.peerId = some p →
      p.set .accepted pin ∈ (s.next (.accept p.peerId pin connected)).adm.peers ∧
      .signal (.accept p.peerId) ∈ (s.handle (.accept p.peerId pin connected)).2 ∧
      ∀ trackIds, connected = some trackIds →
        (s.next (.accept p.peerId pin connected)).sessions =
          s.sessions ++ [s.newSession p.peerId trackIds] := by
  refine ⟨fun cfg earlier later n p entry closed =>
    Admission.closed_entry cfg entry closed later, ?_⟩
  intro s p pin connected found
  have performed : s.adm.perform (.accept p.peerId pin) =
      ({ s.adm with peers := Admission.updateFirst p.peerId (Peer.set .accepted pin) s.adm.peers },
        some (p.set .accepted pin)) := by
    rw [Admission.perform, Admission.accept, Admission.setPeerState, found]
  refine ⟨?_, ?_, ?_⟩
  · rw [next, handle, callAdmission_adm, performed]
    exact Admission.mem_updateFirst found _
  · rw [handle, callAdmission, performed]
    simp [onAdmissionChanged, Peer.set]
  · rintro trackIds rfl
    rw [next, handle, callAdmission, performed]
    simp [onAdmissionChanged, Peer.set, createSession, newSession]

/-- A peer has knocked and is gone. -/
def goneOps : List Op :=
  [.addPending (bytes "p1") [] [] 0, .disconnectPeer (bytes "p1")]

/-- A reject leaves the entry of the sample closed. -/
theorem closed_until_accepted_gone :
    ∃ q, (Admission.after ⟨4, 60, 10, 300, true⟩ (goneOps ++ [.reject (bytes "p1")])).peers[0]? =
      some q ∧ q.peerId = bytes "p1" ∧ q.state ≠ .pending ∧
        (q.state = .accepted → ∃ pin, Op.accept (bytes "p1") pin ∈ [Op.reject (bytes "p1")]) := by
  have gone : (Admission.after ⟨4, 60, 10, 300, true⟩ goneOps).peers[0]? =
      some ⟨bytes "p1", [], [], .disconnected, false, 0⟩ := by
    decide +kernel
  exact closed_until_accepted.1 _ goneOps _ 0 _ gone (.inr (.inr rfl))

/-- The peer of the sample is gone, and accepted again. -/
theorem accept_reopens :
    (Admission.after ⟨4, 60, 10, 300, true⟩ goneOps).peers.map (·.state) = [.disconnected] ∧
      (Admission.after ⟨4, 60, 10, 300, true⟩
        (goneOps ++ [.accept (bytes "p1") false])).peers.map (·.state) = [.accepted] := by
  decide +kernel

end Sender

end Tether.Plugin
