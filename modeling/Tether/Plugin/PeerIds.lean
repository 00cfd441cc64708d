import Tether.Plugin.Decisions
import Tether.Semantics.Lookup

/-!
# Identifiers of peers

The store keeps the first 63 bytes of an identifier and looks up all of them. A knock
whose identifier is longer is let in, and its entry answers to another name.

## Main definitions

* `Admission.Ruling` — a call about one peer
* `Admission.Knocked` — the knock that got an entry
* `Admission.Addressable` — entries have names of their own, and calls reach them

## Main results

* `short_ids` — every stored identifier has fewer than 64 bytes
* `addressable_iff` — the entries are addressable along a run if and only if every knock that
  is let in has a short identifier
* `long_id_knocks_twice` — a long one
-/

namespace Tether.Plugin

open Text Semantics

namespace Admission

/-! ### Calls about one peer -/

/-- A call that sets the state of one peer. -/
inductive Ruling
  | accept (pin : Bool)
  | reject
  | disconnectPeer

def Ruling.op (peerId : Bytes) : Ruling → Op
  | accept pin => .accept peerId pin
  | reject => .reject peerId
  | disconnectPeer => .disconnectPeer peerId

/-- What the call makes of the entry. -/
def Ruling.set : Ruling → Peer → Peer
  | accept pin => Peer.set .accepted pin
  | reject => Peer.set .rejected false
  | disconnectPeer => Peer.set .disconnected false

/-- The calls of this name act on the entry in this place, and on no other. -/
def ActsOn (adm : Admission) (n : ℕ) (peerId : Bytes) : Prop :=
  ∃ p, adm.peers[n]? = some p ∧
    (∀ ruling : Ruling, adm.perform (ruling.op peerId) =
      ({ adm with peers := adm.peers.set n (ruling.set p) }, some (ruling.set p))) ∧
    ∀ fingerprint, adm.verifyPinned peerId fingerprint =
      (p.pinned && p.fingerprint = fingerprint)

section Runs

variable (cfg : AdmissionConfig)

/-- A knock with this identifier has returned true, and its entry is in this place. -/
def Knocked (ops : List Op) (n : ℕ) (peerId : Bytes) : Prop :=
  ∃ before later name fp now, ops = before ++ .addPending peerId name fp now :: later ∧
    ((after cfg before).addPending peerId name fp now).2.isSome ∧
    n = (after cfg before).peers.length

/-- The identifiers differ, a peer that has been let in is refused from then on, and the calls
about it act on its entry. -/
structure Addressable (ops : List Op) : Prop where
  distinct : (after cfg ops).Distinct
  refused : ∀ n peerId, Knocked cfg ops n peerId →
    ∀ name fp now, ((after cfg ops).addPending peerId name fp now).2 = none
  acts : ∀ n peerId, Knocked cfg ops n peerId → (after cfg ops).ActsOn n peerId

/-- If the operation is a knock that is let in, its identifier has fewer than 64 bytes. -/
def ShortKnock (before : List Op) (op : Op) : Prop :=
  ∀ peerId name fp now, op = .addPending peerId name fp now →
    (after cfg before).Admits peerId now → peerId.length < 64

/-- The entries carry the names of their knocks. -/
structure Named (ops : List Op) : Prop where
  distinct : (after cfg ops).Distinct
  named : ∀ n peerId, Knocked cfg ops n peerId →
    ∃ p, (after cfg ops).peers[n]? = some p ∧ p.peerId = peerId

end Runs

/-! ### One entry -/

section Entry

variable {adm : Admission} {peerId : Bytes} {n : ℕ} {p : Peer}

/-- With distinct identifiers the first entry of a name is the one in its place. -/
theorem updateFirst_eq_set {peers : List Peer} (distinct : (peers.map (·.peerId)).Nodup)
    (entry : peers[n]? = some p) (named : p.peerId = peerId) (f : Peer → Peer) :
    updateFirst peerId f peers = peers.set n (f p) := by
  induction peers generalizing n with
  | nil => simp at entry
  | cons first rest ih =>
    rw [List.map_cons, List.nodup_cons] at distinct
    rw [updateFirst]
    cases n with
    | zero =>
      obtain rfl : first = p := by simpa using entry
      rw [if_pos named, List.set_cons_zero]
    | succ n =>
      rw [List.getElem?_cons_succ] at entry
      have other : first.peerId ≠ peerId := by
        intro same
        apply distinct.1
        rw [same, ← named]
        exact List.mem_map_of_mem (List.mem_of_getElem? entry)
      rw [if_neg other, List.set_cons_succ, ih distinct.2 entry]

/-- With distinct identifiers the calls act on the entry of their name. -/
theorem actsOn_of_named (distinct : adm.Distinct) (entry : adm.peers[n]? = some p)
    (named : p.peerId = peerId) : adm.ActsOn n peerId := by
  have found : adm.findPeer peerId = some p := by
    rw [← named]
    exact find?_key distinct (List.mem_of_getElem? entry)
  have sets (newState : PeerState) (pin : Bool) : adm.setPeerState peerId newState pin =
      ({ adm with peers := adm.peers.set n (p.set newState pin) }, some (p.set newState pin)) := by
    rw [setPeerState, found]
    simp only [updateFirst_eq_set distinct entry named]
  refine ⟨p, entry, fun ruling => ?_, fun fingerprint => ?_⟩
  · cases ruling with
    | accept pin => exact sets .accepted pin
    | reject => exact sets .rejected false
    | disconnectPeer => exact sets .disconnected false
  · rw [verifyPinned, found, Option.any_some]

/-- A name that acts on an entry is the name of an entry. -/
theorem ActsOn.lists (acts : adm.ActsOn n peerId) : adm.Lists peerId := by
  obtain ⟨p, -, sets, -⟩ := acts
  -- a rejection under this name has changed an entry, so it has found one
  have notified := congrArg Prod.snd (sets .reject)
  by_contra absent
  rw [Ruling.op, perform, reject, setPeerState, findPeer_eq_none.mpr absent] at notified
  cases notified

end Entry

/-! ### Runs -/

section Run

variable {cfg : AdmissionConfig} {before : List Op} {op : Op} {n : ℕ} {peerId : Bytes}

theorem knocked_concat : Knocked cfg (before ++ [op]) n peerId ↔
    Knocked cfg before n peerId ∨ ∃ name fp now, op = .addPending peerId name fp now ∧
      ((after cfg before).addPending peerId name fp now).2.isSome ∧
      n = (after cfg before).peers.length := by
  constructor
  · rintro ⟨earlier, later, name, fp, now, split, entered, place⟩
    -- the knock is the last operation, or one before it
    rcases List.eq_nil_or_concat later with rfl | ⟨later, last, rfl⟩
    · obtain ⟨rfl, same⟩ := List.append_inj' split rfl
      exact .inr ⟨name, fp, now, (List.cons.inj same).1, entered, place⟩
    · rw [List.concat_eq_append, ← List.cons_append, ← List.append_assoc] at split
      obtain ⟨rfl, -⟩ := List.append_inj' split rfl
      exact .inl ⟨earlier, later, name, fp, now, rfl, entered, place⟩
  · rintro (⟨earlier, later, name, fp, now, rfl, entered, place⟩ |
      ⟨name, fp, now, rfl, entered, place⟩)
    · exact ⟨earlier, later ++ [op], name, fp, now, by simp, entered, place⟩
    · exact ⟨before, [], name, fp, now, rfl, entered, place⟩

/-- Every stored identifier has fewer than 64 bytes. -/
theorem short_ids (cfg : AdmissionConfig) (ops : List Op) :
    ∀ p ∈ (after cfg ops).peers, p.peerId.length < 64 := by
  have step (adm : Admission) (op : Op) (short : ∀ p ∈ adm.peers, p.peerId.length < 64) :
      ∀ q ∈ (adm.next op).peers, q.peerId.length < 64 := by
    intro q member
    -- every entry was there before or has just been truncated
    obtain ⟨n, entry⟩ := List.mem_iff_getElem?.mp member
    rcases adm.entry_origin op entry with ⟨p, old, changes⟩ | ⟨id, name, fp, now, -, rfl, -⟩
    · rw [changes.texts.1]
      exact short p (List.mem_of_getElem? old)
    · rw [knockedPeer_peerId]
      exact strncpy_length_lt (by decide) id
  exact run_invariant next (create cfg) step (by simp [create]) ops

/-- What a call does to the identifiers. -/
theorem map_peerId_perform (adm : Admission) (op : Op) :
    (adm.perform op).1.peers.map (·.peerId) = adm.peers.map (·.peerId) ∨
      ∃ peerId name fp now, op = .addPending peerId name fp now ∧ adm.Admits peerId now ∧
        (adm.perform op).1.peers.map (·.peerId) =
          adm.peers.map (·.peerId) ++ [strncpy 64 peerId] := by
  cases op with
  | addPending peerId name fp now =>
    obtain ⟨-, ⟨same, -⟩ | ⟨added, told, -⟩⟩ := adm.addPending_cases peerId name fp now
    · left
      rw [perform, same]
    · right
      refine ⟨peerId, name, fp, now, rfl, (admits_iff name fp now).mpr (by rw [told]; rfl), ?_⟩
      rw [perform, added, List.map_append, List.map_singleton, knockedPeer_peerId]
  | accept peerId pin => exact .inl (map_peerId_setPeerState .accepted pin)
  | reject peerId => exact .inl (map_peerId_setPeerState .rejected false)
  | disconnectPeer peerId => exact .inl (map_peerId_setPeerState .disconnected false)
  | revokeAll =>
    left
    rw [perform, revokeAll, List.map_map]
    rfl

/-- A short knock keeps the identifiers distinct. -/
theorem distinct_next (distinct : (after cfg before).Distinct) (short : ShortKnock cfg before op) :
    (after cfg (before ++ [op])).Distinct := by
  rw [after_concat, Distinct, next]
  rcases (after cfg before).map_peerId_perform op with
    same | ⟨id, name, fp, now, knock, admits, added⟩
  · rw [same]
    exact distinct
  · rw [added, strncpy_of_lt (short id name fp now knock admits), List.nodup_append',
      List.disjoint_singleton, List.mem_map]
    refine ⟨distinct, List.nodup_singleton _, ?_⟩
    -- a knock is let in under a name that no entry has
    exact findPeer_eq_none.mp admits.2.1

theorem Named.concat (named : Named cfg before) (short : ShortKnock cfg before op) :
    Named cfg (before ++ [op]) where
  distinct := distinct_next named.distinct short
  named n peerId knocked := by
    rw [after_concat]
    rcases knocked_concat.mp knocked with old | ⟨name, fp, now, rfl, entered, rfl⟩
    · obtain ⟨p, entry, same⟩ := named.named n peerId old
      obtain ⟨q, kept, changes⟩ := (after cfg before).entry_kept op entry
      exact ⟨q, kept, changes.texts.1.trans same⟩
    · have admits := (admits_iff name fp now).mpr entered
      obtain ⟨-, ⟨-, silent⟩ | ⟨added, -⟩⟩ :=
        (after cfg before).addPending_cases peerId name fp now
      · rw [silent] at entered
        contradiction
      · refine ⟨(after cfg before).knockedPeer peerId name fp now, ?_, ?_⟩
        · rw [next, perform, added, List.getElem?_concat_length]
        · rw [knockedPeer_peerId, strncpy_of_lt (short peerId name fp now rfl admits)]

theorem Named.addressable {ops : List Op} (named : Named cfg ops) : Addressable cfg ops where
  distinct := named.distinct
  refused n peerId knocked name fp now := by
    obtain ⟨p, entry, same⟩ := named.named n peerId knocked
    rw [← Option.not_isSome_iff_eq_none]
    intro entered
    have admits := (admits_iff name fp now).mpr entered
    exact findPeer_eq_none.mp admits.2.1 ⟨p, List.mem_of_getElem? entry, same⟩
  acts n peerId knocked := by
    obtain ⟨p, entry, same⟩ := named.named n peerId knocked
    exact actsOn_of_named named.distinct entry same

/-- A long knock that is let in cannot be reached. -/
theorem Addressable.shortKnock (addressable : Addressable cfg (before ++ [op])) :
    ShortKnock cfg before op := by
  rintro peerId name fp now rfl admits
  have knocked : Knocked cfg (before ++ [.addPending peerId name fp now])
      (after cfg before).peers.length peerId :=
    knocked_concat.mpr (.inr ⟨name, fp, now, rfl, (admits_iff name fp now).mp admits, rfl⟩)
  obtain ⟨p, member, same⟩ := (addressable.acts _ _ knocked).lists
  rw [← same]
  exact short_ids cfg _ p member

/-- Along a run the entries are addressable and unique if and only if every knock that is let
in has an identifier of fewer than 64 bytes. -/
theorem addressable_iff (cfg : AdmissionConfig) (ops : List Op) :
    (∀ before later, ops = before ++ later → Addressable cfg before) ↔
      EveryStep (ShortKnock cfg) ops := by
  -- by induction with the names, which are more than what is asked for
  refine always_iff_everyStep (Named cfg) ?_ ?_ (fun _ => Named.addressable) ?_ ops
  · refine ⟨List.nodup_nil, fun n peerId knocked => ?_⟩
    obtain ⟨before, later, name, fp, now, split, -⟩ := knocked
    simp at split
  · intro before op named short
    exact named.concat short
  · intro before op _ addressable
    exact addressable.shortKnock

end Run

/-! ### A long identifier -/

/-- An identifier of 64 bytes. -/
def longId : Bytes := List.replicate 64 97

/-- It knocks twice. -/
def longKnocks : List Op :=
  [.addPending longId [] [] 1, .addPending longId [] [] 2]

/-- Both knocks return true, the two entries have one name, and no call with the identifier
reaches either. -/
theorem long_id_knocks_twice :
    Knocked ⟨4, 60, 10, 300, true⟩ longKnocks 0 longId ∧
      Knocked ⟨4, 60, 10, 300, true⟩ longKnocks 1 longId ∧
      ¬ (after ⟨4, 60, 10, 300, true⟩ longKnocks).Distinct ∧
      ((after ⟨4, 60, 10, 300, true⟩ longKnocks).perform (.reject longId)).2 = none ∧
      ¬ Addressable ⟨4, 60, 10, 300, true⟩ longKnocks := by
  have same : ¬ (after ⟨4, 60, 10, 300, true⟩ longKnocks).Distinct := by
    rw [Distinct]
    decide +kernel
  refine ⟨⟨[], [.addPending longId [] [] 2], [], [], 1, rfl, by decide +kernel, rfl⟩,
    ⟨[.addPending longId [] [] 1], [], [], [], 2, rfl, by decide +kernel, by decide +kernel⟩, same,
    by decide +kernel, fun addressable => same addressable.distinct⟩

end Admission

end Tether.Plugin
