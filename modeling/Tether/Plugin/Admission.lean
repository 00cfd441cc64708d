import Mathlib.Data.Int.Notation
import Mathlib.Data.List.Basic
import Tether.Semantics.Run
import Tether.Text.Bytes

/-!
# Sender-side admission

The list of peers that have knocked, with what the user has decided about them,
and the rate limit. Entries are only ever appended; a peer that comes back has a
new identifier and gets a new entry.

The clock is read once for each call: the readings within one call of
`tether_admission_add_pending` are taken to agree.

## Main definitions

* `Peer`, `Admission` — an entry, and the store
* `Admission.addPending`, `Admission.setPeerState`, `Admission.revokeAll` — the
  operations, with the entry that `on_changed` is told about
* `Admission.Op` — a call from outside

## Main results

* `addPending_cases`, `setPeerState_cases` — what the operations do
* `admits_iff` — the conditions under which a knock is let in
* `entry_kept` — an entry keeps its place, its identifier and its texts
-/

namespace Tether.Plugin

open Text Semantics

/-! ### Data -/

inductive PeerState
  | pending
  | accepted
  | rejected
  | revoked
  | disconnected
  deriving DecidableEq

structure Peer where
  peerId : Bytes
  displayName : Bytes
  fingerprint : Bytes
  state : PeerState
  pinned : Bool
  firstSeenNs : UInt64
  deriving DecidableEq

structure AdmissionConfig where
  maxReceivers : ℤ
  rateLimitWindowSeconds : ℤ
  rateLimitMaxAttempts : ℤ
  lockoutSeconds : ℤ
  autoAcceptPinned : Bool

structure Admission where
  cfg : AdmissionConfig
  peers : List Peer
  /-- Sliding window of attempt timestamps for rate limiting. -/
  attempts : List UInt64
  lockoutUntilNs : UInt64

/-- The entry with its new state. -/
def Peer.set (newState : PeerState) (pin : Bool) (p : Peer) : Peer :=
  { p with state := newState, pinned := p.pinned || pin }

namespace Admission

/-- `value > 0`, or the default. -/
def positiveOr (fallback value : ℤ) : ℤ := if value ≤ 0 then fallback else value

def create (cfg : AdmissionConfig) : Admission where
  cfg := { cfg with
    maxReceivers := positiveOr 4 cfg.maxReceivers
    rateLimitWindowSeconds := positiveOr 60 cfg.rateLimitWindowSeconds
    rateLimitMaxAttempts := positiveOr 10 cfg.rateLimitMaxAttempts
    lockoutSeconds := positiveOr 300 cfg.lockoutSeconds }
  peers := []
  attempts := []
  lockoutUntilNs := 0

/-! ### Lookups -/

def findPeer (adm : Admission) (peerId : Bytes) : Option Peer :=
  adm.peers.find? (·.peerId = peerId)

def count (adm : Admission) (state : PeerState) : ℤ := adm.peers.countP (·.state = state)

/-! ### The rate limit -/

/-- Seconds in nanoseconds, as a `uint64_t`. -/
def nanoseconds (seconds : ℤ) : UInt64 := UInt64.ofNat seconds.toNat * 1000000000

def pruneAttempts (adm : Admission) (now : UInt64) : Admission :=
  if adm.cfg.rateLimitWindowSeconds ≤ 0 then adm
  else
    let cutoff := now - nanoseconds adm.cfg.rateLimitWindowSeconds
    { adm with attempts := adm.attempts.dropWhile (· < cutoff) }

def rateLimitBlocks (adm : Admission) (now : UInt64) : Admission × Bool :=
  if adm.lockoutUntilNs > now then (adm, true)
  else
    let adm := adm.pruneAttempts now
    if adm.cfg.rateLimitMaxAttempts > 0 ∧ adm.attempts.length ≥ adm.cfg.rateLimitMaxAttempts then
      ({ adm with lockoutUntilNs := now + nanoseconds adm.cfg.lockoutSeconds }, true)
    else (adm, false)

/-! ### Operations -/

/-- The new entry, before the pins are looked at. -/
def newPeer (peerId displayName fingerprint : Bytes) (now : UInt64) : Peer where
  peerId := strncpy 64 peerId
  displayName := strncpy 128 displayName
  fingerprint := strncpy 128 fingerprint
  state := .pending
  pinned := false
  firstSeenNs := now

/-- An auto-accepted entry: some pinned entry has this fingerprint. -/
def pinMatches (adm : Admission) (fingerprint : Bytes) : Bool :=
  adm.peers.any fun q => q.pinned && q.fingerprint = fingerprint

/-- The entry of a new knock: pending, unless the pins let it in. -/
def knockedPeer (adm : Admission) (peerId displayName fingerprint : Bytes) (now : UInt64) : Peer :=
  -- Auto-accept pinned reconnects if configured and fingerprint matches.
  if adm.cfg.autoAcceptPinned && adm.pinMatches fingerprint then
    { newPeer peerId displayName fingerprint now with pinned := true, state := .accepted }
  else newPeer peerId displayName fingerprint now

/-- `tether_admission_add_pending`: the store afterwards, and the entry that
`on_changed` is told about if the call returns true. -/
def addPending (adm : Admission) (peerId displayName fingerprint : Bytes) (now : UInt64) :
    Admission × Option Peer :=
  match adm.rateLimitBlocks now with
  | (adm, true) => (adm, none)
  | (adm, false) =>
    let adm := { adm with attempts := adm.attempts ++ [now] }
    if (adm.findPeer peerId).isSome then (adm, none)
    else if adm.count .accepted ≥ adm.cfg.maxReceivers then (adm, none)
    else
      let p := adm.knockedPeer peerId displayName fingerprint now
      ({ adm with peers := adm.peers ++ [p] }, some p)

/-- The admission store lets a knock in: neither the rate nor the lockout forbids it, the peer
is not known, and there is room. -/
def Admits (adm : Admission) (peerId : Bytes) (now : UInt64) : Prop :=
  (adm.rateLimitBlocks now).2 = false ∧ adm.findPeer peerId = none ∧
    adm.count .accepted < adm.cfg.maxReceivers

instance (adm : Admission) (peerId : Bytes) (now : UInt64) : Decidable (adm.Admits peerId now) :=
  inferInstanceAs (Decidable (_ ∧ _ ∧ _))

/-- The list with the first entry of this identifier replaced. -/
def updateFirst (peerId : Bytes) (f : Peer → Peer) : List Peer → List Peer
  | [] => []
  | p :: rest => if p.peerId = peerId then f p :: rest else p :: updateFirst peerId f rest

/-- `set_peer_state`: the store afterwards, and the entry that `on_changed` is
told about if there is one. -/
def setPeerState (adm : Admission) (peerId : Bytes) (newState : PeerState) (pin : Bool) :
    Admission × Option Peer :=
  match adm.findPeer peerId with
  | none => (adm, none)
  | some p =>
    ({ adm with peers := updateFirst peerId (Peer.set newState pin) adm.peers },
      some (Peer.set newState pin p))

def accept (adm : Admission) (peerId : Bytes) (pin : Bool) : Admission × Option Peer :=
  adm.setPeerState peerId .accepted pin

def reject (adm : Admission) (peerId : Bytes) : Admission × Option Peer :=
  adm.setPeerState peerId .rejected false

def disconnectPeer (adm : Admission) (peerId : Bytes) : Admission × Option Peer :=
  adm.setPeerState peerId .disconnected false

/-- No entry is notified. -/
def revokeAll (adm : Admission) : Admission :=
  { adm with peers := adm.peers.map fun p => { p with state := .revoked } }

def verifyPinned (adm : Admission) (peerId fingerprint : Bytes) : Bool :=
  (adm.findPeer peerId).any fun p => p.pinned && p.fingerprint = fingerprint

/-! ### Calls from outside -/

/-- A call that changes the store. -/
inductive Op
  | addPending (peerId displayName fingerprint : Bytes) (now : UInt64)
  | accept (peerId : Bytes) (pin : Bool)
  | reject (peerId : Bytes)
  | disconnectPeer (peerId : Bytes)
  | revokeAll

/-- A call's effect on the store, and the entry that is notified. -/
def perform (adm : Admission) : Op → Admission × Option Peer
  | .addPending peerId displayName fingerprint now =>
    adm.addPending peerId displayName fingerprint now
  | .accept peerId pin => adm.accept peerId pin
  | .reject peerId => adm.reject peerId
  | .disconnectPeer peerId => adm.disconnectPeer peerId
  | .revokeAll => (adm.revokeAll, none)

def next (adm : Admission) (op : Op) : Admission := (adm.perform op).1

/-- The store after a sequence of calls. -/
def after (cfg : AdmissionConfig) (ops : List Op) : Admission := run next (create cfg) ops

theorem after_concat (cfg : AdmissionConfig) (ops : List Op) (op : Op) :
    after cfg (ops ++ [op]) = (after cfg ops).next op :=
  run_concat next (create cfg) ops op

/-! ### What the operations do -/

section Knock

variable {adm : Admission} {peerId displayName fingerprint : Bytes} {now : UInt64}

/-- A knock is accepted at once if it meets a pin. -/
theorem knockedPeer_accepted :
    (adm.knockedPeer peerId displayName fingerprint now).state = .accepted ↔
      (adm.cfg.autoAcceptPinned && adm.pinMatches fingerprint) = true := by
  rw [knockedPeer]
  split_ifs with meets
  · exact iff_of_true rfl meets
  · exact iff_of_false (by simp [newPeer]) meets

/-- Only a pinned entry of the same fingerprint has a knock pinned or accepted. -/
theorem pin_of_knockedPeer
    (lets : (adm.knockedPeer peerId displayName fingerprint now).pinned ∨
      (adm.knockedPeer peerId displayName fingerprint now).state = .accepted) :
    ∃ q ∈ adm.peers, q.pinned ∧ q.fingerprint = fingerprint := by
  rw [knockedPeer] at lets
  split_ifs at lets with meets
  · simpa [pinMatches] using (Bool.and_eq_true_iff.mp meets).2
  · simp [newPeer] at lets

theorem knockedPeer_peerId :
    (adm.knockedPeer peerId displayName fingerprint now).peerId = strncpy 64 peerId := by
  rw [knockedPeer]
  split_ifs <;> rfl

/-- The pins do not change what the buffers hold. -/
theorem knockedPeer_texts :
    (adm.knockedPeer peerId displayName fingerprint now).displayName = strncpy 128 displayName ∧
      (adm.knockedPeer peerId displayName fingerprint now).fingerprint =
        strncpy 128 fingerprint := by
  rw [knockedPeer]
  split_ifs <;> exact ⟨rfl, rfl⟩

end Knock

section Operations

variable (adm : Admission) (peerId displayName fingerprint : Bytes) (now : UInt64)

/-- The rate limit changes the ledger and the lockout only. -/
theorem rateLimitBlocks_eq :
    (adm.rateLimitBlocks now).1.peers = adm.peers ∧
      (adm.rateLimitBlocks now).1.cfg = adm.cfg := by
  have pruned : (adm.pruneAttempts now).peers = adm.peers ∧
      (adm.pruneAttempts now).cfg = adm.cfg := by
    rw [pruneAttempts]
    split_ifs <;> exact ⟨rfl, rfl⟩
  rw [rateLimitBlocks]
  split_ifs with locked
  · exact ⟨rfl, rfl⟩
  · by_cases full : (adm.pruneAttempts now).cfg.rateLimitMaxAttempts > 0 ∧
        (adm.pruneAttempts now).attempts.length ≥ (adm.pruneAttempts now).cfg.rateLimitMaxAttempts
    · simp only [if_pos full]
      exact pruned
    · simp only [if_neg full]
      exact pruned

/-- A knock is refused, and the entries stay as they are, or it gets the next
entry. -/
theorem addPending_cases :
    (adm.addPending peerId displayName fingerprint now).1.cfg = adm.cfg ∧
    ((adm.addPending peerId displayName fingerprint now).1.peers = adm.peers ∧
        (adm.addPending peerId displayName fingerprint now).2 = none ∨
      (adm.addPending peerId displayName fingerprint now).1.peers =
          adm.peers ++ [adm.knockedPeer peerId displayName fingerprint now] ∧
        (adm.addPending peerId displayName fingerprint now).2 =
          some (adm.knockedPeer peerId displayName fingerprint now) ∧
        adm.findPeer peerId = none ∧ adm.count .accepted < adm.cfg.maxReceivers) := by
  have kept := adm.rateLimitBlocks_eq now
  rw [addPending]
  cases blocks : adm.rateLimitBlocks now with
  | mk limited blocked =>
    obtain ⟨limits, peers, attempts, lockout⟩ := limited
    obtain ⟨rfl, rfl⟩ : peers = adm.peers ∧ limits = adm.cfg := by
      rwa [blocks] at kept
    cases blocked with
    | true => exact ⟨rfl, .inl ⟨rfl, rfl⟩⟩
    | false =>
      -- what is looked up below depends on the entries and the configuration only
      let charged : Admission := ⟨adm.cfg, adm.peers, attempts ++ [now], lockout⟩
      have known : charged.findPeer peerId = adm.findPeer peerId := rfl
      have accepted : charged.count .accepted = adm.count .accepted := rfl
      have entry : charged.knockedPeer peerId displayName fingerprint now =
          adm.knockedPeer peerId displayName fingerprint now := rfl
      simp only [charged] at known accepted entry
      simp only [known, accepted, entry]
      by_cases present : (adm.findPeer peerId).isSome
      · rw [if_pos present]
        exact ⟨rfl, .inl ⟨rfl, rfl⟩⟩
      · rw [if_neg present]
        by_cases capped : adm.count .accepted ≥ adm.cfg.maxReceivers
        · rw [if_pos capped]
          exact ⟨rfl, .inl ⟨rfl, rfl⟩⟩
        · rw [if_neg capped]
          exact ⟨rfl, .inr ⟨rfl, rfl, by simpa using present, Int.not_le.mp capped⟩⟩

/-- The state of an entry is set, or there is none to set. -/
theorem setPeerState_cases (newState : PeerState) (pin : Bool) :
    adm.findPeer peerId = none ∧ adm.setPeerState peerId newState pin = (adm, none) ∨
    ∃ p, adm.findPeer peerId = some p ∧ adm.setPeerState peerId newState pin =
      ({ adm with peers := updateFirst peerId (Peer.set newState pin) adm.peers },
        some (Peer.set newState pin p)) := by
  rw [setPeerState]
  cases found : adm.findPeer peerId with
  | none => exact .inl ⟨rfl, rfl⟩
  | some p => exact .inr ⟨p, rfl, rfl⟩

end Operations

/-- A knock is let in under these conditions, and no other. -/
theorem admits_iff {adm : Admission} {peerId : Bytes} (name fp : Bytes) (now : UInt64) :
    adm.Admits peerId now ↔ (adm.addPending peerId name fp now).2.isSome = true := by
  have kept := adm.rateLimitBlocks_eq now
  rw [Admits, addPending]
  rcases blocks : adm.rateLimitBlocks now with ⟨⟨limits, peers, attempts, lockout⟩, blocked⟩
  obtain ⟨rfl, rfl⟩ : peers = adm.peers ∧ limits = adm.cfg := by rwa [blocks] at kept
  cases blocked with
  | true => simp
  | false =>
    -- the attempt that is recorded plays no part in what follows
    have known : (⟨adm.cfg, adm.peers, attempts ++ [now], lockout⟩ : Admission).findPeer peerId =
        adm.findPeer peerId := rfl
    have accepted : (⟨adm.cfg, adm.peers, attempts ++ [now], lockout⟩ : Admission).count
        .accepted = adm.count .accepted := rfl
    simp only [known, accepted, true_and]
    cases adm.findPeer peerId with
    | some p => simp
    | none =>
      by_cases capped : adm.cfg.maxReceivers ≤ adm.count .accepted
      · simp [capped]
      · simp [capped, Int.not_le.mp capped]

/-! ### What the operations do to an entry -/

/-- What a call makes of an entry that the store has already. -/
inductive Op.Changes : Op → Peer → Peer → Prop
  | kept (op : Op) (p : Peer) (other : op ≠ .revokeAll) : Op.Changes op p p
  | accepted (p : Peer) (pin : Bool) :
    Op.Changes (.accept p.peerId pin) p (p.set .accepted pin)
  | rejected (p : Peer) : Op.Changes (.reject p.peerId) p (p.set .rejected false)
  | disconnected (p : Peer) :
    Op.Changes (.disconnectPeer p.peerId) p (p.set .disconnected false)
  | revoked (p : Peer) : Op.Changes .revokeAll p (p.set .revoked false)

/-- The texts of an entry never change. -/
theorem Op.Changes.texts {op : Op} {p q : Peer} (changes : op.Changes p q) :
    q.peerId = p.peerId ∧ q.fingerprint = p.fingerprint := by
  cases changes <;> exact ⟨rfl, rfl⟩

theorem updateFirst_length (peerId : Bytes) (f : Peer → Peer) (peers : List Peer) :
    (updateFirst peerId f peers).length = peers.length := by
  induction peers with
  | nil => rfl
  | cons p rest ih =>
    rw [updateFirst]
    split_ifs
    · rfl
    · rw [List.length_cons, ih, List.length_cons]

theorem getElem?_updateFirst (peerId : Bytes) (f : Peer → Peer) {peers : List Peer} {n : ℕ}
    {p : Peer} (entry : peers[n]? = some p) :
    (updateFirst peerId f peers)[n]? = some p ∨
      p.peerId = peerId ∧ (updateFirst peerId f peers)[n]? = some (f p) := by
  induction peers generalizing n with
  | nil => simp at entry
  | cons first rest ih =>
    rw [updateFirst]
    by_cases named : first.peerId = peerId
    · rw [if_pos named]
      cases n with
      | zero =>
        obtain rfl : first = p := by simpa using entry
        exact .inr ⟨named, rfl⟩
      | succ n => exact .inl entry
    · rw [if_neg named]
      cases n with
      | zero => exact .inl entry
      | succ n => exact ih entry

/-- An entry keeps its place, and a call changes its state and its pin only. -/
theorem entry_kept (adm : Admission) (op : Op) {n : ℕ} {p : Peer}
    (entry : adm.peers[n]? = some p) :
    ∃ q, (adm.perform op).1.peers[n]? = some q ∧ op.Changes p q := by
  -- a call that sets a state changes this entry only under its name
  have set (peerId : Bytes) (newState : PeerState) (pin : Bool) :
      (adm.setPeerState peerId newState pin).1.peers[n]? = some p ∨
        p.peerId = peerId ∧
          (adm.setPeerState peerId newState pin).1.peers[n]? = some (p.set newState pin) := by
    rcases adm.setPeerState_cases peerId newState pin with ⟨-, same⟩ | ⟨_, -, changed⟩
    · rw [same]
      exact .inl entry
    · rw [changed]
      exact getElem?_updateFirst peerId _ entry
  cases op with
  | addPending peerId displayName fingerprint now =>
    refine ⟨p, ?_, .kept _ p (by simp)⟩
    rw [perform]
    obtain ⟨-, ⟨same, -⟩ | ⟨added, -⟩⟩ := adm.addPending_cases peerId displayName fingerprint now
    · rwa [same]
    · obtain ⟨within, -⟩ := List.getElem?_eq_some_iff.mp entry
      rwa [added, List.getElem?_append_left within]
  | accept peerId pin =>
    obtain same | ⟨rfl, changed⟩ := set peerId .accepted pin
    · exact ⟨p, same, .kept _ p (by simp)⟩
    · exact ⟨_, changed, .accepted p pin⟩
  | reject peerId =>
    obtain same | ⟨rfl, changed⟩ := set peerId .rejected false
    · exact ⟨p, same, .kept _ p (by simp)⟩
    · exact ⟨_, changed, .rejected p⟩
  | disconnectPeer peerId =>
    obtain same | ⟨rfl, changed⟩ := set peerId .disconnected false
    · exact ⟨p, same, .kept _ p (by simp)⟩
    · exact ⟨_, changed, .disconnected p⟩
  | revokeAll =>
    refine ⟨_, ?_, .revoked p⟩
    rw [perform, revokeAll, List.getElem?_map, entry]
    simp [Peer.set]

theorem mem_updateFirst {peerId : Bytes} {peers : List Peer} {p : Peer}
    (found : peers.find? (·.peerId = peerId) = some p) (f : Peer → Peer) :
    f p ∈ updateFirst peerId f peers := by
  induction peers with
  | nil => simp at found
  | cons first rest ih =>
    rw [updateFirst]
    by_cases named : first.peerId = peerId
    · obtain rfl : first = p := by simpa [named] using found
      rw [if_pos named]
      exact List.mem_cons_self
    · rw [if_neg named]
      exact List.mem_cons_of_mem _ (ih (by simpa [named] using found))

/-- The entry that is notified is in the store. -/
theorem notified_mem (adm : Admission) {op : Op} {q : Peer}
    (notified : (adm.perform op).2 = some q) : q ∈ (adm.perform op).1.peers := by
  have set (peerId : Bytes) (newState : PeerState) (pin : Bool)
      (changed : (adm.setPeerState peerId newState pin).2 = some q) :
      q ∈ (adm.setPeerState peerId newState pin).1.peers := by
    rcases adm.setPeerState_cases peerId newState pin with ⟨-, same⟩ | ⟨p, found, same⟩
    · simp [same] at changed
    · rw [same] at changed ⊢
      obtain rfl := Option.some.inj changed
      exact mem_updateFirst found _
  cases op with
  | addPending peerId displayName fingerprint now =>
    rw [perform] at notified ⊢
    obtain ⟨-, ⟨-, silent⟩ | ⟨added, told, -⟩⟩ :=
      adm.addPending_cases peerId displayName fingerprint now
    · simp [silent] at notified
    · obtain rfl := Option.some.inj (told.symm.trans notified)
      simp [added]
  | accept peerId pin => exact set peerId .accepted pin notified
  | reject peerId => exact set peerId .rejected false notified
  | disconnectPeer peerId => exact set peerId .disconnected false notified
  | revokeAll => simp [perform] at notified

/-- Every entry of the store was there before, or is the one that a knock adds. -/
theorem entry_origin (adm : Admission) (op : Op) {n : ℕ} {q : Peer}
    (entry : (adm.perform op).1.peers[n]? = some q) :
    (∃ p, adm.peers[n]? = some p ∧ op.Changes p q) ∨
      ∃ peerId displayName fingerprint now,
        op = .addPending peerId displayName fingerprint now ∧
        q = adm.knockedPeer peerId displayName fingerprint now ∧
        (adm.addPending peerId displayName fingerprint now).2 = some q := by
  by_cases old : n < adm.peers.length
  · left
    obtain ⟨p, before⟩ : ∃ p, adm.peers[n]? = some p := ⟨_, List.getElem?_eq_getElem old⟩
    obtain ⟨q', after, changes⟩ := adm.entry_kept op before
    obtain rfl : q' = q := Option.some.inj (after.symm.trans entry)
    exact ⟨p, before, changes⟩
  · right
    have within : n < (adm.perform op).1.peers.length := (List.getElem?_eq_some_iff.mp entry).1
    -- only a knock makes the list longer
    have setLength (peerId : Bytes) (newState : PeerState) (pin : Bool) :
        (adm.setPeerState peerId newState pin).1.peers.length = adm.peers.length := by
      rcases adm.setPeerState_cases peerId newState pin with ⟨-, same⟩ | ⟨_, -, changed⟩
      · rw [same]
      · rw [changed, updateFirst_length]
    cases op with
    | addPending peerId displayName fingerprint now =>
      rw [perform] at entry within
      obtain ⟨-, ⟨same, -⟩ | ⟨added, notified, -⟩⟩ :=
        adm.addPending_cases peerId displayName fingerprint now
      · rw [same] at within
        exact absurd within old
      · refine ⟨peerId, displayName, fingerprint, now, rfl, ?_⟩
        rw [added] at entry
        rw [List.getElem?_append_right (Nat.not_lt.mp old)] at entry
        have only := List.mem_of_getElem? entry
        rw [List.mem_singleton] at only
        exact ⟨only, only ▸ notified⟩
    | accept peerId pin => exact absurd (setLength peerId .accepted pin ▸ within) old
    | reject peerId => exact absurd (setLength peerId .rejected false ▸ within) old
    | disconnectPeer peerId => exact absurd (setLength peerId .disconnected false ▸ within) old
    | revokeAll => exact absurd (by simpa [perform, revokeAll] using within) old

end Admission

end Tether.Plugin
