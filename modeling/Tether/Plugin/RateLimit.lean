import Mathlib.Algebra.Ring.Int.Defs
import Mathlib.Algebra.Ring.Nat
import Mathlib.Data.List.TakeWhile
import Tether.Plugin.Admission
import Tether.Semantics.SlidingWindow

/-!
# The sender's rate limit

The store keeps the times of the knocks that it has not refused for their rate. The
cutoff of its window is a difference of unsigned numbers, which wraps around while
the clock shows less than the window, and so may the end of a lockout. Between
these two the ledger is a sliding window over the integers.

## Main definitions

* `Admission.recorded` — the times that a run of calls has recorded
* `Admission.ExactAt` — a knock is judged by the integers
* `Admission.Clear` — a knock comes when nothing wraps around

## Main results

* `exact_sliding_window` — along clear knocks the limit is an exact sliding window
* `boot_window_open` — right after boot there is no limit
-/

namespace Tether.Plugin

open Text Semantics

namespace Admission

/-! ### Times -/

/-- A reading of the clock as an integer. -/
def instant (t : UInt64) : ℤ := t.toNat

/-- Seconds in nanoseconds, in the integers. -/
def span (seconds : ℤ) : ℤ := seconds * 1000000000

/-- When a call knocks. -/
def Op.knock? : Op → Option UInt64
  | .addPending _ _ _ now => some now
  | _ => none

/-- The times of the knocks among some calls. -/
def clock (ops : List Op) : List UInt64 := ops.filterMap Op.knock?

/-- The time that a call records: that of a knock, unless its rate is too high. -/
def attempt? (adm : Admission) (op : Op) : Option UInt64 :=
  op.knock?.filter fun now => !(adm.rateLimitBlocks now).2

/-- The times that a sequence of calls records. -/
def recordedFrom (adm : Admission) : List Op → List UInt64
  | [] => []
  | op :: rest => (adm.attempt? op).toList ++ recordedFrom (adm.next op) rest

/-- The times that have been recorded since the store was created. -/
def recorded (cfg : AdmissionConfig) (ops : List Op) : List ℤ :=
  (recordedFrom (create cfg) ops).map instant

theorem recordedFrom_concat (adm : Admission) (ops : List Op) (op : Op) :
    recordedFrom adm (ops ++ [op]) =
      recordedFrom adm ops ++ ((run next adm ops).attempt? op).toList := by
  induction ops generalizing adm with
  | nil => simp [recordedFrom]
  | cons first rest ih =>
    rw [List.cons_append, recordedFrom, recordedFrom, ih, List.append_assoc, run_cons]

theorem recorded_concat (cfg : AdmissionConfig) (ops : List Op) (op : Op) :
    recorded cfg (ops ++ [op]) =
      recorded cfg ops ++ ((after cfg ops).attempt? op).toList.map instant := by
  rw [recorded, recordedFrom_concat, List.map_append]
  rfl

/-! ### The law -/

/-- A configuration of positive C integers. -/
structure Limits (cfg : AdmissionConfig) : Prop where
  window : 0 < cfg.rateLimitWindowSeconds ∧ cfg.rateLimitWindowSeconds < 2 ^ 31
  attempts : 0 < cfg.rateLimitMaxAttempts
  lockout : 0 < cfg.lockoutSeconds ∧ cfg.lockoutSeconds < 2 ^ 31

/-- The rate is limited alike. -/
structure SameRate (first second : AdmissionConfig) : Prop where
  window : first.rateLimitWindowSeconds = second.rateLimitWindowSeconds
  attempts : first.rateLimitMaxAttempts = second.rateLimitMaxAttempts
  lockout : first.lockoutSeconds = second.lockoutSeconds

/-- How many recorded times lie in the window that ends now. -/
def load (cfg : AdmissionConfig) (before : List Op) (now : UInt64) : ℕ :=
  ((recorded cfg before).filter fun t =>
    instant now - span cfg.rateLimitWindowSeconds ≤ t).length

/-- The knock is refused during a lockout and for a full window only, and in the
latter case a lockout of the configured length starts. -/
structure ExactAt (cfg : AdmissionConfig) (before : List Op) (now : UInt64) : Prop where
  refused : ((after cfg before).rateLimitBlocks now).2 ↔
    instant now < instant (after cfg before).lockoutUntilNs ∨
      cfg.rateLimitMaxAttempts ≤ load cfg before now
  lockout : ¬ instant now < instant (after cfg before).lockoutUntilNs →
    ((after cfg before).rateLimitBlocks now).2 →
    instant ((after cfg before).rateLimitBlocks now).1.lockoutUntilNs =
      instant now + span cfg.lockoutSeconds

/-- A knock at a time when neither difference nor sum wraps around: the clock has
passed the window, unless this is the first knock, and is not about to overflow. -/
def Clear (cfg : AdmissionConfig) (before : List Op) (op : Op) : Prop :=
  ∀ now, op.knock? = some now →
    (clock before = [] ∨ span cfg.rateLimitWindowSeconds ≤ instant now) ∧
      instant now + span cfg.lockoutSeconds < 2 ^ 64

instance (cfg : AdmissionConfig) (before : List Op) (op : Op) : Decidable (Clear cfg before op) :=
  match knock : op.knock? with
  | none => isTrue fun _ other => by simp [knock] at other
  | some time =>
    decidable_of_iff ((clock before = [] ∨ span cfg.rateLimitWindowSeconds ≤ instant time) ∧
        instant time + span cfg.lockoutSeconds < 2 ^ 64)
      ⟨fun clear _ same => Option.some.inj (knock.symm.trans same) ▸ clear,
        fun clear => clear time knock⟩

/-! ### Unsigned arithmetic -/

theorem lt_iff_instant {s t : UInt64} : s < t ↔ instant s < instant t := by
  rw [UInt64.lt_iff_toNat_lt, instant, instant]
  omega

theorem instant_nanoseconds {seconds : ℤ} (positive : 0 < seconds) (small : seconds < 2 ^ 31) :
    instant (nanoseconds seconds) = span seconds := by
  have number : (UInt64.ofNat seconds.toNat).toNat = seconds.toNat :=
    UInt64.toNat_ofNat_of_lt' (by simp [UInt64.size]; omega)
  have billion : (1000000000 : UInt64).toNat = 1000000000 := rfl
  rw [instant, nanoseconds, UInt64.toNat_mul, number, billion, Nat.mod_eq_of_lt (by omega), span]
  omega

theorem instant_sub {s t : UInt64} (passed : instant t ≤ instant s) :
    instant (s - t) = instant s - instant t := by
  rw [instant, instant] at passed ⊢
  rw [instant, UInt64.toNat_sub_of_le _ _ (by rw [UInt64.le_iff_toNat_le]; omega)]
  omega

/-- A difference that wraps around lies in the future. -/
theorem lt_wrapped {s t width : UInt64} (past : instant t ≤ instant s)
    (wraps : instant s < instant width) : t < s - width := by
  have bound := width.toNat_lt
  rw [instant, instant] at past wraps
  rw [UInt64.lt_iff_toNat_lt, UInt64.toNat_sub]
  omega

theorem instant_add {s t : UInt64} (fits : instant s + instant t < 2 ^ 64) :
    instant (s + t) = instant s + instant t := by
  rw [instant, instant] at fits ⊢
  rw [instant, UInt64.toNat_add, Nat.mod_eq_of_lt (by omega)]
  omega

/-! ### One knock -/

section Judged

variable {cfg : AdmissionConfig} (limits : Limits cfg) {adm : Admission} (same : SameRate adm.cfg cfg)
  {now : UInt64}

/-- The recorded times are integers, of which those before the window are dropped. -/
abbrev width (cfg : AdmissionConfig) : ℤ := span cfg.rateLimitWindowSeconds + 1

include limits

/-- The cutoff of a window that the clock has passed. -/
theorem lt_cutoff_iff (passed : span cfg.rateLimitWindowSeconds ≤ instant now) {t : UInt64} :
    t < now - nanoseconds cfg.rateLimitWindowSeconds ↔ instant t ≤ instant now - width cfg := by
  have length := instant_nanoseconds limits.window.1 limits.window.2
  rw [lt_iff_instant, instant_sub (by rw [length]; exact passed), length, width]
  omega

include same

theorem pruneAttempts_eq (ordered : (adm.attempts.map instant).Pairwise (· ≤ ·))
    (passed : adm.attempts = [] ∨ span cfg.rateLimitWindowSeconds ≤ instant now) :
    ∃ kept, adm.pruneAttempts now = { adm with attempts := kept } ∧
      kept.map instant = recent (width cfg) (instant now) (adm.attempts.map instant) := by
  have positive : ¬ adm.cfg.rateLimitWindowSeconds ≤ 0 := by
    rw [same.window]
    exact Int.not_le.mpr limits.window.1
  refine ⟨_, by rw [pruneAttempts, if_neg positive], ?_⟩
  rw [← dropWhile_eq_recent ordered, List.dropWhile_map, same.window]
  rcases passed with empty | passed
  · rw [empty, List.dropWhile_nil, List.dropWhile_nil]
  · have before : (fun t => decide (t < now - nanoseconds cfg.rateLimitWindowSeconds)) =
        (fun t => decide (t ≤ instant now - width cfg)) ∘ instant := by
      funext t
      exact decide_eq_decide.mpr (lt_cutoff_iff limits passed)
    rw [before]

/-- The three ways in which a knock is judged. -/
theorem judged (ordered : (adm.attempts.map instant).Pairwise (· ≤ ·))
    (passed : adm.attempts = [] ∨ span cfg.rateLimitWindowSeconds ≤ instant now) :
    (instant now < instant adm.lockoutUntilNs ∧ adm.rateLimitBlocks now = (adm, true)) ∨
    ¬ instant now < instant adm.lockoutUntilNs ∧ ∃ kept,
      kept.map instant = recent (width cfg) (instant now) (adm.attempts.map instant) ∧
      (cfg.rateLimitMaxAttempts ≤ kept.length ∧ adm.rateLimitBlocks now =
          ({ adm with
              attempts := kept
              lockoutUntilNs := now + nanoseconds cfg.lockoutSeconds }, true) ∨
        kept.length < cfg.rateLimitMaxAttempts ∧
          adm.rateLimitBlocks now = ({ adm with attempts := kept }, false)) := by
  rw [rateLimitBlocks]
  by_cases locked : adm.lockoutUntilNs > now
  · rw [if_pos locked]
    exact .inl ⟨lt_iff_instant.mp locked, rfl⟩
  · right
    refine ⟨fun before => locked (lt_iff_instant.mpr before), ?_⟩
    obtain ⟨kept, pruned, recent⟩ := pruneAttempts_eq limits same ordered passed
    refine ⟨kept, recent, ?_⟩
    rw [if_neg locked, pruned]
    simp only [same.attempts, same.lockout]
    by_cases full : cfg.rateLimitMaxAttempts ≤ kept.length
    · rw [if_pos ⟨limits.attempts, full⟩]
      exact .inl ⟨full, rfl⟩
    · rw [if_neg fun both => full both.2]
      exact .inr ⟨Int.not_le.mp full, rfl⟩

end Judged

/-- The rate limit records nothing. -/
theorem rateLimitBlocks_attempts (adm : Admission) (now : UInt64) :
    (adm.rateLimitBlocks now).1.attempts ⊆ adm.attempts := by
  have pruned : (adm.pruneAttempts now).attempts ⊆ adm.attempts := by
    rw [pruneAttempts]
    split_ifs
    · exact List.Subset.refl _
    · exact (List.dropWhile_suffix _).subset
  rw [rateLimitBlocks]
  by_cases locked : adm.lockoutUntilNs > now
  · rw [if_pos locked]
    exact List.Subset.refl _
  · rw [if_neg locked]
    by_cases full : (adm.pruneAttempts now).cfg.rateLimitMaxAttempts > 0 ∧
        (adm.pruneAttempts now).attempts.length ≥ (adm.pruneAttempts now).cfg.rateLimitMaxAttempts
    · simp only [if_pos full]
      exact pruned
    · simp only [if_neg full]
      exact pruned

/-- A call other than a knock leaves the ledger and the lockout alone. -/
theorem perform_of_quiet (adm : Admission) {op : Op} (quiet : op.knock? = none) :
    (adm.perform op).1.attempts = adm.attempts ∧ (adm.perform op).1.cfg = adm.cfg := by
  have set (peerId : Bytes) (newState : PeerState) (pin : Bool) :
      (adm.setPeerState peerId newState pin).1.attempts = adm.attempts ∧
        (adm.setPeerState peerId newState pin).1.cfg = adm.cfg := by
    rcases adm.setPeerState_cases peerId newState pin with ⟨-, same⟩ | ⟨_, -, changed⟩
    · rw [same]
      exact ⟨rfl, rfl⟩
    · rw [changed]
      exact ⟨rfl, rfl⟩
  cases op with
  | addPending => cases quiet
  | accept peerId pin => exact set peerId .accepted pin
  | reject peerId => exact set peerId .rejected false
  | disconnectPeer peerId => exact set peerId .disconnected false
  | revokeAll => exact ⟨rfl, rfl⟩

/-- A knock that is not refused is recorded, whatever becomes of it. -/
theorem addPending_attempts (adm : Admission) (peerId displayName fingerprint : Bytes)
    (now : UInt64) :
    (adm.addPending peerId displayName fingerprint now).1.attempts =
      (adm.rateLimitBlocks now).1.attempts ++
        if (adm.rateLimitBlocks now).2 then [] else [now] := by
  rw [addPending]
  cases judgement : adm.rateLimitBlocks now with
  | mk limited blocked =>
    cases blocked with
    | true => simp
    | false =>
      simp only [Bool.false_eq_true, if_false]
      split_ifs <;> rfl

/-! ### Runs -/

section Runs

variable {cfg : AdmissionConfig} (limits : Limits cfg)

/-- The ledger agrees with what has been recorded, as far as the window reaches
from now on. -/
structure Tracks (cfg : AdmissionConfig) (before : List Op) : Prop where
  rate : SameRate (after cfg before).cfg cfg
  known : (recorded cfg before).Sublist ((clock before).map instant)
  ledger : ((after cfg before).attempts.map instant).Sublist (recorded cfg before)
  window : ∀ now, (∀ t ∈ clock before, instant t ≤ now) →
    recent (width cfg) now ((after cfg before).attempts.map instant) =
      recent (width cfg) now (recorded cfg before)
  limited : Limited (width cfg) cfg.rateLimitMaxAttempts.toNat (recorded cfg before)

include limits in
theorem tracks_nil : Tracks cfg [] where
  rate := by
    have kept {fallback value : ℤ} (positive : 0 < value) : positiveOr fallback value = value :=
      if_neg (Int.not_le.mpr positive)
    exact ⟨kept limits.window.1, kept limits.attempts, kept limits.lockout.1⟩
  known := .slnil
  ledger := .slnil
  window _ _ := rfl
  limited := .nil

theorem load_eq (before : List Op) (now : UInt64) :
    load cfg before now = (recent (width cfg) (instant now) (recorded cfg before)).length := by
  rw [load, recent]
  congr 1
  refine List.filter_congr fun t _ => decide_eq_decide.mpr ?_
  rw [width]
  omega

/-- How a knock is judged along a run, in terms of what has been recorded. -/
theorem Tracks.judged (limits : Limits cfg) {before : List Op} (tracks : Tracks cfg before)
    {now : UInt64} (ordered : ((clock before).map instant).Pairwise (· ≤ ·))
    (latest : ∀ t ∈ clock before, instant t ≤ instant now)
    (passed : clock before = [] ∨ span cfg.rateLimitWindowSeconds ≤ instant now) :
    (instant now < instant (after cfg before).lockoutUntilNs ∧
      (after cfg before).rateLimitBlocks now = (after cfg before, true)) ∨
    ¬ instant now < instant (after cfg before).lockoutUntilNs ∧ ∃ kept,
      kept.map instant = recent (width cfg) (instant now) (recorded cfg before) ∧
      (cfg.rateLimitMaxAttempts ≤ load cfg before now ∧
          (after cfg before).rateLimitBlocks now = ({ after cfg before with
            attempts := kept
            lockoutUntilNs := now + nanoseconds cfg.lockoutSeconds }, true) ∨
        load cfg before now < cfg.rateLimitMaxAttempts ∧
          (after cfg before).rateLimitBlocks now =
            ({ after cfg before with attempts := kept }, false)) := by
  have sorted := (ordered.sublist tracks.known).sublist tracks.ledger
  have passed' : (after cfg before).attempts = [] ∨
      span cfg.rateLimitWindowSeconds ≤ instant now := by
    refine passed.imp_left fun silent => ?_
    have nothing := tracks.ledger.trans tracks.known
    rw [silent, List.map_nil, List.sublist_nil, List.map_eq_nil_iff] at nothing
    exact nothing
  -- what the store has pruned lies outside every later window
  have width' := tracks.window (instant now) latest
  obtain locked | ⟨free, kept, recent, judgement⟩ :=
    Admission.judged limits tracks.rate sorted passed'
  · exact .inl locked
  · have count : kept.length = load cfg before now := by
      rw [load_eq, ← width', ← recent, List.length_map]
    refine .inr ⟨free, kept, recent.trans width', ?_⟩
    rwa [count] at judgement

/-- The times of the knocks never decrease. -/
def Ordered (ops : List Op) : Prop := ((clock ops).map instant).Pairwise (· ≤ ·)

instance (ops : List Op) : Decidable (Ordered ops) := inferInstanceAs (Decidable (List.Pairwise ..))

theorem clock_concat (before : List Op) (op : Op) :
    clock (before ++ [op]) = clock before ++ op.knock?.toList := by
  rw [clock, List.filterMap_append, ← clock, List.filterMap_cons]
  cases op.knock? <;> rfl

theorem Ordered.before {before later : List Op} (ordered : Ordered (before ++ later)) :
    Ordered before := by
  rw [Ordered, clock, List.filterMap_append, List.map_append] at ordered
  exact (List.pairwise_append.mp ordered).1

theorem Ordered.latest {before : List Op} {op : Op} (ordered : Ordered (before ++ [op]))
    {now : UInt64} (knock : op.knock? = some now) : ∀ t ∈ clock before, instant t ≤ instant now := by
  rw [Ordered, clock_concat, List.map_append] at ordered
  intro t member
  refine (List.pairwise_append.mp ordered).2.2 _ (List.mem_map_of_mem member) _ ?_
  simp [knock]

/-- A call other than a knock changes neither the ledger nor the record. -/
theorem Tracks.quiet {before : List Op} (tracks : Tracks cfg before) {op : Op}
    (quiet : op.knock? = none) : Tracks cfg (before ++ [op]) := by
  obtain ⟨attempts, same⟩ := perform_of_quiet (after cfg before) quiet
  have record : recorded cfg (before ++ [op]) = recorded cfg before := by
    rw [recorded_concat, attempt?, quiet]
    simp
  have times : clock (before ++ [op]) = clock before := by
    rw [clock_concat, quiet]
    simp
  constructor
  · rw [after_concat, next, same]
    exact tracks.rate
  · rw [record, times]
    exact tracks.known
  · rw [record, after_concat, next, attempts]
    exact tracks.ledger
  · rw [record, times, after_concat, next, attempts]
    exact tracks.window
  · rw [record]
    exact tracks.limited

/-- A refused knock is not recorded. -/
theorem Tracks.refused {before : List Op} (tracks : Tracks cfg before) {op : Op} {now : UInt64}
    (knock : op.knock? = some now) {kept : List UInt64}
    (attempts : (after cfg (before ++ [op])).attempts = kept)
    (rate : SameRate (after cfg (before ++ [op])).cfg cfg)
    (blocked : ((after cfg before).rateLimitBlocks now).2)
    (ledger : (kept.map instant).Sublist (recorded cfg before))
    (window : ∀ later, instant now ≤ later → (∀ t ∈ clock before, instant t ≤ later) →
      recent (width cfg) later (kept.map instant) =
        recent (width cfg) later (recorded cfg before)) :
    Tracks cfg (before ++ [op]) := by
  have record : recorded cfg (before ++ [op]) = recorded cfg before := by
    rw [recorded_concat, attempt?, knock, Option.filter_some, blocked]
    simp
  constructor
  · exact rate
  · rw [record, clock_concat, List.map_append]
    exact tracks.known.trans (List.sublist_append_left _ _)
  · rwa [record, attempts]
  · intro later latest
    rw [clock_concat, knock] at latest
    rw [record, attempts]
    refine window later (latest now (by simp)) fun t member => latest t ?_
    exact List.mem_append_left _ member
  · rw [record]
    exact tracks.limited

/-- A knock that is let through is recorded. -/
theorem Tracks.recorded {before : List Op} (tracks : Tracks cfg before) {op : Op} {now : UInt64}
    (knock : op.knock? = some now) {kept : List UInt64}
    (attempts : (after cfg (before ++ [op])).attempts = kept ++ [now])
    (rate : SameRate (after cfg (before ++ [op])).cfg cfg)
    (free : ((after cfg before).rateLimitBlocks now).2 = false)
    (room : load cfg before now < cfg.rateLimitMaxAttempts)
    (recent_ : kept.map instant = recent (width cfg) (instant now) (recorded cfg before)) :
    Tracks cfg (before ++ [op]) := by
  -- the knock has been let through, so it counts from now on
  have record : Admission.recorded cfg (before ++ [op]) =
      Admission.recorded cfg before ++ [instant now] := by
    rw [recorded_concat, attempt?, knock, Option.filter_some, free]
    simp
  constructor
  · exact rate
  · rw [record, clock_concat, knock, List.map_append]
    exact tracks.known.append (List.Sublist.refl _)
  · rw [record, attempts, List.map_append, recent_]
    exact List.filter_sublist.append (List.Sublist.refl _)
  · intro later latest
    rw [clock_concat, knock] at latest
    rw [record, attempts, List.map_append, recent_append, recent_append, recent_,
      recent_recent (latest now (by simp))]
    rfl
  · rw [record]
    refine .concat tracks.limited ?_
    rw [← load_eq]
    omega

include limits in
/-- The ledger stays in agreement along clear knocks. -/
theorem Tracks.step {before : List Op} {op : Op} (tracks : Tracks cfg before)
    (ordered : Ordered (before ++ [op])) (clear : Clear cfg before op) :
    Tracks cfg (before ++ [op]) := by
  cases knock : op.knock? with
  | none => exact tracks.quiet knock
  | some now =>
    obtain ⟨peerId, displayName, fingerprint, rfl⟩ : ∃ peerId displayName fingerprint,
        op = .addPending peerId displayName fingerprint now := by
      cases op with
      | addPending peerId displayName fingerprint time =>
        obtain rfl : time = now := Option.some.inj knock
        exact ⟨peerId, displayName, fingerprint, rfl⟩
      | _ => cases knock
    have latest := ordered.latest knock
    have attempts := (after cfg before).addPending_attempts peerId displayName fingerprint now
    have rate : SameRate (after cfg (before ++
        [.addPending peerId displayName fingerprint now])).cfg cfg := by
      have kept := ((after cfg before).addPending_cases peerId displayName fingerprint now).1
      rw [after_concat, next, perform, kept]
      exact tracks.rate
    have reached : (after cfg (before ++
        [.addPending peerId displayName fingerprint now])).attempts =
          ((after cfg before).addPending peerId displayName fingerprint now).1.attempts := by
      rw [after_concat, next, perform]
    have narrowed {kept : List UInt64}
        (recent_ : kept.map instant = recent (width cfg) (instant now) (Admission.recorded cfg before))
        (later : ℤ) (after : instant now ≤ later) :
        recent (width cfg) later (kept.map instant) =
          recent (width cfg) later (Admission.recorded cfg before) := by
      rw [recent_, recent_recent after]
    obtain ⟨-, judgement⟩ | ⟨-, kept, recent_, ⟨-, judgement⟩ | ⟨room, judgement⟩⟩ :=
      tracks.judged limits ordered.before latest (clear now knock).1
    · -- locked out: the ledger is not looked at
      rw [judgement] at attempts
      refine tracks.refused knock (reached.trans (by simpa using attempts)) rate
        (by rw [judgement]) tracks.ledger fun later _ => tracks.window later
    · rw [judgement] at attempts
      refine tracks.refused knock (reached.trans (by simpa using attempts)) rate
        (by rw [judgement]) ?_ fun later after _ => narrowed recent_ later after
      rw [recent_]
      exact List.filter_sublist
    · rw [judgement] at attempts
      exact tracks.recorded knock (reached.trans (by simpa using attempts)) rate
        (by rw [judgement]) room recent_

include limits in
theorem tracks {ops : List Op} (ordered : Ordered ops) (every : EveryStep (Clear cfg) ops) :
    Tracks cfg ops := by
  induction ops using List.reverseRecOn with
  | nil => exact tracks_nil limits
  | append_singleton before op ih =>
    obtain ⟨earlier, clear⟩ := everyStep_concat.mp every
    exact (ih ordered.before earlier).step limits ordered clear

include limits in
/-- A clear knock is judged by the integers. -/
theorem Tracks.exactAt {before : List Op} (tracks : Tracks cfg before) {op : Op}
    (ordered : Ordered (before ++ [op])) (clear : Clear cfg before op) {now : UInt64}
    (knock : op.knock? = some now) : ExactAt cfg before now := by
  obtain ⟨passed, fits⟩ := clear now knock
  obtain ⟨locked, judgement⟩ | ⟨free, kept, -, ⟨full, judgement⟩ | ⟨room, judgement⟩⟩ :=
    tracks.judged limits ordered.before (ordered.latest knock) passed
  · refine ⟨?_, fun free => absurd locked free⟩
    rw [judgement]
    exact iff_of_true rfl (.inl locked)
  · refine ⟨?_, fun _ _ => ?_⟩
    · rw [judgement]
      exact iff_of_true rfl (.inr full)
    · have length := instant_nanoseconds limits.lockout.1 limits.lockout.2
      rw [judgement, instant_add (by rw [length]; exact fits), length]
  · refine ⟨?_, fun _ refused => ?_⟩
    · rw [judgement]
      refine iff_of_false (by simp) ?_
      rintro (locked | full)
      · exact free locked
      · omega
    · rw [judgement] at refused
      cases refused

include limits in
/-- Along clear knocks every knock is judged by the integers, and no interval as long
as the window sees more recorded knocks than the limit. -/
theorem exact_sliding_window {ops : List Op} (ordered : Ordered ops)
    (every : EveryStep (Clear cfg) ops) :
    (∀ before op later now, ops = before ++ op :: later → op.knock? = some now →
      ExactAt cfg before now) ∧
    ∀ start, (((recorded cfg ops).filter fun t =>
      start ≤ t ∧ t ≤ start + span cfg.rateLimitWindowSeconds).length : ℤ) ≤
        cfg.rateLimitMaxAttempts := by
  constructor
  · rintro before op later now rfl knock
    rw [List.append_cons] at ordered every
    obtain ⟨earlier, clear⟩ := everyStep_concat.mp every.of_append
    exact (tracks limits ordered.before.before earlier).exactAt limits ordered.before clear knock
  · intro start
    have limited := (tracks limits ordered every).limited.length_within_le start
    have same : within start (width cfg) (recorded cfg ops) = (recorded cfg ops).filter fun t =>
        start ≤ t ∧ t ≤ start + span cfg.rateLimitWindowSeconds := by
      refine List.filter_congr fun t _ => decide_eq_decide.mpr ?_
      rw [width]
      omega
    have positive := limits.attempts
    rw [← same]
    omega

/-- Only times of earlier knocks are in the ledger. -/
theorem attempts_subset (cfg : AdmissionConfig) (ops : List Op) :
    (after cfg ops).attempts ⊆ clock ops := by
  induction ops using List.reverseRecOn with
  | nil => exact List.nil_subset _
  | append_singleton before op ih =>
    rw [after_concat, next, clock_concat]
    cases knock : op.knock? with
    | none =>
      rw [(perform_of_quiet _ knock).1]
      exact List.subset_append_of_subset_left _ ih
    | some now =>
      cases op with
      | addPending peerId displayName fingerprint time =>
        obtain rfl : time = now := Option.some.inj knock
        have kept := (after cfg before).rateLimitBlocks_attempts time
        rw [perform, addPending_attempts]
        refine List.append_subset.mpr ⟨?_, ?_⟩
        · exact List.subset_append_of_subset_left _ (List.Subset.trans kept ih)
        · split_ifs
          · exact List.nil_subset _
          · exact List.subset_append_right _ _
      | _ => cases knock

include limits in
/-- While the clock shows less than the window, the window is empty, whatever has been
recorded: outside a lockout no knock is refused for its rate. -/
theorem boot_window_open {before : List Op} (rate : SameRate (after cfg before).cfg cfg)
    {now : UInt64} (latest : ∀ t ∈ clock before, instant t ≤ instant now)
    (boot : instant now < span cfg.rateLimitWindowSeconds)
    (free : ¬ instant now < instant (after cfg before).lockoutUntilNs) :
    ((after cfg before).rateLimitBlocks now).2 = false := by
  have length := instant_nanoseconds limits.window.1 limits.window.2
  have positive : ¬ (after cfg before).cfg.rateLimitWindowSeconds ≤ 0 := by
    rw [rate.window]
    exact Int.not_le.mpr limits.window.1
  -- the cutoff has wrapped around to a time in the far future
  have cutoff : ∀ t ∈ (after cfg before).attempts,
      t < now - nanoseconds cfg.rateLimitWindowSeconds := by
    intro t member
    have past := latest t (attempts_subset cfg before member)
    exact lt_wrapped past (by rw [length]; exact boot)
  have empty : ((after cfg before).pruneAttempts now).attempts = [] := by
    rw [pruneAttempts, if_neg positive, rate.window]
    exact List.dropWhile_eq_nil_iff.mpr fun t member => by simpa using cutoff t member
  have max : ((after cfg before).pruneAttempts now).cfg.rateLimitMaxAttempts =
      cfg.rateLimitMaxAttempts := by
    rw [pruneAttempts, if_neg positive]
    exact rate.attempts
  rw [rateLimitBlocks, if_neg fun locked => free (lt_iff_instant.mp locked)]
  generalize (after cfg before).pruneAttempts now = limited at empty max
  have room := limits.attempts
  dsimp only
  rw [if_neg]
  rintro ⟨-, full⟩
  rw [empty, max, List.length_nil] at full
  omega

end Runs

/-! ### A clock after boot -/

/-- One attempt a minute. -/
def strictConfig : AdmissionConfig where
  maxReceivers := 4
  rateLimitWindowSeconds := 60
  rateLimitMaxAttempts := 1
  lockoutSeconds := 300
  autoAcceptPinned := true

theorem limits_strictConfig : Limits strictConfig := ⟨by decide, by decide, by decide⟩

/-- Two knocks in the same second, an hour after boot. -/
def lateKnocks : List Op :=
  [.addPending (bytes "a") [] [] 3600000000000, .addPending (bytes "b") [] [] 3600500000000]

/-- The second knock of the sample is refused. -/
theorem exact_sliding_window_lateKnocks :
    ((after strictConfig (lateKnocks.take 1)).rateLimitBlocks 3600500000000).2 = true := by
  have ordered : Ordered lateKnocks := by decide
  have law := (exact_sliding_window limits_strictConfig ordered (by decide)).1
  exact (law _ _ [] _ rfl rfl).refused.mpr (.inr (by decide))

/-- A second after boot the second knock of a minute is let through. -/
theorem boot_knock_passes :
    ¬ ExactAt strictConfig [.addPending (bytes "a") [] [] 1000000000] 1500000000 := by
  intro exact_
  have refused := exact_.refused.mpr (.inr (by decide))
  revert refused
  decide

end Admission

end Tether.Plugin
