import Mathlib.Algebra.Order.BigOperators.Group.List
import Mathlib.Algebra.Order.Group.Nat
import Mathlib.Algebra.Ring.Nat
import Tether.Plugin.ReceiveRegistry
import Tether.Semantics.Ledger

/-!
# Shares in a receiving session

A session is shared by its references, its subscriptions and the enumerations that
still have to visit it. Seen so, the registry is a ledger, and its calls, cut as they
are at their critical sections, only ever take shares, pass them on and drop them.

## Main definitions

* `references`, `subscriptions`, `enumerations` — who shares in a session
* `ledger` — the registry as a ledger of shares

## Main results

* `steps_next` — every event of the registry is a number of steps of the ledger
* `sane_next` — what the calls rely on stays there
-/

namespace Tether.Plugin

open Text Semantics Semantics.Ledger

/-! ### Sums over the calls -/

/-- The sum of a quantity over the calls in progress. -/
def total (f : Call → ℕ) (calls : List Call) : ℕ := (calls.map f).sum

theorem total_append (f : Call → ℕ) (first second : List Call) :
    total f (first ++ second) = total f first + total f second := by
  rw [total, List.map_append, List.sum_append, ← total, ← total]

@[simp] theorem total_nil (f : Call → ℕ) : total f [] = 0 := rfl

@[simp] theorem total_concat (f : Call → ℕ) (calls : List Call) (call : Call) :
    total f (calls ++ [call]) = total f calls + f call := by
  rw [total_append]
  simp [total]

theorem le_total_of_mem (f : Call → ℕ) {call : Call} {calls : List Call} (member : call ∈ calls) :
    f call ≤ total f calls :=
  List.le_sum_of_mem (List.mem_map_of_mem member)

theorem exists_of_total_pos {f : Call → ℕ} {calls : List Call} (positive : 0 < total f calls) :
    ∃ call ∈ calls, 0 < f call := by
  by_contra nobody
  push Not at nobody
  have none : total f calls = 0 := by
    apply List.sum_eq_zero
    intro n member
    obtain ⟨call, inside, rfl⟩ := List.mem_map.mp member
    exact Nat.le_zero.mp (nobody call inside)
  omega

/-- What a call has left to do counts for it. -/
def pending (f : Call → ℕ) (next : Option Call) : ℕ := next.elim 0 f

theorem total_toList (f : Call → ℕ) (next : Option Call) :
    total f next.toList = pending f next := by
  cases next with
  | none => rfl
  | some call => simp [total, pending]

/-- A call is between those in front of it and those behind. -/
theorem split_calls {i : ℕ} {call : Call} {calls : List Call} (here : calls[i]? = some call) :
    calls = calls.take i ++ call :: calls.drop (i + 1) := by
  obtain ⟨inside, rfl⟩ := List.getElem?_eq_some_iff.mp here
  rw [List.getElem_cons_drop, List.take_append_drop]

/-- Moving a call on replaces its own summand. -/
theorem total_moveOn {i : ℕ} {call : Call} {calls : List Call} (here : calls[i]? = some call)
    (next : Option Call) (f : Call → ℕ) :
    total f (moveOn i next calls) + f call = total f calls + pending f next := by
  have split : total f calls =
      total f (calls.take i) + (f call + total f (calls.drop (i + 1))) := by
    conv_lhs => rw [split_calls here]
    rw [total_append]
    simp [total]
  rw [moveOn, total_append, total_append, total_toList, split]
  omega

theorem mem_of_mem_moveOn {i : ℕ} {next : Option Call} {calls : List Call} {call : Call}
    (member : call ∈ moveOn i next calls) : call ∈ calls ∨ call ∈ next := by
  rw [moveOn, List.mem_append, List.mem_append, Option.mem_toList] at member
  rcases member with (before | moved) | behind
  · exact .inl (List.mem_of_mem_take before)
  · exact .inr moved
  · exact .inl (List.mem_of_mem_drop behind)

/-! ### Shares -/

/-- The subscriptions to a session. -/
abbrev countSession (s : ℕ) (subs : List Subscription) : ℕ := subs.countP (s = ·.session)

theorem countSession_concat (s : ℕ) (sub : Subscription) (subs : List Subscription) :
    countSession s (subs ++ [sub]) = countSession s subs + one s sub.session := by
  simp [countSession, one, List.countP_append, List.countP_singleton]

theorem countSession_erase {sub : Subscription} {subs : List Subscription}
    (member : sub ∈ subs) (s : ℕ) :
    countSession s (subs.erase sub) + one s sub.session = countSession s subs := by
  have moved := List.perm_cons_erase member
  rw [countSession, countSession, moved.countP_eq, List.countP_cons]
  simp [one]

/-- A reference that is being released. -/
def Call.references (s : ℕ) : Call → ℕ
  | .release t .holder => one s t
  | _ => 0

/-- A subscription that is not in its owner's books: not yet, or not any more. -/
def Call.subscriptions (s : ℕ) : Call → ℕ
  | .replay sub => one s sub.session
  | .release t (.unsubscribe _) => one s t
  | _ => 0

/-- The sessions that an enumeration has not let go of. -/
def Call.enumerations (s : ℕ) : Call → ℕ
  | .visit rest | .destroy _ (.enumerate rest) => rest.count s
  | .release t (.enumerate rest) => one s t + rest.count s
  | _ => 0

def Call.shares (s : ℕ) (call : Call) : ℕ :=
  call.references s + call.subscriptions s + call.enumerations s

/-- A session that is about to be destroyed. -/
def Call.destructions (s : ℕ) : Call → ℕ
  | .destroy t _ => one s t
  | _ => 0

/-- The call is for a reference to, or a subscription of, this session. -/
def Call.concerns (s : ℕ) : Call → Bool
  | .bump sub | .replay sub => sub.session = s
  | .release t .holder | .release t (.unsubscribe _) => t = s
  | _ => false

/-- A subscription that its owner has not been given yet. -/
def Call.links (sub : Subscription) : Call → ℕ
  | .bump other | .replay other => one sub other
  | _ => 0

/-- A release has a share in its session, besides what its caller goes on with. -/
theorem shares_release (s t : ℕ) (caller : Caller) :
    (Call.release t caller).shares s = one s t + pending (Call.shares s) caller.next := by
  cases caller <;> simp [Call.shares, Call.references, Call.subscriptions, Call.enumerations,
    Caller.next, pending]

theorem shares_destroy (s t : ℕ) (caller : Caller) :
    (Call.destroy t caller).shares s = pending (Call.shares s) caller.next := by
  cases caller <;> simp [Call.shares, Call.references, Call.subscriptions, Call.enumerations,
    Caller.next, pending]

theorem links_next (sub : Subscription) (caller : Caller) :
    pending (Call.links sub) caller.next = 0 := by
  cases caller <;> rfl

theorem destructions_next (s : ℕ) (caller : Caller) :
    pending (Call.destructions s) caller.next = 0 := by
  cases caller <;> rfl

namespace ReceiveRegistry

/-- References that have been got and whose release has not happened. -/
def references (r : ReceiveRegistry) (s : ℕ) : ℕ :=
  r.held.count s + total (Call.references s) r.calls

/-- Subscriptions that have taken their reference and not given it back. -/
def subscriptions (r : ReceiveRegistry) (s : ℕ) : ℕ :=
  countSession s r.subscribed + total (Call.subscriptions s) r.calls

/-- Enumerations that have not let go of the session. -/
def enumerations (r : ReceiveRegistry) (s : ℕ) : ℕ := total (Call.enumerations s) r.calls

/-- How often the session was, or is about to be, destroyed. -/
def destructions (r : ReceiveRegistry) (s : ℕ) : ℕ :=
  r.freed.count s + total (Call.destructions s) r.calls

/-- The registry as a ledger. -/
def ledger (r : ReceiveRegistry) : Ledger ℕ where
  count := fun s => (r.memory s).refcount
  shares := fun s => r.references s + r.subscriptions s + r.enumerations s
  listed := r.sessions
  doomed := r.destructions
  issued := fun s => s < r.allocated

theorem shares_eq (r : ReceiveRegistry) (s : ℕ) :
    r.ledger.shares s =
      r.held.count s + countSession s r.subscribed + total (Call.shares s) r.calls := by
  have parts : total (Call.shares s) r.calls =
      total (Call.references s) r.calls + total (Call.subscriptions s) r.calls +
        total (Call.enumerations s) r.calls := by
    induction r.calls with
    | nil => rfl
    | cons call rest ih =>
      simp only [total, List.map_cons, List.sum_cons, Call.shares] at ih ⊢
      omega
  rw [parts]
  simp only [ledger, references, subscriptions, enumerations]
  omega

/-- Two ledgers with the same books. -/
theorem ledger_eq {r : ReceiveRegistry} {ledger : Ledger ℕ}
    (count : ∀ s, (r.memory s).refcount = ledger.count s)
    (shares : ∀ s, r.ledger.shares s = ledger.shares s) (listed : r.sessions = ledger.listed)
    (doomed : ∀ s, r.destructions s = ledger.doomed s)
    (issued : ∀ s, s < r.allocated ↔ ledger.issued s) : r.ledger = ledger := by
  apply Ledger.ext
  · funext s
    exact count s
  · funext s
    exact shares s
  · exact listed
  · funext s
    exact doomed s
  · funext s
    exact propext (issued s)

theorem steps_of_eq {first second : Ledger ℕ} (same : second = first) :
    Ledger.Steps first second := by
  rw [same]

/-! ### One event -/

/-- Nobody has a session before the registry is initialised, and whoever relies on a
reference has one. -/
structure Sane (r : ReceiveRegistry) : Prop where
  idle : r.initialised = false → r.sessions = []
  relied : ∀ sub, .bump sub ∈ r.calls → sub.session ∈ r.held

variable {r : ReceiveRegistry}

theorem owned_of_held {s : ℕ} (held : s ∈ r.held) : 0 < r.ledger.shares s := by
  have some : 0 < r.held.count s := List.count_pos_iff.mpr held
  rw [shares_eq]
  omega

theorem owned_of_mem {call : Call} (member : call ∈ r.calls) {s : ℕ} (owns : 0 < call.shares s) :
    0 < r.ledger.shares s := by
  have mine := le_total_of_mem (Call.shares s) member
  rw [shares_eq]
  omega

theorem ledger_init (sane : r.Sane) (down : r.initialised = false) :
    ledger { r with initialised := true, sessions := [] } = r.ledger := by
  apply ledger_eq <;> intros <;> try rfl
  -- the list that is emptied is empty
  exact (sane.idle down).symm

theorem refcount_bump (s t : ℕ) :
    ((r.bump s).memory t).refcount = (r.memory t).refcount + one t s := by
  by_cases same : t = s
  · subst same
    simp [bump, increment, one_self]
  · simp [bump, increment, same, one_of_ne same]

/-- A get takes a share, or issues a session with one. -/
theorem steps_get (sound : r.ledger.Sound) (token : Bytes) (connects : Bool) :
    Ledger.Steps r.ledger (r.next (.get token connects)).ledger := by
  have got := got_get r token connects
  rw [next, step]
  revert got
  generalize r.get token connects = result
  rintro (why | ⟨s, listed, -⟩ | ⟨session, -, -, made⟩)
  · apply steps_of_eq
    -- nothing has been got
    apply congrArg ledger
    simp
  · -- a session of the list, which therefore has shares
    have owned : 0 < r.ledger.shares s := (sound.listed_iff s).mp listed
    have same : { r.bump s with held := r.held ++ [s] }.ledger = r.ledger.share s := by
      apply ledger_eq
      · intro t
        rw [Ledger.count_share]
        exact refcount_bump s t
      · intro t
        rw [Ledger.shares_share, shares_eq, shares_eq, count_concat]
        simp only [bump]
        omega
      · rfl
      · exact fun t => rfl
      · exact fun t => Iff.rfl
    apply Relation.ReflTransGen.single
    change Ledger.Step r.ledger { r.bump s with held := r.held ++ [s] }.ledger
    rw [same]
    exact .share s owned
  · -- a new session, in memory that nobody has had
    obtain ⟨-, counted, -⟩ := RxSession.sessionCreateLocked_spec made
    have same : { r.create session with held := r.held ++ [r.allocated] }.ledger =
        r.ledger.issue r.allocated := by
      apply ledger_eq
      · intro t
        simp only [create, Ledger.issue, Function.update_apply]
        split_ifs
        · exact counted
        · rfl
      · intro t
        have none := sound.shares_eq_zero (Nat.lt_irrefl r.allocated)
        rw [Ledger.shares_issue none, shares_eq, shares_eq, count_concat]
        simp only [create]
        omega
      · rfl
      · exact fun t => rfl
      · intro t
        simp only [create, Ledger.issue, ledger]
        omega
    apply Relation.ReflTransGen.single
    change Ledger.Step r.ledger { r.create session with held := r.held ++ [r.allocated] }.ledger
    rw [same]
    exact .issue r.allocated (Nat.lt_irrefl _)

/-- What does not touch the counter does not touch the ledger. -/
theorem ledger_modify {s : ℕ} {f : RxSession → RxSession}
    (kept : ∀ session, (f session).refcount = session.refcount) :
    (r.modify s f).ledger = r.ledger :=
  ledger_eq (refcount_kept kept) (fun _ => rfl) rfl (fun _ => rfl) (fun _ => Iff.rfl)

/-- A call that begins brings its shares with it. -/
theorem ledger_begin {call : Call} {ledger : Ledger ℕ}
    (count : ∀ s, (r.memory s).refcount = ledger.count s)
    (shares : ∀ s, r.ledger.shares s + call.shares s = ledger.shares s)
    (listed : r.sessions = ledger.listed)
    (doomed : ∀ s, r.destructions s + call.destructions s = ledger.doomed s)
    (issued : ∀ s, s < r.allocated ↔ ledger.issued s) : (begin call r).ledger = ledger := by
  refine ledger_eq count ?_ listed ?_ issued
  · intro s
    rw [← shares s, shares_eq, shares_eq]
    simp only [begin, total_concat]
    omega
  · intro s
    rw [← doomed s, destructions, destructions]
    simp only [begin, total_concat]
    omega

/-- A call without shares. -/
theorem ledger_begin_of_none {call : Call} (shares : ∀ s, call.shares s = 0)
    (doomed : ∀ s, call.destructions s = 0) : (begin call r).ledger = r.ledger := by
  apply ledger_begin
  · exact fun s => rfl
  · intro s
    rw [shares s]
    rfl
  · rfl
  · intro s
    rw [doomed s]
    rfl
  · exact fun s => Iff.rfl

theorem ledger_subscribe (s : ℕ) (onVideo onAudio onState : Bool) :
    (r.subscribe s onVideo onAudio onState).ledger = r.ledger := by
  rw [subscribe, ledger_begin_of_none (fun _ => rfl) fun _ => rfl]
  exact ledger_modify (r := r) (f := RxSession.push _) fun _ => rfl

/-- A delivery that begins leaves the counters alone. -/
theorem ledger_deliver (s : ℕ) {f : RxSession → RxSession} (keeps : RxSession.Keeps f)
    (delivery : Delivery) :
    (begin (.deliver delivery ((r.modify s f).memory s).subs) (r.modify s f)).ledger =
      r.ledger := by
  rw [ledger_begin_of_none (fun _ => rfl) fun _ => rfl]
  exact ledger_modify keeps.refcount

/-- The reference of a release changes from the holder's books to the call. -/
theorem ledger_release {s : ℕ} (held : s ∈ r.held) :
    (begin (.release s .holder) { r with held := r.held.erase s }).ledger = r.ledger := by
  apply ledger_begin
  · exact fun t => rfl
  · intro t
    rw [shares_release, shares_eq, shares_eq, ← count_erase held t]
    simp only [Caller.next, pending, Option.elim]
    omega
  · rfl
  · exact fun t => rfl
  · exact fun t => Iff.rfl

/-- The reference of a subscription changes from its owner's books to the call. -/
theorem ledger_unsubscribe {sub : Subscription} (owned : sub ∈ r.subscribed) :
    (unsubscribe sub { r with subscribed := r.subscribed.erase sub }).ledger = r.ledger := by
  apply ledger_begin
  · exact refcount_kept fun _ => rfl
  · intro t
    rw [shares_release, shares_eq, shares_eq, ← countSession_erase owned t]
    simp only [Caller.next, pending, Option.elim, modify]
    omega
  · rfl
  · exact fun t => rfl
  · exact fun t => Iff.rfl

theorem refcount_foldl (sessions : List ℕ) (memory : ℕ → RxSession) (s : ℕ) :
    (sessions.foldl (fun memory s => increment s memory) memory s).refcount =
      (memory s).refcount + sessions.count s := by
  induction sessions generalizing memory with
  | nil => exact (Int.add_zero _).symm
  | cons t rest ih =>
    have first : (increment t memory s).refcount = (memory s).refcount + one s t :=
      refcount_bump (r := { start with memory := memory }) t s
    rw [List.foldl_cons, ih, first, ← one_add_count]
    omega

/-- An enumeration shares in all sessions of the list. -/
theorem ledger_enumerate : r.enumerate.ledger = r.ledger.shareAll r.sessions := by
  obtain ⟨listed, doomed, issued⟩ := shareAll_eq r.ledger r.sessions
  apply ledger_begin
  · intro s
    rw [count_shareAll]
    exact refcount_foldl r.sessions r.memory s
  · intro s
    rw [shares_shareAll]
    exact congrArg _ (Nat.zero_add _)
  · exact listed.symm
  · intro s
    rw [doomed]
    rfl
  · intro s
    rw [issued]
    rfl

/-! ### Calls in progress -/

/-- A call that moves on gives up its shares for those of what is left to do. -/
theorem ledger_moveOn {i : ℕ} {call : Call} {next : Option Call} {ledger : Ledger ℕ}
    (here : r.calls[i]? = some call) (count : ∀ s, (r.memory s).refcount = ledger.count s)
    (shares : ∀ s, r.ledger.shares s + pending (Call.shares s) next =
      ledger.shares s + call.shares s)
    (listed : r.sessions = ledger.listed)
    (doomed : ∀ s, r.destructions s + pending (Call.destructions s) next =
      ledger.doomed s + call.destructions s)
    (issued : ∀ s, s < r.allocated ↔ ledger.issued s) :
    { r with calls := moveOn i next r.calls }.ledger = ledger := by
  refine ledger_eq count ?_ listed ?_ issued
  · intro s
    have moved := total_moveOn here next (Call.shares s)
    have balance := shares s
    rw [shares_eq] at balance ⊢
    simp only at balance ⊢
    omega
  · intro s
    have moved := total_moveOn here next (Call.destructions s)
    have balance := doomed s
    rw [destructions] at balance ⊢
    simp only at balance ⊢
    omega

/-- The same, for a call that has no more to do with sessions than before. -/
theorem ledger_moveOn_of_same {i : ℕ} {call : Call} {next : Option Call}
    (here : r.calls[i]? = some call)
    (shares : ∀ s, pending (Call.shares s) next = call.shares s)
    (doomed : ∀ s, pending (Call.destructions s) next = call.destructions s) :
    { r with calls := moveOn i next r.calls }.ledger = r.ledger := by
  apply ledger_moveOn here
  · exact fun s => rfl
  · intro s
    rw [shares s]
  · rfl
  · intro s
    rw [doomed s]
    rfl
  · exact fun s => Iff.rfl

/-- A reference for a subscription. -/
theorem ledger_bump {i : ℕ} {sub : Subscription} (here : r.calls[i]? = some (.bump sub)) :
    (r.proceed i (.bump sub)).1.ledger = r.ledger.share sub.session := by
  apply ledger_moveOn (r := r.bump sub.session) here
  · intro s
    rw [count_share]
    exact refcount_bump sub.session s
  · intro s
    rw [shares_share, Nat.add_assoc]
    exact congrArg _ (Nat.add_comm 0 _)
  · rfl
  · exact fun s => rfl
  · exact fun s => Iff.rfl

/-- The subscription is handed to its owner. -/
theorem ledger_replay {i : ℕ} {sub : Subscription} (here : r.calls[i]? = some (.replay sub)) :
    (r.proceed i (.replay sub)).1.ledger = r.ledger := by
  apply ledger_moveOn (r := { r with subscribed := r.subscribed ++ [sub] }) here
  · exact fun s => rfl
  · intro s
    rw [shares_eq, shares_eq]
    simp only [countSession_concat]
    simp [Call.shares, Call.references, Call.subscriptions, Call.enumerations, pending]
    omega
  · rfl
  · exact fun s => rfl
  · exact fun s => Iff.rfl

theorem refcount_decrement (s t : ℕ) :
    (decrement s r.memory t).refcount = (r.ledger.drop s).count t := by
  rw [count_drop]
  by_cases same : t = s
  · subst same
    simp [decrement, one_self, ledger]
  · simp [decrement, same, one_of_ne same, ledger]

/-- The section of a release gives up its share. -/
theorem ledger_releaseLocked {i s : ℕ} {caller : Caller} (owned : 0 < r.ledger.shares s)
    (here : r.calls[i]? = some (.release s caller)) :
    (r.proceed i (.release s caller)).1.ledger = r.ledger.drop s := by
  have shares (t : ℕ) := shares_drop owned t
  have doomed (t : ℕ) := doomed_drop r.ledger s t
  have before (t : ℕ) := shares_release t s caller
  rw [proceed, releaseLocked_eq]
  -- the last share takes the session off the list; after any other one the caller goes on
  by_cases last : (r.memory s).refcount - 1 ≤ 0
  · rw [if_pos last]
    apply ledger_moveOn (r := { r with
      memory := decrement s r.memory, sessions := r.sessions.erase s }) here
    · exact refcount_decrement s
    · intro t
      have behind := shares_destroy t s caller
      have given := shares t
      change r.ledger.shares t + (Call.destroy s caller).shares t = _
      rw [before]
      omega
    · exact (if_pos last).symm
    · intro t
      rw [doomed t]
      exact congrArg _ (if_pos last).symm
    · exact fun t => Iff.rfl
  · rw [if_neg last]
    apply ledger_moveOn (r := { r with
      memory := decrement s r.memory, returned := r.returned ++ caller.returned }) here
    · exact refcount_decrement s
    · intro t
      have given := shares t
      change r.ledger.shares t + _ = _
      rw [before]
      omega
    · exact (if_neg last).symm
    · intro t
      rw [doomed t, destructions_next]
      exact congrArg _ (if_neg last).symm
    · exact fun t => Iff.rfl

theorem ledger_destroy {i s : ℕ} {caller : Caller}
    (here : r.calls[i]? = some (.destroy s caller)) :
    (r.proceed i (.destroy s caller)).1.ledger = r.ledger := by
  apply ledger_moveOn (r := { r with
    freed := r.freed ++ [s], returned := r.returned ++ caller.returned }) here
  · exact fun t => rfl
  · intro t
    rw [shares_destroy]
    rfl
  · rfl
  · intro t
    rw [destructions_next, destructions, count_concat]
    exact (Nat.add_zero _).trans (Nat.add_right_comm _ _ _)
  · exact fun t => Iff.rfl

/-- The next step of a call in progress. -/
theorem steps_proceed (sane : r.Sane) {i : ℕ} {call : Call} (here : r.calls[i]? = some call) :
    Ledger.Steps r.ledger (r.proceed i call).1.ledger := by
  cases call with
  | bump sub =>
    have owned := owned_of_held (sane.relied sub (List.mem_of_getElem? here))
    apply Relation.ReflTransGen.single
    rw [ledger_bump here]
    exact .share sub.session owned
  | replay sub => exact steps_of_eq (ledger_replay here)
  | visit rest =>
    cases rest with
    | nil => exact steps_of_eq (ledger_moveOn_of_same here (fun _ => rfl) fun _ => rfl)
    | cons s rest =>
      apply steps_of_eq
      apply ledger_moveOn_of_same here
      · intro t
        have both := one_add_count t s rest
        simpa [Call.shares, Call.references, Call.subscriptions, Call.enumerations, pending]
          using both
      · exact fun t => rfl
  | release s caller =>
    have owned : 0 < r.ledger.shares s := by
      apply owned_of_mem (List.mem_of_getElem? here)
      rw [shares_release, one_self]
      omega
    apply Relation.ReflTransGen.single
    rw [ledger_releaseLocked owned here]
    exact .drop s owned
  | destroy s caller => exact steps_of_eq (ledger_destroy here)
  | deliver delivery rest =>
    cases rest with
    | nil => exact steps_of_eq (ledger_moveOn_of_same here (fun _ => rfl) fun _ => rfl)
    | cons sub rest =>
      exact steps_of_eq (ledger_moveOn_of_same here (fun _ => rfl) fun _ => rfl)

/-- Every event is a number of steps of the ledger. -/
theorem steps_next (sane : r.Sane) (sound : r.ledger.Sound) (event : Event) :
    Ledger.Steps r.ledger (r.next event).ledger := by
  have change := r.next_state event
  generalize r.next event = after at change
  cases change with
  | same => exact .refl
  | init down => exact steps_of_eq (ledger_init sane down)
  | get token connects => exact steps_get sound token connects
  | release s may => exact steps_of_eq (ledger_release may.1)
  | subscribe s onVideo onAudio onState =>
    exact steps_of_eq (ledger_subscribe s onVideo onAudio onState)
  | unsubscribe sub owned => exact steps_of_eq (ledger_unsubscribe owned)
  | enumerate =>
    rw [ledger_enumerate]
    -- what is listed has shares, so it can be shared once more
    exact steps_shareAll fun s listed => (sound.listed_iff s).mp listed
  | deliver s keeps delivery => exact steps_of_eq (ledger_deliver s keeps delivery)
  | resume i call _ here => exact steps_proceed sane here

/-! ### What the calls rely on -/

theorem Sane.begin (sane : r.Sane) {call : Call} (other : ∀ sub, call ≠ .bump sub) :
    (begin call r).Sane where
  idle := sane.idle
  relied := by
    intro sub member
    rcases List.mem_append.mp member with before | new
    · exact sane.relied sub before
    · exact absurd (List.mem_singleton.mp new).symm (other sub)

theorem Sane.moveOn (sane : r.Sane) (i : ℕ) {next : Option Call} (other : ∀ sub, .bump sub ∉ next) :
    Sane { r with calls := moveOn i next r.calls } where
  idle := sane.idle
  relied := by
    intro sub member
    rcases mem_of_mem_moveOn member with before | new
    · exact sane.relied sub before
    · exact absurd new (other sub)

theorem Sane.release (sane : r.Sane) {s : ℕ} (may : r.MayRelease s) :
    Sane { r with held := r.held.erase s } where
  idle := sane.idle
  relied := by
    intro sub member
    have held := sane.relied sub member
    by_cases same : sub.session = s
    · -- its holder has another reference, or nobody relies on this one
      rcases may.2 with another | nobody
      · exact same ▸ another
      · have relies := nobody _ member
        simp [Call.reliesOn, same] at relies
    · exact (List.mem_erase_of_ne same).mpr held

/-- A reference more does no harm. -/
theorem Sane.hold (sane : r.Sane) (got : Option ℕ) :
    Sane { r with held := r.held ++ got.toList } where
  idle := sane.idle
  relied := fun sub member => List.mem_append_left _ (sane.relied sub member)

theorem Sane.get (sane : r.Sane) (token : Bytes) (connects : Bool) :
    (r.get token connects).1.Sane := by
  have got := got_get r token connects
  revert got
  generalize r.get token connects = result
  rintro (why | ⟨s, listed, -⟩ | ⟨session, initialised, -, made⟩)
  · exact sane
  · exact ⟨sane.idle, sane.relied⟩
  · exact ⟨fun idle => absurd (initialised.symm.trans idle) (by decide), sane.relied⟩

theorem not_bump_next (sub : Subscription) (caller : Caller) : .bump sub ∉ caller.next := by
  cases caller <;> simp [Caller.next]

theorem sane_proceed (sane : r.Sane) (i : ℕ) (call : Call) : (r.proceed i call).1.Sane := by
  cases call with
  | bump sub => exact Sane.moveOn (r := r.bump sub.session) ⟨sane.idle, sane.relied⟩ i (by simp)
  | replay sub =>
    exact Sane.moveOn (r := { r with subscribed := r.subscribed ++ [sub] })
      ⟨sane.idle, sane.relied⟩ i (by simp)
  | visit rest =>
    cases rest with
    | nil => exact sane.moveOn i (by simp)
    | cons s rest => exact sane.moveOn i (by simp)
  | release s caller =>
    rw [proceed, releaseLocked_eq]
    split_ifs
    · refine Sane.moveOn (r := { r with
        memory := decrement s r.memory, sessions := r.sessions.erase s }) ⟨?_, sane.relied⟩ i
        (by simp)
      intro idle
      exact congrArg (List.erase · s) (sane.idle idle)
    · exact Sane.moveOn (r := { r with
        memory := decrement s r.memory, returned := r.returned ++ caller.returned })
        ⟨sane.idle, sane.relied⟩ i (not_bump_next · caller)
  | destroy s caller =>
    exact Sane.moveOn (r := { r with
      freed := r.freed ++ [s], returned := r.returned ++ caller.returned })
      ⟨sane.idle, sane.relied⟩ i (not_bump_next · caller)
  | deliver delivery rest =>
    cases rest with
    | nil => exact sane.moveOn i (by simp)
    | cons sub rest => exact sane.moveOn i (by simp)

theorem sane_next (sane : r.Sane) (event : Event) : (r.next event).Sane := by
  have change := r.next_state event
  generalize r.next event = after at change
  cases change with
  | same => exact sane
  | init => exact ⟨fun _ => rfl, sane.relied⟩
  | get token connects => exact (sane.get token connects).hold _
  | release s may => exact (sane.release may).begin (by simp)
  | subscribe s onVideo onAudio onState held =>
    refine ⟨sane.idle, ?_⟩
    intro sub member
    rcases List.mem_append.mp member with before | new
    · exact sane.relied sub before
    · -- the call that begins relies on a reference that its caller has
      obtain rfl := Call.bump.inj (List.mem_singleton.mp new)
      exact held
  | unsubscribe sub owned =>
    apply Sane.begin _ (by simp)
    exact ⟨sane.idle, sane.relied⟩
  | enumerate =>
    apply Sane.begin _ (by simp)
    exact ⟨sane.idle, sane.relied⟩
  | deliver s keeps delivery =>
    apply Sane.begin _ (by simp)
    exact ⟨sane.idle, sane.relied⟩
  | resume i call => exact sane_proceed sane i call

end ReceiveRegistry

end Tether.Plugin
