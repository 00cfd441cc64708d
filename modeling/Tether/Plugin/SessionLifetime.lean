import Tether.Plugin.SessionLedger

/-!
# The life of a receiving session

The counter of a session counts its shares at every moment between two critical
sections, so the last of them takes the session with it. The subscriptions in its list
are shares of their own or about to become one, so none is left then.

## Main definitions

* `Linked` — the lists of the sessions against the subscriptions that exist
* `Between` — nobody is in the middle of a call about a session
* `Lifetime` — what holds of a session at every moment

## Main results

* `inOrder_after` — the invariant along every run
* `session_lifetime` — the life of every session
-/

namespace Tether.Plugin

open Text Semantics Semantics.Ledger

namespace ReceiveRegistry

variable {r : ReceiveRegistry}

/-! ### Subscriptions -/

/-- How often a subscription exists. -/
def linked (r : ReceiveRegistry) (sub : Subscription) : ℕ :=
  r.subscribed.count sub + total (Call.links sub) r.calls

/-- The lists of the sessions hold the subscriptions that exist, each its own. -/
def Linked (r : ReceiveRegistry) : Prop :=
  ∀ s sub, (r.memory s).subs.count sub = if sub.session = s then r.linked sub else 0

theorem Linked.of_same {other : ReceiveRegistry} (linked : r.Linked)
    (subs : ∀ s, (other.memory s).subs = (r.memory s).subs)
    (same : ∀ sub, other.linked sub = r.linked sub) : other.Linked := by
  intro s sub
  rw [subs, same]
  exact linked s sub

theorem linked_begin (call : Call) (sub : Subscription) :
    (begin call r).linked sub = r.linked sub + call.links sub := by
  rw [ReceiveRegistry.linked, begin, total_concat, ← Nat.add_assoc]
  rfl

theorem linked_moveOn {i : ℕ} {call : Call} (here : r.calls[i]? = some call)
    (next : Option Call) (sub : Subscription) :
    linked { r with calls := moveOn i next r.calls } sub + call.links sub =
      r.linked sub + pending (Call.links sub) next := by
  have moved := total_moveOn here next (Call.links sub)
  simp only [linked]
  omega

theorem subs_modify {f : RxSession → RxSession} (kept : ∀ session, (f session).subs = session.subs)
    (s t : ℕ) : ((r.modify s f).memory t).subs = (r.memory t).subs := by
  simp only [modify, Function.update_apply]
  split_ifs with same
  · rw [kept, same]
  · rfl

theorem subs_increment (s t : ℕ) (memory : ℕ → RxSession) :
    (increment s memory t).subs = (memory t).subs := by
  simp only [increment, Function.update_apply]
  split_ifs with same
  · rw [same]
  · rfl

theorem subs_decrement (s t : ℕ) (memory : ℕ → RxSession) :
    (decrement s memory t).subs = (memory t).subs := by
  simp only [decrement, Function.update_apply]
  split_ifs with same
  · rw [same]
  · rfl

theorem subs_foldl (sessions : List ℕ) (t : ℕ) (memory : ℕ → RxSession) :
    (sessions.foldl (fun memory s => increment s memory) memory t).subs = (memory t).subs := by
  induction sessions generalizing memory with
  | nil => rfl
  | cons s rest ih => rw [List.foldl_cons, ih, subs_increment]

/-- A subscription that exists has a share in its session, or relies on one. -/
theorem owned_of_linked (sane : r.Sane) {sub : Subscription} (positive : 0 < r.linked sub) :
    0 < r.ledger.shares sub.session := by
  -- its owner has it, or the call that makes it is not over
  by_cases given : sub ∈ r.subscribed
  · have some : 0 < countSession sub.session r.subscribed :=
      List.countP_pos_iff.mpr ⟨sub, given, by simp⟩
    rw [shares_eq]
    omega
  · rw [linked, List.count_eq_zero.mpr given, Nat.zero_add] at positive
    obtain ⟨call, member, links⟩ := exists_of_total_pos positive
    cases call with
    | bump other =>
      have same : sub = other := by
        by_contra different
        exact absurd links (by simp [Call.links, one_of_ne different])
      exact owned_of_held (sane.relied sub (same ▸ member))
    | replay other =>
      have same : sub = other := by
        by_contra different
        exact absurd links (by simp [Call.links, one_of_ne different])
      apply owned_of_mem member
      simp [Call.shares, Call.references, Call.subscriptions, Call.enumerations, same, one_self]
    | _ => exact absurd links (Nat.lt_irrefl 0)

/-- A session that nobody shares in has no subscriptions. -/
theorem subs_of_unshared (sane : r.Sane) (linked : r.Linked) {s : ℕ}
    (unshared : r.ledger.shares s = 0) : (r.memory s).subs = [] := by
  apply List.eq_nil_iff_forall_not_mem.mpr
  intro sub member
  have counted := linked s sub
  have some : 0 < (r.memory s).subs.count sub := List.count_pos_iff.mpr member
  split_ifs at counted with mine
  · have owned := owned_of_linked sane (by omega : 0 < r.linked sub)
    rw [mine] at owned
    omega
  · omega

theorem Linked.get (linked : r.Linked) (sane : r.Sane) (sound : r.ledger.Sound) (token : Bytes)
    (connects : Bool) : (r.get token connects).1.Linked := by
  have got := got_get r token connects
  revert got
  generalize r.get token connects = result
  rintro (why | ⟨s, listed, -⟩ | ⟨session, -, -, made⟩)
  · exact linked
  · exact linked.of_same (fun t => subs_increment s t r.memory) fun sub => rfl
  · obtain ⟨-, -, empty, -⟩ := RxSession.sessionCreateLocked_spec made
    -- memory that has never been issued has no subscriptions either
    have before : (r.memory r.allocated).subs = [] :=
      subs_of_unshared sane linked (sound.shares_eq_zero (Nat.lt_irrefl r.allocated))
    refine linked.of_same (fun t => ?_) fun sub => rfl
    simp only [create, Function.update_apply]
    split_ifs with new
    · rw [empty, new, before]
    · rfl

/-- A change of the list of one session, and of how often one of its subscriptions
exists. -/
theorem Linked.change {other : ReceiveRegistry} (linked : r.Linked) (sub : Subscription)
    (elsewhere : ∀ t, t ≠ sub.session → (other.memory t).subs = (r.memory t).subs)
    (others : ∀ x, x ≠ sub → (other.memory sub.session).subs.count x =
      (r.memory sub.session).subs.count x ∧ other.linked x = r.linked x)
    (self : (other.memory sub.session).subs.count sub + r.linked sub =
      (r.memory sub.session).subs.count sub + other.linked sub) : other.Linked := by
  intro t x
  have before := linked t x
  by_cases here : t = sub.session
  · subst here
    by_cases same : x = sub
    · subst same
      rw [if_pos rfl] at before ⊢
      omega
    · rw [(others x same).1, (others x same).2]
      exact before
  · rw [elsewhere t here, before]
    split_ifs with mine
    · have different : x ≠ sub := fun same => here (same ▸ mine.symm)
      exact (others x different).2.symm
    · rfl

theorem subs_modify_self (s : ℕ) (f : RxSession → RxSession) :
    ((r.modify s f).memory s).subs = (f (r.memory s)).subs := by
  simp only [modify, Function.update_self]

theorem subs_modify_of_ne {s t : ℕ} (different : t ≠ s) (f : RxSession → RxSession) :
    ((r.modify s f).memory t).subs = (r.memory t).subs := by
  simp only [modify, Function.update_of_ne different]

theorem Linked.subscribe (linked : r.Linked) (s : ℕ) (onVideo onAudio onState : Bool) :
    (r.subscribe s onVideo onAudio onState).Linked := by
  let sub : Subscription := ⟨r.nextSub, s, onVideo, onAudio, onState⟩
  have pushed (x : Subscription) :
      ((r.modify s (RxSession.push sub)).memory s).subs.count x =
        (r.memory s).subs.count x + one x sub := by
    rw [subs_modify_self, RxSession.push, count_concat]
  have bumped (x : Subscription) :
      (r.subscribe s onVideo onAudio onState).linked x = r.linked x + one x sub :=
    linked_begin (.bump sub) x
  refine linked.change sub (fun t elsewhere => subs_modify_of_ne elsewhere _) ?_ ?_
  · intro x different
    have none := one_of_ne different
    refine ⟨(pushed x).trans ?_, (bumped x).trans ?_⟩ <;> rw [none, Nat.add_zero]
  · have one_more := pushed sub
    rw [bumped]
    change ((r.modify s (RxSession.push sub)).memory s).subs.count sub + _ =
      (r.memory s).subs.count sub + _
    omega

/-- The owner of a subscription finds it in the list of its session. -/
theorem Linked.mem_subs (linked : r.Linked) {sub : Subscription} (owned : sub ∈ r.subscribed) :
    sub ∈ (r.memory sub.session).subs := by
  have counted := linked sub.session sub
  have some : 0 < r.subscribed.count sub := List.count_pos_iff.mpr owned
  rw [if_pos rfl, ReceiveRegistry.linked] at counted
  apply List.count_pos_iff.mp
  omega

theorem Linked.unsubscribe (linked : r.Linked) {sub : Subscription} (owned : sub ∈ r.subscribed) :
    (unsubscribe sub { r with subscribed := r.subscribed.erase sub }).Linked := by
  let dropped : ReceiveRegistry := { r with subscribed := r.subscribed.erase sub }
  have erased (x : Subscription) :
      ((dropped.modify sub.session (RxSession.erase sub)).memory sub.session).subs.count x +
        one x sub = (r.memory sub.session).subs.count x := by
    rw [subs_modify_self, RxSession.erase]
    exact count_erase (linked.mem_subs owned) x
  -- the subscription leaves the caller's books and the list of its session together
  have fewer (x : Subscription) :
      (ReceiveRegistry.unsubscribe sub dropped).linked x + one x sub = r.linked x := by
    have moved := count_erase owned x
    have same : (ReceiveRegistry.unsubscribe sub dropped).linked x = dropped.linked x :=
      linked_begin (.release sub.session (.unsubscribe sub)) x
    rw [same, ReceiveRegistry.linked, ReceiveRegistry.linked, ← moved]
    exact Nat.add_right_comm _ _ _
  refine linked.change sub (fun t elsewhere => subs_modify_of_ne elsewhere _) ?_ ?_
  · intro x different
    have none := one_of_ne different
    have first := erased x
    have second := fewer x
    rw [none, Nat.add_zero] at first second
    exact ⟨first, second⟩
  · have first := erased sub
    have second := fewer sub
    change ((dropped.modify sub.session (RxSession.erase sub)).memory sub.session).subs.count sub +
      _ = _ + (ReceiveRegistry.unsubscribe sub dropped).linked sub
    omega

/-- A delivery that begins takes a snapshot of the list and leaves it as it is. -/
theorem Linked.deliver (linked : r.Linked) {f : RxSession → RxSession}
    (kept : ∀ session, (f session).subs = session.subs) (s : ℕ) (delivery : Delivery) :
    (begin (.deliver delivery ((r.modify s f).memory s).subs) (r.modify s f)).Linked :=
  linked.of_same (fun t => subs_modify kept s t) (linked_begin _)

theorem linked_proceed (linked : r.Linked) {i : ℕ} {call : Call} (here : r.calls[i]? = some call) :
    (r.proceed i call).1.Linked := by
  have moved (next : Option Call) (sub : Subscription) := linked_moveOn here next sub
  cases call with
  | bump sub =>
    refine linked.of_same (fun t => subs_increment sub.session t r.memory) fun x => ?_
    have same := moved (some (.replay sub)) x
    exact Nat.add_right_cancel same
  | replay sub =>
    refine linked.of_same (fun t => rfl) fun x => ?_
    have same := moved none x
    simp only [proceed, ReceiveRegistry.linked, count_concat, Call.links, pending] at same ⊢
    exact (Nat.add_right_comm _ _ _).trans same
  | visit rest =>
    cases rest with
    | nil => exact linked.of_same (fun t => rfl) (moved none)
    | cons s rest => exact linked.of_same (fun t => rfl) (moved _)
  | release s caller =>
    rw [proceed, releaseLocked_eq]
    split_ifs
    · exact linked.of_same (fun t => subs_decrement s t r.memory) (moved _)
    · refine linked.of_same (fun t => subs_decrement s t r.memory) fun x => ?_
      have same := moved caller.next x
      rw [links_next] at same
      exact same
  | destroy s caller =>
    refine linked.of_same (fun t => rfl) fun x => ?_
    have same := moved caller.next x
    rw [links_next] at same
    exact same
  | deliver delivery rest =>
    cases rest with
    | nil => exact linked.of_same (fun t => rfl) (moved none)
    | cons sub rest => exact linked.of_same (fun t => rfl) (moved _)

theorem linked_next (linked : r.Linked) (sane : r.Sane) (sound : r.ledger.Sound) (event : Event) :
    (r.next event).Linked := by
  have change := r.next_state event
  generalize r.next event = after at change
  cases change with
  | same => exact linked
  | init => exact linked
  | get token connects => exact linked.get sane sound token connects
  | release s => exact linked.of_same (fun t => rfl) (linked_begin _)
  | subscribe s onVideo onAudio onState => exact linked.subscribe s onVideo onAudio onState
  | unsubscribe sub owned => exact linked.unsubscribe owned
  | enumerate => exact linked.of_same (fun t => subs_foldl r.sessions t r.memory) (linked_begin _)
  | deliver s keeps delivery => exact linked.deliver keeps.subs s delivery
  | resume i call _ here => exact linked_proceed linked here

/-! ### Every moment of a run -/

/-- The ledger is sound, and what is not in the ledger is in order too. -/
structure InOrder (r : ReceiveRegistry) : Prop where
  sane : r.Sane
  sound : r.ledger.Sound
  linked : r.Linked

theorem inOrder_start : start.InOrder where
  sane := ⟨fun _ => rfl, by simp [start]⟩
  sound := by
    constructor <;> simp [ledger, start, RxSession.bzalloc, references, subscriptions,
      enumerations, destructions]
  linked := by
    intro s sub
    simp [start, RxSession.bzalloc, ReceiveRegistry.linked]

theorem inOrder_after (events : List Event) : (after events).InOrder := by
  -- the three parts need each other, so they are carried together
  refine run_invariant next start ?_ inOrder_start events
  rintro r event ⟨sane, sound, linked⟩
  constructor
  · exact sane_next sane event
  · exact sound.steps (steps_next sane sound event)
  · exact linked_next linked sane sound event

/-- Nobody is in the middle of a call about this session. -/
def Between (r : ReceiveRegistry) (s : ℕ) : Prop :=
  ∀ call ∈ r.calls, call.concerns s = false

theorem total_eq_zero {f : Call → ℕ} {calls : List Call} (none : ∀ call ∈ calls, f call = 0) :
    total f calls = 0 := by
  by_contra some
  obtain ⟨call, member, positive⟩ := exists_of_total_pos (Nat.pos_of_ne_zero some)
  have zero := none call member
  omega

theorem references_of_between {s : ℕ} (between : r.Between s) :
    r.references s = r.held.count s := by
  rw [references, total_eq_zero, Nat.add_zero]
  intro call member
  have other := between call member
  cases call with
  | release t caller =>
    cases caller with
    | holder => exact one_of_ne (by simpa [Call.concerns, eq_comm] using other)
    | _ => rfl
  | _ => rfl

theorem subscriptions_of_between {s : ℕ} (between : r.Between s) :
    r.subscriptions s = countSession s r.subscribed := by
  rw [subscriptions, total_eq_zero, Nat.add_zero]
  intro call member
  have other := between call member
  cases call with
  | replay sub => exact one_of_ne (by simpa [Call.concerns, eq_comm] using other)
  | release t caller =>
    cases caller with
    | unsubscribe sub => exact one_of_ne (by simpa [Call.concerns, eq_comm] using other)
    | _ => rfl
  | _ => rfl

/-- Between calls the list of a session holds the subscriptions that their owners can
end. -/
theorem subs_of_between (linked : r.Linked) {s : ℕ} (between : r.Between s) :
    (r.memory s).subs.length = countSession s r.subscribed := by
  -- between calls every subscription that exists is in its owner's books
  have same : (r.memory s).subs.Perm (r.subscribed.filter (s = ·.session)) := by
    apply List.perm_iff_count.mpr
    intro sub
    rw [linked s sub]
    split_ifs with mine
    · rw [ReceiveRegistry.linked, total_eq_zero, Nat.add_zero,
        List.count_filter (by simp [mine])]
      intro call member
      have other := between call member
      cases call with
      | bump next =>
        apply one_of_ne
        rintro rfl
        simp [Call.concerns, mine] at other
      | replay next =>
        apply one_of_ne
        rintro rfl
        simp [Call.concerns, mine] at other
      | _ => rfl
    · symm
      apply List.count_eq_zero.mpr
      intro member
      exact mine (by simpa [eq_comm] using (List.mem_filter.mp member).2)
  rw [same.length_eq, countSession, List.countP_eq_length_filter]

/-- What holds of a session at every moment. -/
structure Lifetime (r : ReceiveRegistry) (s : ℕ) : Prop where
  /-- The counter counts references, subscriptions and enumerations. -/
  counted : (r.memory s).refcount = r.references s + r.subscriptions s + r.enumerations s
  /-- Between calls these are the unreleased references and the listed subscriptions. -/
  between : r.Between s → (r.memory s).refcount =
    r.held.count s + (r.memory s).subs.length + r.enumerations s
  listed : s ∈ r.sessions ↔ 0 < (r.memory s).refcount
  once : r.destructions s ≤ 1
  /-- It has been given up for destruction when nobody shares in it any more. -/
  destroyed : r.destructions s = 1 ↔ s < r.allocated ∧ (r.memory s).refcount = 0
  unsubscribed : 0 < r.destructions s → (r.memory s).subs = []
  /-- A get that returns the session finds it alive. -/
  got : ∀ token connects, (r.get token connects).2 = some s →
    s ∈ (r.get token connects).1.sessions ∧ (r.get token connects).1.destructions s = 0

/-- A get returns what is in the list, or a session that is new. -/
theorem got_alive (sound : r.ledger.Sound) {token : Bytes} {connects : Bool} {s : ℕ}
    (returned : (r.get token connects).2 = some s) :
    s ∈ (r.get token connects).1.sessions ∧ (r.get token connects).1.destructions s = 0 := by
  have got := got_get r token connects
  revert got returned
  generalize r.get token connects = result
  rintro returned (why | ⟨t, listed, -⟩ | ⟨session, -, -, made⟩)
  · cases returned
  · obtain rfl := Option.some.inj returned
    have owned := (sound.listed_iff t).mp listed
    exact ⟨listed, (sound.living t owned).2⟩
  · obtain rfl := Option.some.inj returned
    refine ⟨List.mem_append_right _ (List.mem_singleton.mpr rfl), ?_⟩
    exact sound.unborn r.allocated (Nat.lt_irrefl _)

/-- In every run, at every moment between two critical sections, the list holds the
sessions that somebody shares in, each once, and every session is in order. -/
theorem session_lifetime (events : List Event) :
    (after events).sessions.Nodup ∧ ∀ s, (after events).Lifetime s := by
  obtain ⟨sane, sound, linked⟩ := inOrder_after events
  generalize after events = r at sane sound linked
  refine ⟨sound.nodup, fun s => ?_⟩
  have counted : (r.memory s).refcount = r.ledger.shares s := sound.counted s
  obtain ⟨once, destroyed⟩ := sound.doomed_iff s
  constructor
  · exact counted
  · intro between
    rw [subs_of_between linked between, ← references_of_between between,
      ← subscriptions_of_between between]
    exact counted
  · apply (sound.listed_iff s).trans
    omega
  · exact once
  · change r.ledger.doomed s = 1 ↔ r.ledger.issued s ∧ _
    rw [destroyed]
    apply and_congr_right
    intro
    omega
  · intro given
    have unshared := (destroyed.mp (Nat.le_antisymm once given)).2
    exact subs_of_unshared sane linked unshared
  · exact fun token connects => got_alive sound

end ReceiveRegistry

end Tether.Plugin
