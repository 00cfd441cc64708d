import Tether.Plugin.SessionLifetime

/-!
# Callbacks after an unsubscribe

A delivery copies the list of subscribers under the lock and calls them without it. A
subscription that is ended in between is still in the copy, and it is called all the
same. No other way leads to a callback of a subscription that is over.

## Main definitions

* `Quiet` — a step calls no subscription whose end its owner has seen
* `Drained` — an unsubscribe does not return before the deliveries that would call its
  subscription
* `Silent` — the invariant: no delivery in progress will call one that is over
* `OnlyDelivers` — nothing but deliveries goes on

## Main results

* `quiet_of_drained` — if every unsubscribe waits for the deliveries, nothing is called
  after its end
* `quiet_iff_drained` — and only then, if the deliveries go on
* `called_after_unsubscribe` — an unsubscribe between the copy and the call
-/

namespace Tether.Plugin

open Text Semantics Semantics.Ledger

/-- A delivery that will call this subscription. -/
def Call.reaches (sub : Subscription) : Call → Bool
  | .deliver delivery rest => sub ∈ rest ∧ delivery.invoke sub ≠ []
  | _ => false

namespace ReceiveRegistry

variable {r : ReceiveRegistry}

/-- The callbacks of a step are for subscriptions that are not over. -/
def Quiet (r : ReceiveRegistry) (event : Event) : Prop :=
  ∀ callback ∈ (r.step event).2, ∀ sub ∈ callback.sub?, sub ∉ r.returned

/-- The subscription whose end is reported by the next step of a call. -/
def ending (r : ReceiveRegistry) : Call → List Subscription
  | .release s caller => if (r.memory s).refcount - 1 ≤ 0 then [] else caller.returned
  | .destroy _ caller => caller.returned
  | _ => []

/-- When an unsubscribe returns, no delivery will call its subscription. -/
def Drained (r : ReceiveRegistry) : Event → Prop
  | .resume i => ∀ call ∈ r.calls[i]?, ∀ sub ∈ r.ending call,
      ∀ other ∈ r.calls, other.reaches sub = false
  | _ => True

instance (r : ReceiveRegistry) (event : Event) : Decidable (r.Quiet event) :=
  inferInstanceAs (Decidable (∀ callback ∈ _, ∀ sub ∈ _, sub ∉ _))

instance (r : ReceiveRegistry) (event : Event) : Decidable (r.Drained event) := by
  cases event with
  | resume i => exact inferInstanceAs (Decidable (∀ call ∈ _, ∀ sub ∈ _, ∀ other ∈ _, _))
  | _ => exact instDecidableTrue

end ReceiveRegistry

/-! ### Stages of a subscription -/

/-- The call is about the beginning or the end of this subscription. -/
def Call.carries (sub : Subscription) : Call → ℕ
  | .bump other | .replay other | .release _ (.unsubscribe other)
  | .destroy _ (.unsubscribe other) => one sub other
  | _ => 0

theorem carries_next (sub : Subscription) (caller : Caller) :
    pending (Call.carries sub) caller.next = 0 := by
  cases caller <;> rfl

theorem count_returned (sub : Subscription) (caller : Caller) :
    caller.returned.count sub = Call.carries sub (.destroy 0 caller) := by
  cases caller with
  | unsubscribe other => exact (count_concat sub other []).trans (Nat.zero_add _)
  | _ => rfl

theorem carries_release (sub : Subscription) (s : ℕ) (caller : Caller) :
    Call.carries sub (.release s caller) = caller.returned.count sub := by
  rw [count_returned]
  cases caller <;> rfl

theorem carries_destroy (sub : Subscription) (s : ℕ) (caller : Caller) :
    Call.carries sub (.destroy s caller) = caller.returned.count sub := by
  rw [count_returned]
  cases caller <;> rfl

theorem links_le_carries (sub : Subscription) (call : Call) : call.links sub ≤ call.carries sub := by
  cases call <;> simp [Call.links, Call.carries]

namespace ReceiveRegistry

variable {r : ReceiveRegistry}

/-- How often a subscription is anywhere between its beginning and the books of those
that are over. -/
def stages (r : ReceiveRegistry) (sub : Subscription) : ℕ :=
  r.subscribed.count sub + r.returned.count sub + total (Call.carries sub) r.calls

/-- A subscription goes through its stages once, after it has been made. -/
def Once (r : ReceiveRegistry) : Prop :=
  ∀ sub, r.stages sub ≤ 1 ∧ (r.nextSub ≤ sub.id → r.stages sub = 0)

theorem stages_begin (call : Call) (sub : Subscription) :
    (begin call r).stages sub = r.stages sub + call.carries sub := by
  rw [stages, begin, total_concat, ← Nat.add_assoc]
  rfl

theorem stages_moveOn {i : ℕ} {call : Call} (here : r.calls[i]? = some call)
    (next : Option Call) (sub : Subscription) :
    stages { r with calls := moveOn i next r.calls } sub + call.carries sub =
      r.stages sub + pending (Call.carries sub) next := by
  have moved := total_moveOn here next (Call.carries sub)
  simp only [stages]
  omega

theorem Once.of_same {other : ReceiveRegistry} (once : r.Once) (made : other.nextSub = r.nextSub)
    (same : ∀ sub, other.stages sub = r.stages sub) : other.Once := by
  intro sub
  rw [same, made]
  exact once sub

/-- What a step of a call reports as over. -/
theorem returned_proceed (i : ℕ) (call : Call) :
    (r.proceed i call).1.returned = r.returned ++ r.ending call := by
  cases call with
  | visit rest => cases rest <;> exact (List.append_nil _).symm
  | release s caller =>
    rw [proceed, releaseLocked_eq, ending]
    split_ifs
    · exact (List.append_nil _).symm
    · rfl
  | destroy s caller => rfl
  | deliver delivery rest => cases rest <;> exact (List.append_nil _).symm
  | _ => exact (List.append_nil _).symm

theorem stages_proceed {i : ℕ} {call : Call} (here : r.calls[i]? = some call)
    (sub : Subscription) : (r.proceed i call).1.stages sub = r.stages sub := by
  have moved (next : Option Call) := stages_moveOn here next sub
  cases call with
  | bump other => exact Nat.add_right_cancel (moved (some (.replay other)))
  | replay other =>
    have given := moved none
    simp only [proceed, stages, count_concat, Call.carries, pending, Option.elim] at given ⊢
    omega
  | visit rest =>
    cases rest with
    | nil => exact moved none
    | cons s rest => exact moved (some (.release s (.enumerate rest)))
  | release s caller =>
    rw [proceed, releaseLocked_eq]
    split_ifs
    · have given := moved (some (.destroy s caller))
      have same : Call.carries sub (.release s caller) = Call.carries sub (.destroy s caller) := by
        rw [carries_release, carries_destroy]
      rw [same] at given
      exact Nat.add_right_cancel given
    · have given := moved caller.next
      rw [carries_release, carries_next] at given
      simp only [stages, List.count_append, Bool.false_eq_true, if_false] at given ⊢
      omega
  | destroy s caller =>
    have given := moved caller.next
    rw [carries_destroy, carries_next] at given
    simp only [proceed, stages, List.count_append] at given ⊢
    omega
  | deliver delivery rest =>
    cases rest with
    | nil => exact moved none
    -- somebody is called who is on the copy, so not somebody whose end has been reported
    | cons other rest => exact moved (some (.deliver delivery rest))

theorem nextSub_proceed (i : ℕ) (call : Call) : (r.proceed i call).1.nextSub = r.nextSub := by
  cases call with
  | visit rest => cases rest <;> rfl
  | release s caller =>
    rw [proceed, releaseLocked_eq]
    split_ifs <;> rfl
  | deliver delivery rest => cases rest <;> rfl
  | _ => rfl

theorem Once.subscribe (once : r.Once) (s : ℕ) (onVideo onAudio onState : Bool) :
    (r.subscribe s onVideo onAudio onState).Once := by
  let new : Subscription := ⟨r.nextSub, s, onVideo, onAudio, onState⟩
  intro sub
  have more : (r.subscribe s onVideo onAudio onState).stages sub = r.stages sub + one sub new :=
    stages_begin (.bump new) sub
  obtain ⟨atMost, unborn⟩ := once sub
  rw [more]
  -- the memory of the new subscription has not been used before
  by_cases same : sub = new
  · subst same
    have none := unborn (Nat.le_refl _)
    rw [none, one_self]
    refine ⟨Nat.le_refl 1, fun later => ?_⟩
    exact absurd later (Nat.not_succ_le_self r.nextSub)
  · rw [one_of_ne same]
    exact ⟨atMost, fun later => unborn (Nat.le_of_succ_le later)⟩

theorem stages_unsubscribe {sub : Subscription} (owned : sub ∈ r.subscribed) (x : Subscription) :
    (unsubscribe sub { r with subscribed := r.subscribed.erase sub }).stages x = r.stages x := by
  have moved := count_erase owned x
  have begun := stages_begin (r := { r with subscribed := r.subscribed.erase sub })
    (.release sub.session (.unsubscribe sub)) x
  refine Eq.trans begun ?_
  simp only [stages, Call.carries]
  omega

theorem once_next (once : r.Once) (event : Event) : (r.next event).Once := by
  have begun (call : Call) (none : ∀ sub, call.carries sub = 0) (sub : Subscription) :
      (begin call r).stages sub = r.stages sub := by
    rw [stages_begin, none]
    rfl
  have change := r.next_state event
  generalize r.next event = after at change
  cases change with
  | same => exact once
  | init => exact once
  | get token connects =>
    have got := got_get r token connects
    generalize r.get token connects = result at got ⊢
    rcases got with why | ⟨s, listed, -⟩ | ⟨session, -, -, made⟩ <;>
      exact once.of_same rfl fun sub => rfl
  | release s => exact once.of_same rfl (begun (.release s .holder) fun _ => rfl)
  | subscribe s onVideo onAudio onState => exact once.subscribe s onVideo onAudio onState
  | unsubscribe sub owned => exact once.of_same rfl (stages_unsubscribe owned)
  | enumerate => exact once.of_same rfl (begun (.visit r.sessions) fun _ => rfl)
  | deliver s keeps delivery => exact once.of_same rfl (begun (.deliver delivery _) fun _ => rfl)
  | resume i call _ here => exact once.of_same (nextSub_proceed i call) (stages_proceed here)

theorem once_after (events : List Event) : (after events).Once := by
  refine run_invariant next start ?_ ?_ events
  · exact fun r event once => once_next once event
  · exact fun sub => ⟨Nat.zero_le 1, fun _ => rfl⟩

/-- A subscription that is over does not exist any more. -/
theorem linked_of_returned (once : r.Once) {sub : Subscription} (ended : sub ∈ r.returned) :
    r.linked sub = 0 := by
  have here : 0 < r.returned.count sub := List.count_pos_iff.mpr ended
  have fewer : total (Call.links sub) r.calls ≤ total (Call.carries sub) r.calls :=
    List.sum_le_sum fun call _ => links_le_carries sub call
  have atMost := (once sub).1
  rw [stages] at atMost
  rw [linked]
  omega

/-! ### Deliveries -/

/-- No delivery in progress will call a subscription that is over. -/
def Silent (r : ReceiveRegistry) : Prop :=
  ∀ sub ∈ r.returned, ∀ call ∈ r.calls, call.reaches sub = false

theorem not_mem_subs_of_returned (once : r.Once) (linked : r.Linked) {sub : Subscription}
    (ended : sub ∈ r.returned) (s : ℕ) : sub ∉ (r.memory s).subs := by
  apply List.count_eq_zero.mp
  rw [linked s sub, linked_of_returned once ended]
  split_ifs <;> rfl

theorem sub?_of_mem_invoke {callback : Callback} {sub : Subscription} (delivery : Delivery)
    (member : callback ∈ delivery.invoke sub) : callback.sub? = some sub := by
  cases delivery with
  | video packet =>
    rw [Delivery.invoke] at member
    split_ifs at member
    · obtain rfl := List.mem_singleton.mp member
      rfl
    · cases member
  | audio packet =>
    rw [Delivery.invoke] at member
    split_ifs at member
    · obtain rfl := List.mem_singleton.mp member
      rfl
    · cases member
  | state newState =>
    rw [Delivery.invoke] at member
    split_ifs at member
    · obtain rfl := List.mem_singleton.mp member
      rfl
    · cases member

/-- Only a call in progress calls anybody. -/
theorem called_by_resume {event : Event} {callback : Callback}
    (called : callback ∈ (r.step event).2) :
    ∃ i call, r.calls[i]? = some call ∧ callback ∈ (r.proceed i call).2 := by
  cases event with
  | resume i =>
    rw [step] at called
    cases here : r.calls[i]? with
    | none => simp [here] at called
    | some call =>
      rw [here] at called
      exact ⟨i, call, here, called⟩
  | get token connects => cases called
  | init => cases called
  | enumerate => cases called
  | _ =>
    rw [step] at called
    split_ifs at called
    all_goals cases called

/-- While no delivery reaches a subscription that is over, none of them is called. -/
theorem quiet_of_silent (once : r.Once) (silent : r.Silent) (event : Event) : r.Quiet event := by
  intro callback called sub mine ended
  obtain ⟨i, call, here, called⟩ := called_by_resume called
  have member := List.mem_of_getElem? here
  cases call with
  | bump other => cases called
  | replay other =>
    -- its owner has not even been given it
    have same := sub?_of_mem_invoke (.state _) called
    obtain rfl : other = sub := Option.some.inj (same.symm.trans mine)
    have links := le_total_of_mem (Call.links other) member
    have none := linked_of_returned once ended
    rw [linked] at none
    rw [Call.links, one_self] at links
    omega
  | visit rest =>
    cases rest with
    | nil => cases called
    | cons s rest =>
      obtain rfl := List.mem_singleton.mp called
      cases mine
  | release s caller =>
    simp only [proceed, releaseLocked_eq] at called
    split_ifs at called
    all_goals cases called
  | destroy s caller => cases called
  | deliver delivery rest =>
    cases rest with
    | nil => cases called
    | cons other rest =>
      have same := sub?_of_mem_invoke delivery called
      obtain rfl : other = sub := Option.some.inj (same.symm.trans mine)
      have reaches := silent other ended _ member
      have some : delivery.invoke other ≠ [] := List.ne_nil_of_mem called
      simp [Call.reaches, some] at reaches

/-- A delivery that begins copies subscriptions that exist. -/
theorem Silent.deliver (silent : r.Silent) (once : r.Once) (linked : r.Linked)
    {f : RxSession → RxSession} (kept : ∀ session, (f session).subs = session.subs) (s : ℕ)
    (delivery : Delivery) :
    (begin (.deliver delivery ((r.modify s f).memory s).subs) (r.modify s f)).Silent := by
  intro sub ended call member
  rcases List.mem_append.mp member with before | new
  · exact silent sub ended call before
  · obtain rfl := List.mem_singleton.mp new
    have absent : sub ∉ ((r.modify s f).memory s).subs := by
      rw [subs_modify kept]
      exact not_mem_subs_of_returned once linked ended s
    simp [Call.reaches, absent]

theorem reaches_of_mem_next {sub : Subscription} {caller : Caller} {call : Call}
    (member : call ∈ caller.next) : call.reaches sub = false := by
  cases caller with
  | enumerate rest =>
    obtain rfl := Option.some.inj member
    rfl
  | _ => cases member

/-- A call that moves on reaches no subscription that it did not reach before. -/
theorem reaches_next {i : ℕ} {call other : Call} {sub : Subscription}
    (here : r.calls[i]? = some call) (member : other ∈ (r.proceed i call).1.calls)
    (reaches : other.reaches sub = true) : ∃ before ∈ r.calls, before.reaches sub = true := by
  have moved {next : Option Call} (inside : other ∈ moveOn i next r.calls)
      (quiet : other ∈ next → other.reaches sub = false) :
      ∃ before ∈ r.calls, before.reaches sub = true := by
    rcases mem_of_mem_moveOn inside with before | new
    · exact ⟨other, before, reaches⟩
    · rw [quiet new] at reaches
      cases reaches
  have of_some {next : Call} (quiet : next.reaches sub = false) :
      other ∈ some next → other.reaches sub = false := by
    rintro same
    obtain rfl := Option.some.inj same
    exact quiet
  cases call with
  | bump new => exact moved member (of_some rfl)
  | replay new => exact moved member (by simp)
  | visit rest =>
    cases rest with
    | nil => exact moved member (by simp)
    | cons s rest => exact moved member (of_some rfl)
  | release s caller =>
    simp only [proceed, releaseLocked_eq] at member
    split_ifs at member
    · exact moved member (of_some rfl)
    · contradiction
    · contradiction
    · exact moved member reaches_of_mem_next
  | destroy s caller => exact moved member reaches_of_mem_next
  | deliver delivery rest =>
    cases rest with
    | nil => exact moved member (by simp)
    | cons first rest =>
      -- the delivery that moves on has one subscription less before it
      rcases mem_of_mem_moveOn member with before | new
      · exact ⟨other, before, reaches⟩
      · obtain rfl := Option.some.inj new
        refine ⟨_, List.mem_of_getElem? here, ?_⟩
        simp only [Call.reaches, decide_eq_true_eq, List.mem_cons] at reaches ⊢
        exact ⟨.inr reaches.1, reaches.2⟩

theorem silent_next (once : r.Once) (linked : r.Linked) (silent : r.Silent) {event : Event}
    (drained : r.Drained event) : (r.next event).Silent := by
  have begun {other : ReceiveRegistry} (call : Call) (none : ∀ sub, call.reaches sub = false)
      (calls : other.calls = r.calls ++ [call]) (returned : other.returned = r.returned) :
      other.Silent := by
    intro sub ended old member
    rw [returned] at ended
    rw [calls] at member
    rcases List.mem_append.mp member with before | new
    · exact silent sub ended old before
    · rw [List.mem_singleton.mp new]
      exact none sub
  have change := r.next_state event
  generalize r.next event = after at change
  cases change with
  | same => exact silent
  | init => exact silent
  | get token connects =>
    have got := got_get r token connects
    generalize r.get token connects = result at got ⊢
    rcases got with why | ⟨s, listed, -⟩ | ⟨session, -, -, made⟩ <;> exact silent
  | release s => exact begun (.release s .holder) (fun _ => rfl) rfl rfl
  | subscribe s onVideo onAudio onState => exact begun (.bump _) (fun _ => rfl) rfl rfl
  | unsubscribe sub =>
    exact begun (.release sub.session (.unsubscribe sub)) (fun _ => rfl) rfl rfl
  | enumerate => exact begun (.visit r.sessions) (fun _ => rfl) rfl rfl
  | deliver s keeps delivery => exact silent.deliver once linked keeps.subs s delivery
  | resume i call resumes here =>
    subst resumes
    intro sub ended other member
    by_contra reaches
    rw [Bool.not_eq_false] at reaches
    -- whoever it reaches now it reached before, when the subscription was not over or drained
    obtain ⟨before, old, same⟩ := reaches_next here member reaches
    have quiet : before.reaches sub = false := by
      rw [returned_proceed] at ended
      rcases List.mem_append.mp ended with already | now
      · exact silent sub already before old
      · exact drained call (by rw [here]; rfl) sub now before old
    rw [same] at quiet
    cases quiet

/-- If no unsubscribe of a run returns while a delivery is about to call its
subscription, no callback of the run is for a subscription that is over. -/
theorem quiet_of_drained {events : List Event}
    (drained : EveryStep (fun before event => (after before).Drained event) events) :
    EveryStep (fun before event => (after before).Quiet event) events := by
  have silent : ∀ before later, events = before ++ later → (after before).Silent := by
    intro before later split
    subst split
    apply guarded_induction (fun before => (after before).Silent) _ _ before drained.of_append
    · exact fun sub ended => absurd ended List.not_mem_nil
    · intro before event silent drained
      rw [after_concat]
      exact silent_next (once_after before) (inOrder_after before).linked silent drained
  intro before event later split
  exact quiet_of_silent (once_after before) (silent before (event :: later) split) event

/-! ### The deliveries of a run go on -/

/-- The step is one of a delivery. -/
def Delivers (r : ReceiveRegistry) (event : Event) : Prop :=
  ∃ i delivery rest, event = .resume i ∧ r.calls[i]? = some (.deliver delivery rest)

/-- Steps that follow a run are all steps of its deliveries. -/
def OnlyDelivers (before later : List Event) : Prop :=
  EveryStep (fun done event => (after (before ++ done)).Delivers event) later

theorem drained_of_delivers {event : Event} (delivers : r.Delivers event) : r.Drained event := by
  obtain ⟨i, delivery, rest, rfl, here⟩ := delivers
  intro call member sub ends
  obtain rfl : call = .deliver delivery rest := by
    rw [here] at member
    exact (Option.some.inj member).symm
  cases ends

theorem getElem?_moveOn {i : ℕ} {call next : Call} {calls : List Call}
    (here : calls[i]? = some call) : (moveOn i (some next) calls)[i]? = some next := by
  obtain ⟨inside, -⟩ := List.getElem?_eq_some_iff.mp here
  have front : (calls.take i).length = i := by
    rw [List.length_take]
    omega
  rw [moveOn, List.append_assoc, List.getElem?_append_right (by omega), front, Nat.sub_self]
  rfl

theorem mem_moveOn {i : ℕ} {call other : Call} {next : Option Call} {calls : List Call}
    (here : calls[i]? = some call) (member : other ∈ calls) (different : other ≠ call) :
    other ∈ moveOn i next calls := by
  rw [split_calls here, List.mem_append, List.mem_cons] at member
  rw [moveOn, List.mem_append, List.mem_append]
  rcases member with front | same | back
  · exact .inl (.inl front)
  · exact absurd same different
  · exact .inr back

/-- The end of an unsubscribe does not touch the deliveries. -/
theorem deliver_mem_proceed {i : ℕ} {call : Call} {sub : Subscription} {delivery : Delivery}
    {rest : List Subscription} (here : call ∈ r.calls[i]?) (ends : sub ∈ r.ending call)
    (member : .deliver delivery rest ∈ r.calls) :
    .deliver delivery rest ∈ (r.proceed i call).1.calls := by
  cases call with
  | release s caller =>
    rw [ending] at ends
    split_ifs at ends with last
    · cases ends
    · simp only [proceed, releaseLocked_eq, if_neg last, Bool.false_eq_true, if_false]
      exact mem_moveOn here member (by simp)
  | destroy s caller => exact mem_moveOn here member (by simp)
  | _ => cases ends

/-- A delivery that goes on comes to every subscription of its copy. -/
theorem calls_back {i : ℕ} {delivery : Delivery} {sub : Subscription} {post : List Subscription}
    (calls : delivery.invoke sub ≠ []) (pre : List Subscription) (before : List Event)
    (here : (after before).calls[i]? = some (.deliver delivery (pre ++ sub :: post)))
    (ended : sub ∈ (after before).returned) :
    ∃ later, OnlyDelivers before later ∧
      ¬ EveryStep (fun before event => (after before).Quiet event) (before ++ later) := by
  have delivers : (after before).Delivers (.resume i) := ⟨i, delivery, _, rfl, here⟩
  -- the copy is worked off from the front
  induction pre generalizing before with
  | nil =>
    refine ⟨[.resume i], ?_, ?_⟩
    · rw [OnlyDelivers, everyStep_cons, List.append_nil]
      exact ⟨delivers, .nil⟩
    · intro quiet
      have last := (everyStep_concat.mp quiet).2
      obtain ⟨callback, rest, called⟩ := List.exists_cons_of_ne_nil calls
      have member : callback ∈ delivery.invoke sub := by simp [called]
      refine last callback ?_ sub (sub?_of_mem_invoke delivery member) ended
      rw [step, here]
      exact member
  | cons first pre ih =>
    have stepped : after (before ++ [.resume i]) =
        ((after before).proceed i (.deliver delivery (first :: pre ++ sub :: post))).1 := by
      rw [after_concat, next, step, here]
    have there : (after (before ++ [.resume i])).calls[i]? =
        some (.deliver delivery (pre ++ sub :: post)) := by
      rw [stepped]
      exact getElem?_moveOn here
    have still : sub ∈ (after (before ++ [.resume i])).returned := by
      rw [stepped, returned_proceed]
      exact List.mem_append_left _ ended
    obtain ⟨later, only, loud⟩ := ih (before ++ [.resume i]) there still ⟨i, delivery, _, rfl, there⟩
    refine ⟨.resume i :: later, ?_, ?_⟩
    · rw [OnlyDelivers, everyStep_cons, List.append_nil]
      refine ⟨delivers, ?_⟩
      simpa [OnlyDelivers] using only
    · simpa using loud

/-- However a run is cut off, its deliveries call no subscription that is over if and
only if no unsubscribe of the run returns while a delivery is about to call its
subscription. -/
theorem quiet_iff_drained (events : List Event) :
    (∀ before rest, events = before ++ rest → ∀ later, OnlyDelivers before later →
        EveryStep (fun before event => (after before).Quiet event) (before ++ later)) ↔
      EveryStep (fun before event => (after before).Drained event) events := by
  constructor
  · intro quiet before event rest split
    cases event with
    | resume i =>
      intro call here sub ends other member
      by_contra reaches
      rw [Bool.not_eq_false] at reaches
      have stepped : after (before ++ [.resume i]) = ((after before).proceed i call).1 := by
        rw [after_concat, next, step, here]
      -- the unsubscribe returns, and the delivery goes on
      have ended : sub ∈ (after (before ++ [.resume i])).returned := by
        rw [stepped, returned_proceed]
        exact List.mem_append_right _ ends
      cases other with
      | deliver delivery subs =>
        simp only [Call.reaches, decide_eq_true_eq] at reaches
        obtain ⟨pre, post, rfl⟩ := List.append_of_mem reaches.1
        have going : .deliver delivery (pre ++ sub :: post) ∈
            (after (before ++ [.resume i])).calls := by
          rw [stepped]
          exact deliver_mem_proceed here ends member
        obtain ⟨j, there⟩ := List.getElem?_of_mem going
        obtain ⟨later, only, loud⟩ := calls_back reaches.2 pre _ there ended
        exact loud (quiet (before ++ [.resume i]) rest (by simp [split]) later only)
      | _ => cases reaches
    | _ => trivial
  · -- steps of deliveries end no subscription, so they are drained as well
    rintro drained before rest rfl later only
    apply quiet_of_drained
    rw [everyStep_append]
    refine ⟨drained.of_append, ?_⟩
    intro done event behind split
    exact drained_of_delivers (only done event behind split)

/-! ### An unsubscribe between the copy and the call -/

/-- The subscription of the samples. -/
def viewer : Subscription := ⟨0, 0, true, true, true⟩

/-- A session with one subscription, and a packet that comes in. -/
def watched : List Event :=
  [.init, .get (bytes "TTHR-ABCD-EFGH-2345") true, .subscribe 0 true true true, .resume 0,
    .resume 0, .video 0 ⟨[1], 0, none⟩ 0]

/-- The subscription ends when the list has been copied, and is called afterwards. -/
theorem called_after_unsubscribe :
    ¬ EveryStep (fun before event => (after before).Quiet event)
      (watched ++ [.unsubscribe viewer, .resume 1, .resume 0]) := by
  decide +kernel

end ReceiveRegistry

end Tether.Plugin
