import Tether.Plugin.Control
import Tether.Plugin.TokenSessions

/-!
# Calls of the registry from beginning to end

Who uses the registry one call after another sees no critical sections. What is held is then a
list of references and a list of subscriptions, and each call changes these lists by one entry
at most, while the sessions stay accounted for by the lists.

## Main definitions

* `subscribeNow`, `unsubscribeNow` — the calls that were cut into sections
* `InUse` — the references and the subscriptions that are held account for the registry
* `SameTexts` — sessions keep the texts that they go by

## Main results

* `InUse.get`, `InUse.release`, `InUse.subscribe`, `InUse.unsubscribe`, `InUse.enumerateNow` —
  one lemma a call
-/

namespace Tether.Plugin

open Text Semantics

namespace ReceiveRegistry

/-! ### Whole calls -/

/-- `tether_receive_session_subscribe`, from its beginning to its end. -/
def subscribeNow (s : ℕ) (r : ReceiveRegistry) : ReceiveRegistry × Subscription :=
  let sub : Subscription := ⟨r.nextSub, s, true, true, true⟩
  ({ (r.modify s (RxSession.push sub)).bump s with nextSub := r.nextSub + 1 }, sub)

/-- `tether_receive_session_unsubscribe`, from its beginning to its end. -/
def unsubscribeNow (sub : Subscription) (r : ReceiveRegistry) : ReceiveRegistry :=
  (r.modify sub.session (RxSession.erase sub)).releaseNow sub.session

/-! ### References and subscriptions -/

/-- The sessions, and references to them. -/
def sharedBy (refs : List ℕ) (r : ReceiveRegistry) : Ledger ℕ where
  count := fun s => (r.memory s).refcount
  shares := fun s => refs.count s
  listed := r.sessions
  doomed := fun s => r.freed.count s
  issued := fun s => s < r.allocated

/-- The lists of the sessions hold these subscriptions, and the sessions that can be found go
by different texts. -/
structure Books (subs : List Subscription) (r : ReceiveRegistry) : Prop where
  lists : ∀ s, (r.memory s).subs.Perm (subs.filter (·.session = s))
  fresh : ∀ sub ∈ subs, sub.id < r.nextSub
  distinct : subs.Nodup
  texts : ∀ s ∈ r.sessions, ∀ t ∈ r.sessions, (r.memory s).token = (r.memory t).token → s = t

/-- These references and these subscriptions are all that keeps the sessions alive. -/
structure InUse (refs : List ℕ) (subs : List Subscription) (r : ReceiveRegistry) : Prop where
  sound : (r.sharedBy (refs ++ subs.map (·.session))).Sound
  books : Books subs r

/-- Sessions that have been set up keep their texts. -/
structure SameTexts (r other : ReceiveRegistry) : Prop where
  allocated : r.allocated ≤ other.allocated
  token : ∀ s < r.allocated, (other.memory s).token = (r.memory s).token

variable {r : ReceiveRegistry} {refs : List ℕ} {subs : List Subscription}

theorem SameTexts.refl (r : ReceiveRegistry) : SameTexts r r := ⟨le_rfl, fun _ _ => rfl⟩

theorem SameTexts.trans {first second third : ReceiveRegistry} (left : SameTexts first second)
    (right : SameTexts second third) : SameTexts first third := by
  refine ⟨left.allocated.trans right.allocated, fun s there => ?_⟩
  rw [right.token s (there.trans_le left.allocated), left.token s there]

/-- Only the number of references counts. -/
theorem sharedBy_perm (r : ReceiveRegistry) {first second : List ℕ} (same : first.Perm second) :
    r.sharedBy first = r.sharedBy second :=
  Ledger.ext rfl (funext fun s => same.count_eq s) rfl rfl rfl

theorem InUse.perm (use : InUse refs subs r) {refs' : List ℕ} (same : refs.Perm refs') :
    InUse refs' subs r := by
  refine ⟨?_, use.books⟩
  rw [← sharedBy_perm r (same.append_right _)]
  exact use.sound

theorem Books.perm (books : Books subs r) {subs' : List Subscription} (same : subs.Perm subs') :
    Books subs' r where
  lists := fun s => (books.lists s).trans (same.filter _)
  fresh := fun sub member => books.fresh sub (same.mem_iff.mpr member)
  distinct := same.nodup_iff.mp books.distinct
  texts := books.texts

theorem InUse.perm_subs (use : InUse refs subs r) {subs' : List Subscription}
    (same : subs.Perm subs') : InUse refs subs' r := by
  have shares : r.sharedBy (refs ++ subs'.map (·.session)) =
      r.sharedBy (refs ++ subs.map (·.session)) := by
    unfold sharedBy
    congr 1
    funext s
    exact (((same.map _).append_left _).count_eq s).symm
  exact ⟨shares ▸ use.sound, use.books.perm same⟩

/-- What is held is there. -/
theorem InUse.allocated (use : InUse refs subs r) {s : ℕ}
    (held : s ∈ refs ++ subs.map (·.session)) : s < r.allocated :=
  (use.sound.living s (List.count_pos_iff.mpr held)).1

/-- Nothing but counters has changed, and sessions have left the list at most. -/
theorem Books.of_same (books : Books subs r) {other : ReceiveRegistry}
    (names : r.Names other) (same : ∀ s, (other.memory s).subs = (r.memory s).subs)
    (next : other.nextSub = r.nextSub) : Books subs other where
  lists := fun s => by
    rw [same]
    exact books.lists s
  fresh := fun sub member => by
    rw [next]
    exact books.fresh sub member
  distinct := books.distinct
  texts := fun s here t there equal => by
    rw [names.token, names.token] at equal
    exact books.texts s (names.listed s here) t (names.listed t there) equal

/-! ### One lemma a call -/

/-- A counter goes up for somebody who has a share. -/
theorem sharedBy_increment (r : ReceiveRegistry) (s : ℕ) (shares : List ℕ) :
    sharedBy (s :: shares) { r with memory := increment s r.memory } =
      (r.sharedBy shares).share s := by
  refine Ledger.ext (funext fun t => ?_) (funext fun t => ?_) rfl rfl rfl
  · rw [Ledger.count_share]
    exact refcount_bump s t
  · rw [Ledger.shares_share]
    exact (Ledger.one_add_count t s shares).symm.trans (Nat.add_comm _ _)

/-- A reference more to a session that is held, or that can be found. -/
theorem InUse.bump (use : InUse refs subs r) {s : ℕ} (listed : s ∈ r.sessions) :
    InUse (s :: refs) subs (r.bump s) := by
  have owned := (use.sound.listed_iff s).mp listed
  constructor
  · have shared := use.sound.share owned
    rwa [← sharedBy_increment] at shared
  · exact use.books.of_same (names_bump s) (fun t => subs_increment s t r.memory) rfl

theorem InUse.listed (use : InUse refs subs r) {s : ℕ}
    (held : s ∈ refs ++ subs.map (·.session)) : s ∈ r.sessions :=
  (use.sound.listed_iff s).mpr (List.count_pos_iff.mpr held)

/-- A new session has one reference. -/
theorem InUse.create (use : InUse refs subs r) {session : RxSession} {token : Bytes}
    {connects : Bool} (made : RxSession.sessionCreateLocked token connects = some session)
    (new : ∀ s ∈ r.sessions, (r.memory s).token ≠ token) :
    InUse (r.allocated :: refs) subs (r.create session) := by
  obtain ⟨text, refcount, nobody, -⟩ := RxSession.sessionCreateLocked_spec made
  have unborn : ¬ r.allocated < r.allocated := Nat.lt_irrefl _
  have unheld : r.allocated ∉ refs ++ subs.map (·.session) := fun held =>
    unborn (use.allocated held)
  constructor
  · have issued := use.sound.issue unborn
    have same : (r.sharedBy (refs ++ subs.map (·.session))).issue r.allocated =
        (r.create session).sharedBy (r.allocated :: refs ++ subs.map (·.session)) := by
      refine Ledger.ext (funext fun t => ?_) (funext fun t => ?_) rfl rfl (funext fun t => ?_)
      · change Function.update (fun s => (r.memory s).refcount) r.allocated 1 t =
          (Function.update r.memory r.allocated session t).refcount
        rw [Function.update_apply, Function.update_apply]
        split_ifs
        · exact refcount.symm
        · rfl
      · rw [Ledger.shares_issue (List.count_eq_zero.mpr unheld)]
        exact (Nat.add_comm _ _).trans (Ledger.one_add_count t r.allocated _)
      · exact propext (Nat.lt_succ_iff_lt_or_eq.trans or_comm).symm
    rwa [same] at issued
  · have here : (r.create session).memory r.allocated = session := Function.update_self ..
    have others {s : ℕ} (other : s ≠ r.allocated) : (r.create session).memory s = r.memory s :=
      Function.update_of_ne other ..
    have old {s : ℕ} (listed : s ∈ r.sessions) : s ≠ r.allocated :=
      Nat.ne_of_lt (use.sound.living s ((use.sound.listed_iff s).mp listed)).1
    refine ⟨fun s => ?_, use.books.fresh, use.books.distinct, ?_⟩
    · by_cases fresh : s = r.allocated
      · have none : subs.filter (·.session = r.allocated) = [] := by
          refine List.filter_eq_nil_iff.mpr fun sub member same => unheld ?_
          rw [← of_decide_eq_true same]
          exact List.mem_append_right _ (List.mem_map_of_mem member)
        rw [fresh, here, nobody, none]
      · rw [others fresh]
        exact use.books.lists s
    · intro s listed t listed' equal
      rcases List.mem_append.mp listed with first | first <;>
        rcases List.mem_append.mp listed' with second | second
      · rw [others (old first), others (old second)] at equal
        exact use.books.texts s first t second equal
      · obtain rfl := List.mem_singleton.mp second
        rw [others (old first), here, text] at equal
        exact absurd equal (new s first)
      · obtain rfl := List.mem_singleton.mp first
        rw [others (old second), here, text] at equal
        exact absurd equal.symm (new t second)
      · rw [List.mem_singleton.mp first, List.mem_singleton.mp second]

/-- A get changes nothing, or returns a reference to a session of this text. -/
theorem InUse.get (use : InUse refs subs r) (token : Bytes) (connects : Bool) :
    InUse ((r.get token connects).2.toList ++ refs) subs (r.get token connects).1 ∧
      SameTexts r (r.get token connects).1 ∧
      ∀ s, (r.get token connects).2 = some s →
        ((r.get token connects).1.memory s).token = token := by
  have got := got_get r token connects
  generalize r.get token connects = result at got
  cases got with
  | nothing => exact ⟨use, .refl r, fun s none => by cases none⟩
  | found s listed same =>
    refine ⟨use.bump listed, ⟨le_rfl, fun t _ => (names_increment s t r.memory).1⟩, ?_⟩
    intro t returned
    obtain rfl := Option.some.inj returned
    exact (names_increment s s r.memory).1.trans same
  | created session initialised new made =>
    refine ⟨use.create made new, ⟨Nat.le_succ _, fun t there => ?_⟩, fun t returned => ?_⟩
    · exact congrArg _ (Function.update_of_ne (Nat.ne_of_lt there) _ _)
    · obtain rfl := Option.some.inj returned
      have here : (r.create session).memory r.allocated = session := Function.update_self ..
      rw [here]
      exact (RxSession.sessionCreateLocked_spec made).1

/-- A release looks at the counter once. -/
theorem releaseNow_eq (r : ReceiveRegistry) (s : ℕ) :
    r.releaseNow s =
      if (r.memory s).refcount - 1 ≤ 0 then
        { r with
          memory := decrement s r.memory, sessions := r.sessions.erase s, freed := r.freed ++ [s] }
      else { r with memory := decrement s r.memory } := by
  rw [releaseNow, releaseLocked_eq]
  split_ifs <;> rfl

/-- What a release does to the sessions, it does to one share of the session. -/
theorem sharedBy_releaseNow (r : ReceiveRegistry) (s : ℕ) (shares : List ℕ) :
    (r.releaseNow s).sharedBy shares = (r.sharedBy (s :: shares)).drop s := by
  have counters (t : ℕ) : (decrement s r.memory t).refcount =
      ((r.sharedBy (s :: shares)).drop s).count t := by
    rw [Ledger.count_drop, decrement, Function.update_apply]
    by_cases here : t = s
    · rw [if_pos here, here, Ledger.one_self]
      rfl
    · rw [if_neg here, Ledger.one_of_ne here]
      exact (sub_zero _).symm
  have holders (t : ℕ) : shares.count t = ((r.sharedBy (s :: shares)).drop s).shares t := by
    have owned : 0 < (r.sharedBy (s :: shares)).shares s :=
      List.count_pos_iff.mpr List.mem_cons_self
    have left := Ledger.shares_drop owned t
    have cons := Ledger.one_add_count t s shares
    change _ + _ = (s :: shares).count t at left
    omega
  rw [releaseNow_eq]
  by_cases last : (r.memory s).refcount - 1 ≤ 0
  · rw [if_pos last]
    refine Ledger.ext (funext counters) (funext holders) (if_pos last).symm (funext fun t => ?_) rfl
    rw [Ledger.doomed_drop]
    change (r.freed ++ [s]).count t =
      r.freed.count t + if (r.memory s).refcount - 1 ≤ 0 then _ else _
    rw [if_pos last, Ledger.count_concat]
  · rw [if_neg last]
    refine Ledger.ext (funext counters) (funext holders) (if_neg last).symm (funext fun t => ?_) rfl
    rw [Ledger.doomed_drop]
    change r.freed.count t = r.freed.count t + if (r.memory s).refcount - 1 ≤ 0 then _ else _
    rw [if_neg last, Nat.add_zero]

/-- A release leaves names and subscriptions alone. -/
theorem names_releaseNow (r : ReceiveRegistry) (s : ℕ) : r.Names (r.releaseNow s) := by
  have names (t : ℕ) := names_decrement s t r.memory
  rw [releaseNow_eq]
  split_ifs
  · exact ⟨fun _ => List.mem_of_mem_erase, fun t => (names t).1, fun t => (names t).2⟩
  · exact ⟨fun _ => id, fun t => (names t).1, fun t => (names t).2⟩

theorem memory_releaseNow (r : ReceiveRegistry) (s : ℕ) :
    (r.releaseNow s).memory = decrement s r.memory ∧ (r.releaseNow s).nextSub = r.nextSub ∧
      (r.releaseNow s).allocated = r.allocated := by
  rw [releaseNow_eq]
  split_ifs <;> exact ⟨rfl, rfl, rfl⟩

theorem sameTexts_releaseNow (r : ReceiveRegistry) (s : ℕ) : SameTexts r (r.releaseNow s) :=
  ⟨(memory_releaseNow r s).2.2.ge, fun t _ => (names_releaseNow r s).token t⟩

/-- A reference that is given back is gone, and with the last one the session. -/
theorem InUse.release {s : ℕ} (use : InUse (s :: refs) subs r) :
    InUse refs subs (r.releaseNow s) := by
  obtain ⟨memory, nextSub, -⟩ := memory_releaseNow r s
  constructor
  · rw [sharedBy_releaseNow]
    exact use.sound.drop (List.count_pos_iff.mpr List.mem_cons_self)
  · refine use.books.of_same (names_releaseNow r s) (fun t => ?_) nextSub
    rw [memory]
    exact subs_decrement s t r.memory

/-- A change of a session that keeps its counter. -/
theorem sharedBy_modify {f : RxSession → RxSession}
    (kept : ∀ session, (f session).refcount = session.refcount) (s : ℕ) (shares : List ℕ) :
    (r.modify s f).sharedBy shares = r.sharedBy shares :=
  Ledger.ext (funext fun t => refcount_kept kept t) rfl rfl rfl rfl

/-- Everyone who has a reference may subscribe, and holds the session by the subscription from
then on. -/
theorem InUse.subscribe (use : InUse refs subs r) {s : ℕ} (held : s ∈ refs) :
    InUse refs (subs ++ [(r.subscribeNow s).2]) (r.subscribeNow s).1 := by
  have owned := List.count_pos_iff.mpr (List.mem_append_left (subs.map (·.session)) held)
  have new : (r.subscribeNow s).2 ∉ subs := fun member =>
    Nat.lt_irrefl _ (use.books.fresh _ member)
  have pushed : r.Names (r.modify s (RxSession.push (r.subscribeNow s).2)) :=
    .modify (RxSession.keepsNames_push _) s
  have bumped := names_bump (r := r.modify s (RxSession.push (r.subscribeNow s).2)) s
  have tokens (t : ℕ) : ((r.subscribeNow s).1.memory t).token = (r.memory t).token :=
    (bumped.token t).trans (pushed.token t)
  have lists (t : ℕ) : ((r.subscribeNow s).1.memory t).subs =
      (r.memory t).subs ++ if t = s then [(r.subscribeNow s).2] else [] := by
    refine (subs_increment s t _).trans ?_
    by_cases here : t = s
    · rw [here, if_pos rfl]
      exact subs_modify_self s _
    · rw [if_neg here, List.append_nil]
      exact subs_modify_of_ne here _
  constructor
  · have shared := use.sound.share owned
    rw [← sharedBy_modify (f := RxSession.push (r.subscribeNow s).2) (fun _ => rfl) s,
      ← sharedBy_increment] at shared
    rw [List.map_append, ← List.append_assoc, List.map_singleton,
      sharedBy_perm _ (List.perm_append_singleton _ _)]
    exact shared
  · refine ⟨fun t => ?_, ?_, ?_, ?_⟩
    · rw [lists, List.filter_append]
      refine (use.books.lists t).append ?_
      have mine : (r.subscribeNow s).2.session = s := rfl
      rw [List.filter_cons, List.filter_nil, mine]
      by_cases here : t = s
      · rw [if_pos here, if_pos (decide_eq_true here.symm)]
      · rw [if_neg here, if_neg (by simpa using Ne.symm here)]
    · refine List.forall_mem_append.mpr ⟨fun sub member => ?_, ?_⟩
      · exact Nat.lt_succ_of_lt (use.books.fresh sub member)
      · exact List.forall_mem_singleton.mpr (Nat.lt_succ_self _)
    · rw [← List.concat_eq_append]
      exact use.books.distinct.concat new
    · intro t here u there equal
      rw [tokens, tokens] at equal
      exact use.books.texts t here u there equal

/-- A subscription that ends leaves the list, and its share of the session goes. -/
theorem InUse.unsubscribe {sub : Subscription} (use : InUse refs (sub :: subs) r) :
    InUse refs subs (r.unsubscribeNow sub) := by
  obtain ⟨memory, nextSub, -⟩ :=
    memory_releaseNow (r.modify sub.session (RxSession.erase sub)) sub.session
  have erased : r.Names (r.modify sub.session (RxSession.erase sub)) :=
    .modify (RxSession.keepsNames_erase sub) sub.session
  have released := names_releaseNow (r.modify sub.session (RxSession.erase sub)) sub.session
  have tokens (t : ℕ) : ((r.unsubscribeNow sub).memory t).token = (r.memory t).token :=
    (released.token t).trans (erased.token t)
  obtain ⟨new, distinct⟩ := List.nodup_cons.mp use.books.distinct
  constructor
  · have same : (refs ++ (sub :: subs).map (·.session)).Perm
        (sub.session :: (refs ++ subs.map (·.session))) := List.perm_middle
    have sound := use.sound
    rw [sharedBy_perm r same,
      ← sharedBy_modify (f := RxSession.erase sub) (fun _ => rfl) sub.session] at sound
    have dropped := sound.drop (List.count_pos_iff.mpr List.mem_cons_self)
    rwa [← sharedBy_releaseNow] at dropped
  · refine ⟨fun t => ?_, fun other member => ?_, distinct, ?_⟩
    · have listed := use.books.lists t
      rw [unsubscribeNow, memory, subs_decrement]
      by_cases here : t = sub.session
      · subst here
        rw [List.filter_cons, if_pos (decide_eq_true rfl)] at listed
        rw [subs_modify_self]
        exact (listed.erase sub).trans (by rw [List.erase_cons_head])
      · rw [List.filter_cons, if_neg (by simpa using Ne.symm here)] at listed
        rwa [subs_modify_of_ne here]
    · rw [unsubscribeNow, nextSub]
      exact use.books.fresh other (List.mem_cons_of_mem _ member)
    · intro t here u there equal
      rw [tokens, tokens] at equal
      exact use.books.texts t (erased.listed t (released.listed t here)) u
        (erased.listed u (released.listed u there)) equal

theorem sameTexts_subscribeNow (r : ReceiveRegistry) (s : ℕ) :
    SameTexts r (r.subscribeNow s).1 := by
  have pushed : r.Names (r.modify s (RxSession.push (r.subscribeNow s).2)) :=
    .modify (RxSession.keepsNames_push _) s
  exact ⟨le_rfl, fun t _ => ((names_bump s).token t).trans (pushed.token t)⟩

theorem sameTexts_unsubscribeNow (r : ReceiveRegistry) (sub : Subscription) :
    SameTexts r (r.unsubscribeNow sub) := by
  have erased : r.Names (r.modify sub.session (RxSession.erase sub)) :=
    .modify (RxSession.keepsNames_erase sub) sub.session
  have first : SameTexts r (r.modify sub.session (RxSession.erase sub)) :=
    ⟨le_rfl, fun t _ => erased.token t⟩
  exact first.trans (sameTexts_releaseNow _ _)

/-- The references of a visit are given back one after the other. -/
theorem InUse.visit {sessions : List ℕ} (use : InUse (sessions ++ refs) subs r) :
    InUse refs subs (sessions.foldl (fun r s => r.releaseNow s) r) ∧
      SameTexts r (sessions.foldl (fun r s => r.releaseNow s) r) := by
  induction sessions generalizing r with
  | nil => exact ⟨use, .refl r⟩
  | cons s rest ih =>
    obtain ⟨left, texts⟩ := ih use.release
    exact ⟨left, (sameTexts_releaseNow r s).trans texts⟩

/-- Before a visit everything that is listed gets a reference. -/
theorem InUse.visiting (use : InUse refs subs r) {sessions : List ℕ}
    (listed : ∀ s ∈ sessions, s ∈ r.sessions) :
    InUse (sessions.reverse ++ refs) subs
      { r with memory := sessions.foldl (fun memory s => increment s memory) r.memory } := by
  induction sessions generalizing r refs with
  | nil => exact use
  | cons s rest ih =>
    obtain ⟨first, others⟩ := List.forall_mem_cons.mp listed
    have bumped := use.bump first
    rw [List.reverse_cons, List.append_assoc, List.singleton_append]
    exact ih bumped others

/-- Nobody holds more after an enumeration than before it. -/
theorem InUse.enumerateNow (use : InUse refs subs r) :
    InUse refs subs r.enumerateNow ∧ SameTexts r r.enumerateNow := by
  have visiting : InUse (r.sessions.reverse ++ refs) subs
      { r with memory := r.sessions.foldl (fun memory s => increment s memory) r.memory } :=
    use.visiting fun _ => id
  have ready := visiting.perm ((List.reverse_perm r.sessions).append_right refs)
  obtain ⟨left, texts⟩ := ready.visit
  have counted : SameTexts r
      { r with memory := r.sessions.foldl (fun memory s => increment s memory) r.memory } :=
    ⟨le_rfl, fun t _ => (names_foldl r.sessions t r.memory).1⟩
  exact ⟨left, counted.trans texts⟩

end ReceiveRegistry

end Tether.Plugin
