import Tether.Backend.Step
import Tether.Semantics.SlidingWindow

/-!
# Failed knocks and the lockout

The room counts the hellos that claim a wrong token, in a ledger that is emptied
when the lockout starts. What it refuses because the token has expired, or was
never armed, is not counted.

## Main definitions

* `failedAt`, `failures` — the receiver hellos refused as invalid, with their times
* `FillsWindow` — a refusal that makes the window full
* `Counted` — a step that the ledger does not lose

## Main results

* `ledger_next` — what an event does to the ledger and the lockout
* `lockout_needs_failures` — no lockout without a full window
* `full_window_locks` — a full window locks, if every step is counted
* `failed_knocks_lock_out` — both, over runs
-/

namespace Tether.Backend

open Js Semantics

section

variable (engine : Engine) (env : Env)

/-- The time of a receiver hello that is refused with `token_invalid`. -/
def failedAt (room : Room) (event : Event) : Option ℤ :=
  match room.received? engine event with
  | none => none
  | some d =>
    if isReceiverHello d.msg ∧ (WrongToken engine room d.tokenParam d.msg ∨
      Expired engine room d.tokenParam d.now d.msg) then some d.now else none

/-- The times of the refusals along a run. -/
def failures (events : List Event) : List ℤ :=
  (run (fun (state : Room × List ℤ) event =>
    (state.1.next engine env event, state.2 ++ (failedAt engine state.1 event).toList))
    (Room.initial, []) events).2

def Env.window (env : Env) : ℤ := env.rateLimitWindowSeconds * 1000

def Env.lockout (env : Env) : ℤ := env.lockoutSeconds * 1000

theorem Env.lockout_nonneg (env : Env) : 0 ≤ env.lockout := by
  rw [Env.lockout]
  omega

/-- A refusal at this time fills the window: with it, as many receiver hellos as
the limit allows have been refused less than a window ago. -/
def FillsWindow (before : List Event) (time : ℤ) : Prop :=
  env.rateLimitMaxAttempts ≤ (recent env.window time (failures engine env before)).length + 1

theorem failures_concat (events : List Event) (event : Event) :
    failures engine env (events ++ [event]) =
      failures engine env events ++ (failedAt engine (after engine env events) event).toList := by
  have state (events : List Event) :
      (run (fun (state : Room × List ℤ) event =>
        (state.1.next engine env event, state.2 ++ (failedAt engine state.1 event).toList))
        (Room.initial, []) events).1 = after engine env events := by
    induction events using List.reverseRecOn with
    | nil => rfl
    | append_singleton events event ih => rw [run_concat, ih, after_concat]
  rw [failures, run_concat, state, failures]

/-- An event leaves the ledger and the lockout alone, or records a wrong token, or
starts them afresh. -/
theorem ledger_next (room : Room) (event : Event) :
    ((room.next engine env event).attempts = room.attempts ∧
      (room.next engine env event).lockedOutUntil = room.lockedOutUntil) ∨
    (∃ d, room.received? engine event = some d ∧ isReceiverHello d.msg ∧
      WrongToken engine room d.tokenParam d.msg ∧
      (room.next engine env event).attempts = (room.recordAttempt env d.now).attempts ∧
      (room.next engine env event).lockedOutUntil =
        (room.recordAttempt env d.now).lockedOutUntil) ∨
    event = .reload ∧ (room.next engine env event).attempts = [] := by
  have change := next_state engine env room event
  generalize room.next engine env event = next at change
  cases change with
  | fetch roomHint tokenParam =>
    cases roomHint with
    | none => exact .inl ⟨rfl, rfl⟩
    | some hint =>
      simp only [Room.fetch]
      split_ifs <;> exact .inl ⟨rfl, rfl⟩
  | senderHello d received hello =>
    obtain ⟨_, _, _, armed⟩ := armed_eq engine env room d.now d.msg
    rw [armed]
    exact .inl ⟨rfl, rfl⟩
  | receiverHello d received hello =>
    have knocks := receiverHello_outcome engine env room d.ws d.tokenParam d.now d.uuid d.msg
    generalize room.receiverHello engine env d.ws d.tokenParam d.now d.uuid d.msg = result at knocks
    -- a refusal itself changes neither, so only the wrong token is recorded
    have refused (room : Room) (content : Value) (code : ℕ) (reason : String) :
        (room.sendAndClose d.ws content code reason).1.attempts = room.attempts ∧
        (room.sendAndClose d.ws content code reason).1.lockedOutUntil = room.lockedOutUntil := by
      obtain ⟨closed, state, -⟩ := Room.sendAndClose_eq room d.ws content code reason
      rw [state]
      exact ⟨rfl, rfl⟩
    cases knocks with
    | admitted => exact .inl ⟨rfl, rfl⟩
    | wrongToken wrong => exact .inr (.inl ⟨d, received, hello, wrong, refused _ _ _ _⟩)
    | expired => exact .inl (refused _ _ _ _)
    | lockedOut => exact .inl (refused _ _ _ _)
    | noText => exact .inl ⟨rfl, rfl⟩
  | revoked => exact .inl ⟨rfl, rfl⟩
  | records => exact .inl ⟨rfl, rfl⟩
  | reload reload => exact .inr (.inr ⟨reload, rfl⟩)

/-- The time that an event carries. -/
def Event.time? : Event → Option ℤ
  | .message _ now _ _ => some now
  | _ => none

/-- The clock does not run backwards. -/
def Timed (events : List Event) : Prop := (events.filterMap Event.time?).Pairwise (· ≤ ·)

/-- The ledger does not lose the step: the room stays loaded, no receiver hello is
refused because the token has expired, and none claims a wrong token less than a
window after a lockout has started. -/
def Counted (before : List Event) (event : Event) : Prop :=
  event ≠ .reload ∧ ∀ d, (after engine env before).received? engine event = some d →
    isReceiverHello d.msg →
    ¬ Expired engine (after engine env before) d.tokenParam d.now d.msg ∧
    (WrongToken engine (after engine env before) d.tokenParam d.msg →
      (after engine env before).lockedOutUntil = 0 ∨
      env.window ≤ d.now - ((after engine env before).lockedOutUntil - env.lockout))

end

section Lockout

variable {engine : Engine} {env : Env}

theorem failedAt_eq_some {room : Room} {event : Event} {t : ℤ} :
    failedAt engine room event = some t ↔
      ∃ d, room.received? engine event = some d ∧ isReceiverHello d.msg ∧
        (WrongToken engine room d.tokenParam d.msg ∨
          Expired engine room d.tokenParam d.now d.msg) ∧ t = d.now := by
  rw [failedAt]
  split
  · rename_i nothing
    simp [nothing]
  · rename_i d received
    rw [received]
    split_ifs with failed
    · constructor
      · intro same
        exact ⟨d, rfl, failed.1, failed.2, (Option.some.inj same).symm⟩
      · rintro ⟨_, same, -, -, rfl⟩
        rw [Option.some.inj same]
    · constructor
      · intro none
        cases none
      · rintro ⟨_, same, hello, invalid, -⟩
        obtain rfl := Option.some.inj same
        exact absurd ⟨hello, invalid⟩ failed

theorem received_time {room : Room} {event : Event} {d : Room.Delivery}
    (received : room.received? engine event = some d) : event.time? = some d.now.val := by
  cases event with
  | message ws now uuid data =>
    obtain ⟨_, _, -, -, -, rfl⟩ := (received_message engine).mp received
    rfl
  | _ => simp [Room.received?] at received

theorem failures_subset (events : List Event) :
    failures engine env events ⊆ events.filterMap Event.time? := by
  induction events using List.reverseRecOn with
  | nil => exact List.nil_subset _
  | append_singleton events event ih =>
    rw [failures_concat, List.filterMap_append]
    refine List.append_subset.mpr ⟨fun t old => List.mem_append_left _ (ih old), ?_⟩
    intro t new
    obtain ⟨d, received, -, -, rfl⟩ := failedAt_eq_some.mp (Option.mem_toList.mp new)
    exact List.mem_append_right _ (by simp [received_time received])

/-- Earlier events have earlier times. -/
theorem Timed.le {events : List Event} {event : Event} (timed : Timed (events ++ [event]))
    {t : ℤ} (now : event.time? = some t) : ∀ f ∈ events.filterMap Event.time?, f ≤ t := by
  intro f member
  rw [Timed, List.filterMap_append, List.pairwise_append] at timed
  exact timed.2.2 f member t (by simp [now])

theorem Timed.of_concat {events : List Event} {event : Event} (timed : Timed (events ++ [event])) :
    Timed events := by
  rw [Timed, List.filterMap_append, List.pairwise_append] at timed
  exact timed.1

/-- A wrong token is recorded. -/
theorem ledger_of_wrong (env : Env) {room : Room} {event : Event} {d : Room.Delivery}
    (received : room.received? engine event = some d) (hello : isReceiverHello d.msg)
    (wrong : WrongToken engine room d.tokenParam d.msg) :
    (room.next engine env event).attempts = (room.recordAttempt env d.now).attempts ∧
      (room.next engine env event).lockedOutUntil =
        (room.recordAttempt env d.now).lockedOutUntil := by
  rw [Room.next, handle_of_receiverHello engine env received hello]
  have knocks := receiverHello_outcome engine env room d.ws d.tokenParam d.now d.uuid d.msg
  generalize room.receiverHello engine env d.ws d.tokenParam d.now d.uuid d.msg = result at knocks
  cases knocks with
  | admitted passes => exact absurd wrong passes.not_invalid.1
  | wrongToken =>
    obtain ⟨closed, state, -⟩ := Room.sendAndClose_eq (room.recordAttempt env d.now) d.ws
      tokenInvalid 1008 "invalid token"
    rw [state]
    exact ⟨rfl, rfl⟩
  | expired expired =>
    obtain ⟨token, claims, wrong⟩ := wrong
    obtain ⟨other, claims', same, -⟩ := expired
    obtain rfl := Option.some.inj (claims.symm.trans claims')
    exact absurd wrong same
  | lockedOut _ right => exact absurd wrong right
  | noText nothing =>
    obtain ⟨token, claims, -⟩ := wrong
    simp [nothing] at claims

/-- Nothing else is, as long as the room stays loaded. -/
theorem ledger_of_not_wrong (env : Env) {room : Room} {event : Event} (loaded : event ≠ .reload)
    (right : ∀ d, room.received? engine event = some d → isReceiverHello d.msg →
      ¬ WrongToken engine room d.tokenParam d.msg) :
    (room.next engine env event).attempts = room.attempts ∧
      (room.next engine env event).lockedOutUntil = room.lockedOutUntil := by
  rcases ledger_next engine env room event with same | ⟨d, received, hello, wrong, -⟩ | ⟨reload, -⟩
  · exact same
  · exact absurd wrong (right d received hello)
  · exact absurd reload loaded

/-- What `recordAttempt` does, by whether the ledger is full. -/
theorem recordAttempt_cases (env : Env) (room : Room) (now : ℤ) :
    env.rateLimitMaxAttempts ≤ (recent env.window now room.attempts).length + 1 ∧
      (room.recordAttempt env now).attempts = [] ∧
      (room.recordAttempt env now).lockedOutUntil = now + env.lockout ∨
    ¬ env.rateLimitMaxAttempts ≤ (recent env.window now room.attempts).length + 1 ∧
      (room.recordAttempt env now).attempts = recent env.window now room.attempts ++ [now] ∧
      (room.recordAttempt env now).lockedOutUntil = room.lockedOutUntil := by
  have size : (room.attempts.filter (fun t => now - t < env.rateLimitWindowSeconds * 1000) ++
      [now]).length = (recent env.window now room.attempts).length + 1 := by
    rw [List.length_append, recent, Env.window]
    rfl
  rw [Room.recordAttempt]
  simp only [size]
  split_ifs with full
  · exact .inl ⟨full, rfl, rfl⟩
  · exact .inr ⟨full, rfl, rfl⟩

/-- A wrong token at an unlocked time meets the ledger that holds all refusals of
the window. -/
theorem ledger_agrees (events : List Event) (timed : Timed events)
    (counted : EveryStep (Counted engine env) events) (t : ℤ)
    (later : ∀ f ∈ events.filterMap Event.time?, f ≤ t)
    (apart : (after engine env events).lockedOutUntil = 0 ∨
      env.window ≤ t - ((after engine env events).lockedOutUntil - env.lockout)) :
    recent env.window t (after engine env events).attempts =
      recent env.window t (failures engine env events) := by
  induction events using List.reverseRecOn with
  | nil => rfl
  | append_singleton events event ih =>
    obtain ⟨countedBefore, loaded, countedNow⟩ := everyStep_concat.mp counted
    have earlier : ∀ f ∈ events.filterMap Event.time?, f ≤ t := fun f member =>
      later f (by simp [List.filterMap_append, member])
    have agrees := ih timed.of_concat countedBefore earlier
    rw [after_concat] at apart ⊢
    rw [failures_concat]
    by_cases wrong : ∃ d, (after engine env events).received? engine event = some d ∧
        isReceiverHello d.msg ∧ WrongToken engine (after engine env events) d.tokenParam d.msg
    · obtain ⟨d, received, hello, wrong⟩ := wrong
      obtain ⟨attempts, locked⟩ := ledger_of_wrong env received hello wrong
      have failed := failedAt_eq_some.mpr ⟨d, received, hello, .inl wrong, rfl⟩
      have now : (d.now : ℤ) ≤ t := later d.now (by simp [received_time received])
      rw [attempts, failed]
      rw [locked] at apart
      rcases recordAttempt_cases env (after engine env events) d.now with
        ⟨-, attempts, locked⟩ | ⟨-, attempts, locked⟩
      · -- the lockout has just started, and the window behind it is over
        have positive : (d.now : ℤ) + env.lockout ≠ 0 := by
          have := d.now.property
          have := env.lockout_nonneg
          omega
        rw [locked] at apart
        have pause : env.window ≤ t - d.now := by
          rcases apart with never | pause
          · exact absurd never positive
          · omega
        have before : ∀ f ∈ failures engine env events ++ [(d.now : ℤ)], f ≤ d.now := by
          intro f member
          rcases List.mem_append.mp member with old | new
          · exact timed.le (received_time received) f (failures_subset events old)
          · rw [List.mem_singleton.mp new]
        rw [attempts]
        exact (recent_eq_nil before pause).symm
      · rw [locked] at apart
        rw [attempts, recent_append, recent_append, recent_recent now, agrees apart]
        rfl
    · have right : ∀ d, (after engine env events).received? engine event = some d →
          isReceiverHello d.msg →
          ¬ WrongToken engine (after engine env events) d.tokenParam d.msg :=
        fun d received hello isWrong => wrong ⟨d, received, hello, isWrong⟩
      obtain ⟨attempts, locked⟩ := ledger_of_not_wrong env loaded right
      have passed : failedAt engine (after engine env events) event = none := by
        by_contra failed
        obtain ⟨f, some⟩ := Option.ne_none_iff_exists'.mp failed
        obtain ⟨d, received, hello, invalid, -⟩ := failedAt_eq_some.mp some
        rcases invalid with isWrong | expired
        · exact right d received hello isWrong
        · exact (countedNow d received hello).1 expired
      rw [attempts, passed, agrees (locked ▸ apart)]
      simp

/-- The ledger holds only refusals, each once. -/
theorem ledger_sublist (events : List Event) :
    (after engine env events).attempts.Sublist (failures engine env events) := by
  induction events using List.reverseRecOn with
  | nil => exact List.nil_sublist _
  | append_singleton events event ih =>
    rw [after_concat, failures_concat]
    rcases ledger_next engine env (after engine env events) event with
      ⟨same, -⟩ | ⟨d, received, hello, wrong, recorded, -⟩ | ⟨-, empty⟩
    · rw [same]
      exact ih.trans (List.sublist_append_left _ _)
    · have failed := failedAt_eq_some.mpr ⟨d, received, hello, .inl wrong, rfl⟩
      rw [recorded, failed]
      rcases recordAttempt_cases env (after engine env events) d.now with
        ⟨-, attempts, -⟩ | ⟨-, attempts, -⟩
      · rw [attempts]
        exact List.nil_sublist _
      · rw [attempts]
        exact (List.filter_sublist.trans ih).append (List.Sublist.refl _)
    · rw [empty]
      exact List.nil_sublist _

/-- A lockout starts only with a refusal that fills the window. -/
theorem lockout_needs_failures (events : List Event) (event : Event) (loaded : event ≠ .reload)
    (starts : (after engine env (events ++ [event])).lockedOutUntil ≠
      (after engine env events).lockedOutUntil) :
    ∃ t, failedAt engine (after engine env events) event = some t ∧
      FillsWindow engine env events t := by
  rw [after_concat] at starts
  rcases ledger_next engine env (after engine env events) event with
    ⟨-, same⟩ | ⟨d, received, hello, wrong, -, recorded⟩ | ⟨reload, -⟩
  · exact absurd same starts
  · rw [recorded] at starts
    refine ⟨d.now, failedAt_eq_some.mpr ⟨d, received, hello, .inl wrong, rfl⟩, ?_⟩
    rcases recordAttempt_cases env (after engine env events) d.now with
      ⟨full, -, -⟩ | ⟨-, -, same⟩
    · have fewer : (recent env.window d.now (after engine env events).attempts).length ≤
          (recent env.window d.now (failures engine env events)).length :=
        (recent_sublist (ledger_sublist events)).length_le
      rw [FillsWindow]
      omega
    · exact absurd same starts
  · exact absurd reload loaded

/-- If every step is counted, a refusal that fills the window locks the room. -/
theorem full_window_locks {before between : List Event} {event : Event} {t : ℤ}
    (timed : Timed (before ++ event :: between))
    (counted : EveryStep (Counted engine env) (before ++ event :: between))
    (failed : failedAt engine (after engine env before) event = some t)
    (full : FillsWindow engine env before t) :
    t + env.lockout ≤ (after engine env (before ++ event :: between)).lockedOutUntil := by
  induction between using List.reverseRecOn with
  | nil =>
    obtain ⟨countedBefore, -, countedNow⟩ := everyStep_concat.mp counted
    obtain ⟨d, received, hello, invalid, rfl⟩ := failedAt_eq_some.mp failed
    have wrong : WrongToken engine (after engine env before) d.tokenParam d.msg :=
      invalid.resolve_right (countedNow d received hello).1
    have earlier := timed.le (received_time received)
    have agrees := ledger_agrees before timed.of_concat countedBefore d.now earlier
      ((countedNow d received hello).2 wrong)
    rw [after_concat, (ledger_of_wrong env received hello wrong).2]
    rcases recordAttempt_cases env (after engine env before) d.now with
      ⟨-, -, locked⟩ | ⟨notFull, -, -⟩
    · rw [locked]
    · rw [agrees] at notFull
      exact absurd full notFull
  | append_singleton between event' ih =>
    rw [← List.cons_append, ← List.append_assoc] at timed counted ⊢
    obtain ⟨countedBefore, loaded, -⟩ := everyStep_concat.mp counted
    have locked := ih timed.of_concat countedBefore
    rw [after_concat]
    rcases ledger_next engine env (after engine env (before ++ event :: between)) event' with
      ⟨-, same⟩ | ⟨d, received, hello, wrong, -, recorded⟩ | ⟨reload, -⟩
    · rw [same]
      exact locked
    · rw [recorded]
      rcases recordAttempt_cases env (after engine env (before ++ event :: between)) d.now with
        ⟨-, -, again⟩ | ⟨-, -, same⟩
      · -- a later refusal locks the room for longer
        have passed : t ∈ (before ++ event :: between).filterMap Event.time? := by
          obtain ⟨first, delivered, -, -, rfl⟩ := failedAt_eq_some.mp failed
          simp [List.filterMap_append, received_time delivered]
        have later := timed.le (received_time received) t passed
        rw [again]
        omega
      · rw [same]
        exact locked
    · exact absurd reload loaded

/-- In every run on a clock that does not run backwards: no lockout starts
without a refusal that fills the window; and if every step is counted, nobody
gets in during a lockout period after such a refusal. -/
theorem failed_knocks_lock_out (events : List Event) :
    (∀ before event later, events = before ++ event :: later → event ≠ .reload →
      (after engine env (before ++ [event])).lockedOutUntil ≠
        (after engine env before).lockedOutUntil →
      ∃ t, failedAt engine (after engine env before) event = some t ∧
        FillsWindow engine env before t) ∧
    (EveryStep (Counted engine env) events →
      ∀ before event between t, events = before ++ event :: between →
      failedAt engine (after engine env before) event = some t →
      FillsWindow engine env before t →
      ∀ knock d, (after engine env events).received? engine knock = some d →
      isReceiverHello d.msg → Timed (events ++ [knock]) → d.now < t + env.lockout →
      ¬ Admitted engine (after engine env events) d.tokenParam d.now d.msg ∧
        (after engine env (events ++ [knock])).peers = (after engine env events).peers) := by
  refine ⟨?_, ?_⟩
  · rintro before event later - loaded starts
    exact lockout_needs_failures before event loaded starts
  · rintro counted before event between t rfl failed full knock d received hello timed soon
    -- the lockout is not over when the knock comes
    have locked := full_window_locks timed.of_concat counted failed full
    have refused : ¬ Admitted engine (after engine env (before ++ event :: between)) d.tokenParam
        d.now d.msg := by
      rintro ⟨_, -, -, -, free⟩
      omega
    refine ⟨refused, ?_⟩
    rw [after_concat, Room.next, handle_of_receiverHello engine env received hello]
    rcases receiverHello_state engine env (after engine env (before ++ event :: between)) d.ws
      d.tokenParam d.now d.uuid d.msg with ⟨passes, -⟩ | ⟨_, _, _, -, state⟩
    · exact absurd passes refused
    · rw [state]

end Lockout

/-! ### Windows that are full and do not lock -/

instance (engine : Engine) (env : Env) (before : List Event) (time : ℤ) :
    Decidable (FillsWindow engine env before time) := inferInstanceAs (Decidable (_ ≤ _))

instance (events : List Event) : Decidable (Timed events) :=
  inferInstanceAs (Decidable (List.Pairwise _ _))

instance (engine : Engine) (env : Env) (before : List Event) (event : Event) :
    Decidable (Counted engine env before event) :=
  decidable_of_iff (event ≠ .reload ∧
    ∀ d ∈ ((after engine env before).received? engine event).toList, isReceiverHello d.msg →
      ¬ Expired engine (after engine env before) d.tokenParam d.now d.msg ∧
      (WrongToken engine (after engine env before) d.tokenParam d.msg →
        (after engine env before).lockedOutUntil = 0 ∨
        env.window ≤ d.now - ((after engine env before).lockedOutUntil - env.lockout)))
    (by simp only [Counted, Option.mem_toList])

/-- Connections to a room that no sender has opened. -/
def unopened : List Event := List.replicate 13 connect

/-- Knocks by the sockets from 1 on, a number of milliseconds apart. -/
def knocks (count step : ℕ) (msg : Value) : List Event :=
  (List.range count).map fun n => arrival (n + 1) (step * n) (Fin.ofNat 10 n) msg

def wrongKnock : Value :=
  message "hello" [("role", .str (str "receiver")), ("token", .str (str "TTHR-WRONG"))]

/-- A room with a sender, and ten knocks with a wrong token, a second apart. -/
def lockedRoom : List Event :=
  unopened ++ [arrival 0 0 0 (helloAs "sender")] ++ knocks 10 1000 wrongKnock

theorem failed_knocks_lock_out_lockedRoom :
    ∃ d, (after asciiEngine .deployed lockedRoom).received? asciiEngine
        (arrival 11 10000 1 (helloAs "receiver")) = some d ∧
      ¬ Admitted asciiEngine (after asciiEngine .deployed lockedRoom) d.tokenParam d.now d.msg := by
  have facts : (((after asciiEngine .deployed lockedRoom).received? asciiEngine
      (arrival 11 10000 1 (helloAs "receiver"))).any
        fun d => isReceiverHello d.msg && d.now.val = 10001) = true := by
    decide +kernel
  obtain ⟨d, received, shape⟩ := (Option.any_eq_true ..).mp facts
  simp only [Bool.and_eq_true, decide_eq_true_eq] at shape
  have counted : EveryStep (Counted asciiEngine .deployed) lockedRoom := by decide +kernel
  have refused := (failed_knocks_lock_out lockedRoom).2 counted
    (unopened ++ [arrival 0 0 0 (helloAs "sender")] ++ knocks 9 1000 wrongKnock)
    (arrival 10 9000 9 wrongKnock) [] 9001 (by decide +kernel) (by decide +kernel)
    (by decide +kernel) (arrival 11 10000 1 (helloAs "receiver")) d received shape.1
    (by decide +kernel) (by rw [shape.2]; decide +kernel)
  exact ⟨d, received, refused.1⟩

/-- Ten refusals within ten milliseconds in a room without a sender: one opens the
room, and the next receiver is let in. Or eleven a second apart in a room with a
sender: the last ten fill the window, but the lockout is over a second before it
should be. -/
theorem full_window_lets_in :
    (failedAt asciiEngine (after asciiEngine .deployed (unopened ++ knocks 9 1 (helloAs "receiver")))
        (arrival 10 9 9 (helloAs "receiver")) = some 10 ∧
      FillsWindow asciiEngine .deployed (unopened ++ knocks 9 1 (helloAs "receiver")) 10 ∧
      12 < 10 + Env.deployed.lockout ∧
      ((after asciiEngine .deployed (unopened ++ knocks 10 1 (helloAs "receiver") ++
        [arrival 0 10 0 (helloAs "sender"), arrival 11 11 1 (helloAs "receiver")])).peers.any
          fun p => p.role = .receiver && p.ws = 11) = true) ∧
    (failedAt asciiEngine (after asciiEngine .deployed lockedRoom)
        (arrival 11 10000 9 wrongKnock) = some 10001 ∧
      FillsWindow asciiEngine .deployed lockedRoom 10001 ∧
      309501 < 10001 + Env.deployed.lockout ∧
      ((after asciiEngine .deployed (lockedRoom ++ [arrival 11 10000 9 wrongKnock,
        arrival 12 309500 1 (helloAs "receiver")])).peers.any
          fun p => p.role = .receiver && p.ws = 12) = true) := by
  decide +kernel

end Tether.Backend
