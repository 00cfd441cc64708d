import Tether.Backend.Lockout
import Tether.Backend.Revocation

/-!
# Reloads

The token, the expiry and whether the token is reusable are in storage whenever
they are in memory, so they survive a reload. The failed attempts and the lockout
are in memory only: a reload is not noticed by receivers as long as neither of them
could have mattered.

## Main definitions

* `Room.verdict`, `verdicts` — how receiver hellos end
* `Stored` — storage holds what memory does
* `Alike` — two rooms that judge the same receiver hellos alike
* `Clear` — no lockout and no failed attempt is left at a time

## Main results

* `verdict_answer` — what a receiver sees of the verdict
* `stored` — everything but the rate limit is stored
* `reload_transparent` — a reload that is clear changes no verdict
* `lockout_forgotten` — one that is not ends a lockout
-/

namespace Tether.Backend

open Js Semantics

/-! ### Verdicts -/

/-- How a receiver hello ends. -/
inductive Verdict
  | admitted
  | tokenInvalid
  | tokenLockedOut
  /-- The handler has thrown. -/
  | noAnswer
  deriving DecidableEq

section

variable (engine : Engine) (env : Env)

/-- The checks of a receiver hello. -/
def Room.verdict (room : Room) (tokenParam : Option Str) (now : ℤ) (msg : Value) : Verdict :=
  match claimed engine tokenParam msg with
  | none => .noAnswer
  | some claimed =>
    if room.noToken ∨ some claimed ≠ room.token then .tokenInvalid
    else if Number.gt (.fin now) room.expiresAt then .tokenInvalid
    else if now < room.lockedOutUntil then .tokenLockedOut
    else .admitted

/-- What becomes of a receiver hello with a verdict. -/
structure Answered (room : Room) (ws : Socket) (now : ℤ) (recvId : Uuid) (msg : Value)
    (verdict : Verdict) (result : Room × List Effect) : Prop where
  admitted : verdict = .admitted →
    result.1.peers = setPeer (Room.receiverRecord recvId ws msg) room.peers
  refused : verdict ≠ .admitted → result.1.peers = room.peers
  tokenInvalid : verdict = .tokenInvalid → room.IsOpen ws → .send ws tokenInvalid ∈ result.2
  tokenLockedOut : verdict = .tokenLockedOut → room.IsOpen ws →
    .send ws (room.tokenLockedOut engine now) ∈ result.2
  noAnswer : verdict = .noAnswer → result.2 = []

/-- The verdict is what the receiver sees. -/
theorem verdict_answer (room : Room) (ws : Socket) (tokenParam : Option Str) (now : ℤ)
    (recvId : Uuid) (msg : Value) :
    Answered engine room ws now recvId msg (room.verdict engine tokenParam now msg)
      (room.receiverHello engine env ws tokenParam now recvId msg) := by
  rw [Room.verdict, Room.receiverHello]
  cases Room.claimed engine tokenParam msg with
  | none => exact ⟨by simp, fun _ => rfl, by simp, by simp, fun _ => rfl⟩
  | some claimed =>
    simp only
    split_ifs with different late locked
    · obtain ⟨attempts, lockedOutUntil, recorded⟩ := Room.recordAttempt_eq env room now
      obtain ⟨closed, state, -⟩ := Room.sendAndClose_eq (room.recordAttempt env now) ws
        Backend.tokenInvalid 1008 "invalid token"
      refine ⟨by simp, fun _ => by rw [state, recorded], fun _ isOpen => ?_, by simp, by simp⟩
      apply Room.send_mem_sendAndClose
      rw [recorded]
      exact isOpen
    · obtain ⟨closed, state, -⟩ := Room.sendAndClose_eq room ws Backend.tokenInvalid 1008 "expired"
      exact ⟨by simp, fun _ => by rw [state],
        fun _ isOpen => Room.send_mem_sendAndClose isOpen _ _ _, by simp, by simp⟩
    · obtain ⟨closed, state, -⟩ := Room.sendAndClose_eq room ws (room.tokenLockedOut engine now) 1013
        "locked out"
      exact ⟨by simp, fun _ => by rw [state], by simp,
        fun _ isOpen => Room.send_mem_sendAndClose isOpen _ _ _, by simp⟩
    · refine ⟨fun _ => ?_, by simp, by simp, by simp, by simp⟩
      split <;> rfl

/-- The verdict on what an event delivers. -/
def Room.verdict? (room : Room) (event : Event) : Option Verdict :=
  (room.received? engine event).map fun d => room.verdict engine d.tokenParam d.now d.msg

/-- The verdicts along a run. -/
def verdicts : Room → List Event → List (Option Verdict)
  | _, [] => []
  | room, event :: later =>
    room.verdict? engine event :: verdicts (room.next engine env event) later

/-- A request, a receiver hello on one of the connections since the first `old`
ones, or the end of such a connection. -/
inductive Knocking (old : Socket) : Event → Prop
  | fetch (roomHint tokenParam : Option Str) : Knocking old (.fetch roomHint tokenParam)
  | hello (ws : Socket) (now : Millis) (uuid : Uuid) (data : List Char) (msg : Value)
    (new : old ≤ ws) (parsed : parse engine data = some msg) (hello : isReceiverHello msg) :
    Knocking old (.message ws now uuid data)
  | closed (ws : Socket) (new : old ≤ ws) : Knocking old (.closed ws)

end

/-- At this time no lockout is left, and every failed attempt has left the window. -/
structure Clear (env : Env) (room : Room) (now : ℤ) : Prop where
  lockout : room.lockedOutUntil ≤ now
  attempts : recent env.window now room.attempts = []

variable {engine : Engine} {env : Env}

/-! ### Storage -/

/-- Storage holds the token, the expiry and whether the token is reusable. -/
structure Stored (room : Room) : Prop where
  token : room.storage.token = room.token
  expiresAt : room.storage.expiresAt.getD (.fin 0) = room.expiresAt
  reusable : room.storage.reusable.getD false = room.reusable

theorem stored_next {room : Room} (stored : Stored room) (event : Event) :
    Stored (room.next engine env event) := by
  obtain ⟨token, expiresAt, reusable⟩ := stored
  have change := next_state engine env room event
  generalize room.next engine env event = next at change
  cases change with
  | fetch roomHint tokenParam =>
    cases roomHint with
    | none => exact ⟨token, expiresAt, reusable⟩
    | some hint =>
      rw [Room.fetch]
      split_ifs
      · -- the token of the request is stored as well
        exact ⟨rfl, expiresAt, reusable⟩
      · exact ⟨token, expiresAt, reusable⟩
  | senderHello d =>
    rcases armed_cases engine env room d.now d.msg with same | ⟨_, _, armed⟩
    · rw [same]
      exact ⟨token, expiresAt, reusable⟩
    · -- arming writes everything that it sets
      rw [armed]
      refine ⟨?_, rfl, rfl⟩
      dsimp only [Room.welcome]
      split_ifs
      · exact token
      · rfl
  | receiverHello d =>
    rcases receiverHello_state engine env room d.ws d.tokenParam d.now d.uuid d.msg with
      ⟨-, state⟩ | ⟨_, _, _, -, state⟩
    · rw [state]
      exact ⟨token, expiresAt, reusable⟩
    · rw [state]
      exact ⟨token, expiresAt, reusable⟩
  | revoked => exact ⟨rfl, rfl, reusable⟩
  | records => exact ⟨token, expiresAt, reusable⟩
  | reload => exact ⟨rfl, rfl, rfl⟩

/-- Everything but the rate limit is stored. -/
theorem stored (engine : Engine) (env : Env) (events : List Event) :
    Stored (after engine env events) := by
  have base : Stored Room.initial := ⟨rfl, rfl, rfl⟩
  have step (room : Room) (event : Event) (stored : Stored room) :
      Stored (room.next engine env event) := stored_next stored event
  exact run_invariant _ _ step base events

/-! ### Rooms that are alike -/

/-- The two rooms judge receiver hellos alike that come on new connections at these
times. -/
structure Alike (env : Env) (old : Socket) (times : List ℤ) (live fresh : Room) : Prop where
  token : live.token = fresh.token
  expiresAt : live.expiresAt = fresh.expiresAt
  sockets : live.sockets = fresh.sockets
  listeners : ∀ ws, old ≤ ws → live.listeners.lookup ws = fresh.listeners.lookup ws
  attempts : ∀ now ∈ times,
    recent env.window now live.attempts = recent env.window now fresh.attempts
  lockout : ∀ now ∈ times, now < live.lockedOutUntil ↔ now < fresh.lockedOutUntil

section Step

variable {old : Socket} {times : List ℤ} {live fresh : Room}

theorem Alike.verdict (alike : Alike env old times live fresh) {now : ℤ} (timed : now ∈ times)
    (tokenParam : Option Str) (msg : Value) :
    live.verdict engine tokenParam now msg = fresh.verdict engine tokenParam now msg := by
  rw [Room.verdict, Room.verdict]
  cases Room.claimed engine tokenParam msg with
  | none => rfl
  | some claimed =>
    have unnamed : live.noToken = fresh.noToken := by rw [Room.noToken, Room.noToken, alike.token]
    simp only [unnamed, alike.token, alike.expiresAt]
    exact if_congr Iff.rfl rfl (if_congr Iff.rfl rfl (if_congr (alike.lockout now timed) rfl rfl))

theorem Alike.received? (engine : Engine) (alike : Alike env old times live fresh)
    {ws : Socket} (new : old ≤ ws) (now : Millis) (uuid : Uuid) (data : List Char) :
    live.received? engine (.message ws now uuid data) =
      fresh.received? engine (.message ws now uuid data) := by
  have throws : live.throws engine = fresh.throws engine := by
    funext msg
    rw [Room.throws, Room.throws, alike.expiresAt]
  rw [Room.received?, Room.received?, alike.listeners ws new, throws]

/-- What a request changes. -/
theorem fetch_fields (room : Room) (roomHint tokenParam : Option Str) :
    (room.fetch roomHint tokenParam).token =
        (if roomHint.getD [] = [] then room.token else roomHint) ∧
      (room.fetch roomHint tokenParam).expiresAt = room.expiresAt ∧
      (room.fetch roomHint tokenParam).sockets = room.sockets + 1 ∧
      (room.fetch roomHint tokenParam).listeners =
        room.listeners ++ [(room.sockets, tokenParam)] ∧
      (room.fetch roomHint tokenParam).attempts = room.attempts ∧
      (room.fetch roomHint tokenParam).lockedOutUntil = room.lockedOutUntil := by
  cases roomHint with
  | none => exact ⟨rfl, rfl, rfl, rfl, rfl, rfl⟩
  | some hint =>
    rw [Option.getD_some, Room.fetch]
    by_cases adopts : hint ≠ [] ∧ room.token ≠ some hint
    · simp only [if_pos adopts, if_neg adopts.1, and_self]
    · simp only [if_neg adopts, and_self, and_true]
      by_cases empty : hint = []
      · rw [if_pos empty]
      · rw [if_neg empty]
        by_contra other
        exact adopts ⟨empty, other⟩

theorem Alike.fetch (alike : Alike env old times live fresh) (roomHint tokenParam : Option Str) :
    Alike env old times (live.fetch roomHint tokenParam) (fresh.fetch roomHint tokenParam) := by
  obtain ⟨token, expiresAt, sockets, listeners, attempts, lockout⟩ :=
    fetch_fields live roomHint tokenParam
  obtain ⟨token', expiresAt', sockets', listeners', attempts', lockout'⟩ :=
    fetch_fields fresh roomHint tokenParam
  constructor
  · rw [token, token', alike.token]
  · rw [expiresAt, expiresAt', alike.expiresAt]
  · rw [sockets, sockets', alike.sockets]
  · intro ws new
    rw [listeners, listeners', List.lookup_append, List.lookup_append, alike.listeners ws new,
      alike.sockets]
  · rw [attempts, attempts']
    exact alike.attempts
  · rw [lockout, lockout']
    exact alike.lockout

/-- A receiver hello leaves the token, the expiry and the connections alone. -/
theorem receiverHello_fields (env : Env) {room : Room} {event : Event} {d : Room.Delivery}
    (received : room.received? engine event = some d) (hello : isReceiverHello d.msg) :
    (room.next engine env event).token = room.token ∧
      (room.next engine env event).expiresAt = room.expiresAt ∧
      (room.next engine env event).sockets = room.sockets ∧
      (room.next engine env event).listeners = room.listeners := by
  rw [Room.next, handle_of_receiverHello engine env received hello]
  rcases receiverHello_state engine env room d.ws d.tokenParam d.now d.uuid d.msg with
    ⟨-, state⟩ | ⟨_, _, _, -, state⟩
  · rw [state]
    exact ⟨rfl, rfl, rfl, rfl⟩
  · rw [state]
    exact ⟨rfl, rfl, rfl, rfl⟩

theorem Alike.wrongToken (alike : Alike env old times live fresh) (tokenParam : Option Str)
    (msg : Value) :
    WrongToken engine live tokenParam msg ↔ WrongToken engine fresh tokenParam msg := by
  rw [WrongToken, WrongToken, Room.noToken, Room.noToken, alike.token]

/-- After a recorded attempt the two ledgers are the same. -/
theorem Alike.recordAttempt (alike : Alike env old times live fresh) {now : ℤ}
    (timed : now ∈ times) :
    (live.recordAttempt env now).attempts = (fresh.recordAttempt env now).attempts ∧
      ∀ later ∈ times, later < (live.recordAttempt env now).lockedOutUntil ↔
        later < (fresh.recordAttempt env now).lockedOutUntil := by
  have same := alike.attempts now timed
  rcases recordAttempt_cases env live now with ⟨full, attempts, lockout⟩ | ⟨full, attempts, lockout⟩
  · rcases recordAttempt_cases env fresh now with ⟨-, attempts', lockout'⟩ | ⟨room, -⟩
    · rw [attempts, attempts', lockout, lockout']
      exact ⟨rfl, fun _ _ => Iff.rfl⟩
    · exact absurd (same ▸ full) room
  · rcases recordAttempt_cases env fresh now with ⟨full', -⟩ | ⟨-, attempts', lockout'⟩
    · exact absurd (same ▸ full') full
    · rw [attempts, attempts', lockout, lockout', same]
      exact ⟨rfl, alike.lockout⟩

theorem Alike.hello (alike : Alike env old times live fresh) {event : Event} {d : Room.Delivery}
    (loaded : event ≠ .reload) (received : live.received? engine event = some d)
    (received' : fresh.received? engine event = some d) (hello : isReceiverHello d.msg)
    (timed : (d.now : ℤ) ∈ times) :
    Alike env old times (live.next engine env event) (fresh.next engine env event) := by
  obtain ⟨token, expiresAt, sockets, listeners⟩ := receiverHello_fields env received hello
  obtain ⟨token', expiresAt', sockets', listeners'⟩ := receiverHello_fields env received' hello
  -- both rooms see a wrong token at once, as they have the same one
  have ledger : (∀ now ∈ times, recent env.window now (live.next engine env event).attempts =
        recent env.window now (fresh.next engine env event).attempts) ∧
      ∀ now ∈ times, now < (live.next engine env event).lockedOutUntil ↔
        now < (fresh.next engine env event).lockedOutUntil := by
    by_cases wrong : WrongToken engine live d.tokenParam d.msg
    · obtain ⟨attempts, lockout⟩ := ledger_of_wrong env received hello wrong
      obtain ⟨attempts', lockout'⟩ := ledger_of_wrong env received' hello
        ((alike.wrongToken d.tokenParam d.msg).mp wrong)
      obtain ⟨same, locks⟩ := alike.recordAttempt timed
      rw [attempts, attempts', lockout, lockout', same]
      exact ⟨fun _ _ => rfl, locks⟩
    · have right {room : Room} (delivers : room.received? engine event = some d)
          (right : ¬ WrongToken engine room d.tokenParam d.msg) :=
        ledger_of_not_wrong env loaded fun other received _ =>
          Option.some.inj (delivers.symm.trans received) ▸ right
      obtain ⟨attempts, lockout⟩ := right received wrong
      obtain ⟨attempts', lockout'⟩ := right received'
        fun wrong' => wrong ((alike.wrongToken d.tokenParam d.msg).mpr wrong')
      rw [attempts, attempts', lockout, lockout']
      exact ⟨alike.attempts, alike.lockout⟩
  constructor
  · rw [token, token', alike.token]
  · rw [expiresAt, expiresAt', alike.expiresAt]
  · rw [sockets, sockets', alike.sockets]
  · rw [listeners, listeners']
    exact alike.listeners
  · exact ledger.1
  · exact ledger.2

/-- The end of a connection changes its records and that it is listened to. -/
theorem closed_fields (engine : Engine) (env : Env) (room : Room) (ws : Socket) :
    (room.next engine env (.closed ws)).token = room.token ∧
      (room.next engine env (.closed ws)).expiresAt = room.expiresAt ∧
      (room.next engine env (.closed ws)).sockets = room.sockets ∧
      (room.next engine env (.closed ws)).listeners = room.listeners.filter (·.1 ≠ ws) ∧
      (room.next engine env (.closed ws)).attempts = room.attempts ∧
      (room.next engine env (.closed ws)).lockedOutUntil = room.lockedOutUntil := by
  rw [Room.next, Room.handle]
  rcases onClose_cases { room with listeners := room.listeners.filter (·.1 ≠ ws) } ws with
    ⟨ignored, -⟩ | ⟨peer, -, state, -⟩ | ⟨peer, closed, -, -, state, -, -⟩
  · rw [ignored]
    exact ⟨rfl, rfl, rfl, rfl, rfl, rfl⟩
  · rw [state]
    exact ⟨rfl, rfl, rfl, rfl, rfl, rfl⟩
  · rw [state]
    exact ⟨rfl, rfl, rfl, rfl, rfl, rfl⟩

theorem lookup_filter_ne (listeners : List (Socket × Option Str)) (ws key : Socket) :
    (listeners.filter (·.1 ≠ ws)).lookup key =
      if key = ws then none else listeners.lookup key := by
  induction listeners with
  | nil => simp
  | cons listener rest ih =>
    obtain ⟨other, tokenParam⟩ := listener
    by_cases gone : other = ws
    · have dropped : ((other, tokenParam) :: rest).filter (·.1 ≠ ws) = rest.filter (·.1 ≠ ws) :=
        List.filter_cons_of_neg (by simpa using gone)
      rw [dropped, ih, List.lookup_cons]
      split_ifs with named
      · rfl
      · rw [beq_eq_false_iff_ne.mpr (by rw [gone]; exact named)]
    · have kept : ((other, tokenParam) :: rest).filter (·.1 ≠ ws) =
          (other, tokenParam) :: rest.filter (·.1 ≠ ws) :=
        List.filter_cons_of_pos (by simpa using gone)
      rw [kept, List.lookup_cons, List.lookup_cons, ih]
      by_cases named : key = ws
      · subst named
        rw [beq_eq_false_iff_ne.mpr (Ne.symm gone), if_pos rfl]
      · rw [if_neg named, if_neg named]

theorem Alike.closed (engine : Engine) (alike : Alike env old times live fresh) (ws : Socket) :
    Alike env old times (live.next engine env (.closed ws))
      (fresh.next engine env (.closed ws)) := by
  obtain ⟨token, expiresAt, sockets, listeners, attempts, lockout⟩ := closed_fields engine env live ws
  obtain ⟨token', expiresAt', sockets', listeners', attempts', lockout'⟩ :=
    closed_fields engine env fresh ws
  constructor
  · rw [token, token', alike.token]
  · rw [expiresAt, expiresAt', alike.expiresAt]
  · rw [sockets, sockets', alike.sockets]
  · intro key new
    rw [listeners, listeners', lookup_filter_ne, lookup_filter_ne, alike.listeners key new]
  · rw [attempts, attempts']
    exact alike.attempts
  · rw [lockout, lockout']
    exact alike.lockout

/-- A message that is not delivered does nothing. -/
theorem next_of_not_received (env : Env) {room : Room} {ws : Socket} {now : Millis} {uuid : Uuid}
    {data : List Char} (nothing : room.received? engine (.message ws now uuid data) = none) :
    room.next engine env (.message ws now uuid data) = room := by
  rw [Room.next, handle_of_not_received engine env nothing]

theorem received_content {room : Room} {ws : Socket} {now : Millis} {uuid : Uuid}
    {data : List Char} {msg : Value} (parsed : parse engine data = some msg) {d : Room.Delivery}
    (received : room.received? engine (.message ws now uuid data) = some d) :
    d.now = now ∧ d.msg = msg := by
  obtain ⟨_, read, -, reads, -, rfl⟩ := (received_message engine).mp received
  exact ⟨rfl, Option.some.inj (reads.symm.trans parsed)⟩

theorem time_pos {event : Event} {now : ℤ} (time : event.time? = some now) : 0 < now := by
  cases event with
  | message ws clock uuid data =>
    obtain rfl := Option.some.inj time
    exact clock.property
  | _ => cases time

/-- Alike rooms give the same verdict and stay alike. -/
theorem Alike.next (alike : Alike env old times live fresh) {event : Event}
    (knocking : Knocking engine old event) (timed : ∀ now, event.time? = some now → now ∈ times) :
    live.verdict? engine event = fresh.verdict? engine event ∧
      Alike env old times (live.next engine env event) (fresh.next engine env event) := by
  cases knocking with
  | fetch roomHint tokenParam => exact ⟨rfl, alike.fetch roomHint tokenParam⟩
  | closed ws new => exact ⟨rfl, alike.closed engine ws⟩
  | hello ws now uuid data msg new parsed hello =>
    have same := alike.received? engine new now uuid data
    cases received : fresh.received? engine (.message ws now uuid data) with
    | none =>
      rw [received] at same
      rw [next_of_not_received env same, next_of_not_received env received, Room.verdict?,
        Room.verdict?, same, received]
      exact ⟨rfl, alike⟩
    | some d =>
      rw [received] at same
      obtain ⟨time, content⟩ := received_content parsed received
      have atTime : (d.now : ℤ) ∈ times := by
        rw [time]
        exact timed now rfl
      rw [Room.verdict?, Room.verdict?, same, received]
      refine ⟨congrArg some (alike.verdict atTime d.tokenParam d.msg), ?_⟩
      exact alike.hello (by simp) same received (content ▸ hello) atTime

/-- Alike rooms give the same verdicts along a run. -/
theorem Alike.verdicts (alike : Alike env old times live fresh) {later : List Event}
    (knocking : ∀ event ∈ later, Knocking engine old event)
    (timed : ∀ event ∈ later, ∀ now, event.time? = some now → now ∈ times) :
    verdicts engine env live later = verdicts engine env fresh later := by
  induction later generalizing live fresh with
  | nil => rfl
  | cons event later ih =>
    obtain ⟨here, rest⟩ := List.forall_mem_cons.mp knocking
    obtain ⟨now, times⟩ := List.forall_mem_cons.mp timed
    obtain ⟨same, next⟩ := alike.next here now
    rw [Backend.verdicts, Backend.verdicts, same, ih next rest times]

end Step

/-! ### The result -/

/-- A room that is clear at the times to come is like its reload. -/
theorem alike_reload {before : List Event} {times : List ℤ}
    (clear : ∀ now ∈ times, Clear env (after engine env before) now)
    (positive : ∀ now ∈ times, 0 < now) :
    Alike env (after engine env before).sockets times (after engine env before)
      (after engine env (before ++ [.reload])) := by
  have kept := stored engine env before
  rw [after_concat]
  constructor
  · exact kept.token.symm
  · exact kept.expiresAt.symm
  · rfl
  · intro ws new
    refine List.lookup_eq_none_iff.mpr fun l member => ?_
    have created := listeners_lt engine env before l member
    rw [bne_iff_ne]
    exact Nat.ne_of_gt (Nat.lt_of_lt_of_le created new)
  · intro now member
    rw [(clear now member).attempts]
    rfl
  · intro now member
    have lockout := (clear now member).lockout
    have since := positive now member
    refine iff_of_false (by omega) ?_
    change ¬ now < 0
    omega

/-- The token, the expiry and whether the token is reusable survive a reload. If at the
times of the receiver hellos to come no lockout and no failed attempt is left, then
the reload changes none of their verdicts. -/
theorem reload_transparent (engine : Engine) (env : Env) (before later : List Event)
    (knocking : ∀ event ∈ later, Knocking engine (after engine env before).sockets event)
    (clear : ∀ event ∈ later, ∀ now, event.time? = some now →
      Clear env (after engine env before) now) :
    verdicts engine env (after engine env (before ++ [.reload])) later =
        verdicts engine env (after engine env before) later ∧
      (after engine env (before ++ [.reload])).token = (after engine env before).token ∧
      (after engine env (before ++ [.reload])).expiresAt = (after engine env before).expiresAt ∧
      (after engine env (before ++ [.reload])).reusable = (after engine env before).reusable := by
  have kept := stored engine env before
  refine ⟨?_, ?_⟩
  · have times (now : ℤ) (member : now ∈ later.filterMap Event.time?) :
        Clear env (after engine env before) now ∧ 0 < now := by
      obtain ⟨event, present, time⟩ := List.mem_filterMap.mp member
      exact ⟨clear event present now time, time_pos time⟩
    have alike := alike_reload (fun now member => (times now member).1)
      fun now member => (times now member).2
    refine (alike.verdicts knocking fun event present now time => ?_).symm
    exact List.mem_filterMap.mpr ⟨event, present, time⟩
  · rw [after_concat]
    exact ⟨kept.token, kept.expiresAt, kept.reusable⟩

/-! ### Samples -/

/-- One failed attempt locks for five minutes. -/
def strictEnv : Env := { Env.deployed with rateLimitMaxAttempts := 1 }

/-- A room with a sender, and a receiver that claims a wrong token. -/
def failedOnce : List Event :=
  [connect, connect, arrival 0 0 0 (helloAs "sender"), arrival 1 1 1 wrongKnock]

/-- A receiver connects and says hello at a time. -/
def knockAt (now : ℕ) : List Event := [connect, arrival 2 now 2 (helloAs "receiver")]

private theorem knocking_knockAt (now : ℕ) :
    ∀ event ∈ knockAt now,
      Knocking asciiEngine (after asciiEngine strictEnv failedOnce).sockets event := by
  have facts : (after asciiEngine strictEnv failedOnce).sockets = 2 ∧
      (parse asciiEngine (stringify (helloAs "receiver"))).any isReceiverHello := by
    decide +kernel
  obtain ⟨msg, parsed, hello⟩ := (Option.any_eq_true ..).mp facts.2
  rw [facts.1]
  refine List.forall_mem_cons.mpr ⟨.fetch _ _, List.forall_mem_singleton.mpr ?_⟩
  exact .hello 2 _ _ _ msg (Nat.le_refl 2) parsed hello

/-- Behind the lockout the reload makes no difference. -/
theorem reload_transparent_later :
    verdicts asciiEngine strictEnv (after asciiEngine strictEnv (failedOnce ++ [.reload]))
        (knockAt 300002) =
      verdicts asciiEngine strictEnv (after asciiEngine strictEnv failedOnce) (knockAt 300002) := by
  have clear : (after asciiEngine strictEnv failedOnce).lockedOutUntil ≤ 300003 ∧
      recent strictEnv.window 300003 (after asciiEngine strictEnv failedOnce).attempts = [] := by
    decide +kernel
  refine (reload_transparent asciiEngine strictEnv failedOnce (knockAt 300002)
    (knocking_knockAt 300002) fun event member now time => ?_).1
  rcases List.mem_cons.mp member with rfl | last
  · cases time
  · obtain rfl := List.mem_singleton.mp last
    obtain rfl := Option.some.inj time
    exact ⟨clear.1, clear.2⟩

/-- A reload within the lockout lets the next receiver in. -/
theorem lockout_forgotten :
    verdicts asciiEngine strictEnv (after asciiEngine strictEnv failedOnce) (knockAt 2) =
      [none, some .tokenLockedOut] ∧
    verdicts asciiEngine strictEnv (after asciiEngine strictEnv (failedOnce ++ [.reload]))
      (knockAt 2) = [none, some .admitted] := by
  decide +kernel

end Tether.Backend
