import Tether.Backend.Step

/-!
# Revoked tokens

A revoke forgets the token and the expiry. The next request for the room brings
the token back, and the next sender hello the expiry; until both have happened,
every receiver hello is turned down.

## Main definitions

* `Room.lease` — the token and the expiry, in memory and in storage
* `LeaseChange` — how an event changes them
* `NamesRoom`, `ArmsRoom` — the two kinds of event that undo a revoke

## Main results

* `lease_next` — the five ways in which the lease changes
* `revoked_stays_dead` — no receiver gets in before both kinds of event
-/

namespace Tether.Backend

open Js Semantics

/-- The token and the expiry, with what storage holds. -/
def Room.lease (room : Room) : Option Str × Number × Storage :=
  (room.token, room.expiresAt, room.storage)

/-- A request that carries a name for the room. -/
def NamesRoom : Event → Prop
  | .fetch (some hint) _ => hint ≠ []
  | _ => False

section

variable (engine : Engine) (env : Env)

/-- How an event changes the lease. -/
inductive LeaseChange (room : Room) (event : Event) : Option Str × Number × Storage → Prop
  | kept : LeaseChange room event room.lease
  | adopted (names : NamesRoom event) (hint : Str) :
    LeaseChange room event
      (some hint, room.expiresAt, { room.storage with token := some hint })
  | armed (d : Room.Delivery) (received : room.received? engine event = some d)
    (hello : isSenderHello d.msg) (expiresAt : Number) (reusable : Bool) :
    LeaseChange room event
      (room.token, expiresAt,
        { token := if room.noToken then room.storage.token else room.token
          expiresAt := some expiresAt
          reusable := some reusable })
  | revoked :
    LeaseChange room event
      (none, .fin 0, { room.storage with token := none, expiresAt := none })
  | reloaded (reload : event = .reload) :
    LeaseChange room event
      (room.storage.token, room.storage.expiresAt.getD (.fin 0), room.storage)

theorem lease_next (room : Room) (event : Event) :
    LeaseChange engine room event (room.next engine env event).lease := by
  have change := next_state engine env room event
  generalize room.next engine env event = next at change
  cases change with
  | fetch roomHint tokenParam request =>
    cases roomHint with
    | none => exact .kept
    | some hint =>
      simp only [Room.fetch]
      split_ifs with adopts
      · exact .adopted (request ▸ adopts.1) hint
      · exact .kept
  | senderHello d received hello =>
    rcases armed_cases engine env room d.now d.msg with same | ⟨_, _, armed⟩
    · rw [same]
      exact .kept
    · rw [armed]
      exact .armed d received hello _ _
  | receiverHello d received hello =>
    rcases receiverHello_state engine env room d.ws d.tokenParam d.now d.uuid d.msg with
      ⟨-, state⟩ | ⟨_, _, _, -, state⟩
    · rw [state]
      exact .kept
    · rw [state]
      exact .kept
  | revoked => exact .revoked
  | records => exact .kept
  | reload reload => exact .reloaded reload

/-- A delivered hello of a sender. -/
def ArmsRoom (before : List Event) (event : Event) : Prop :=
  ∃ d, (after engine env before).received? engine event = some d ∧ isSenderHello d.msg

/-- The event is a revoke that a sender sends. -/
def Revokes (before : List Event) (event : Event) : Prop :=
  ∃ d peer, (after engine env before).received? engine event = some d ∧
    Room.isType "revoke" d.msg ∧
    (after engine env before).findPeerByWs d.ws = some peer ∧ peer.role = .sender

end

section Revocation

variable {engine : Engine} {env : Env}

/-- A revoke leaves neither a token nor an expiry, in memory or in storage. -/
theorem lease_of_revokes {before : List Event} {event : Event}
    (revokes : Revokes engine env before event) :
    (after engine env (before ++ [event])).lease =
      (none, .fin 0, { (after engine env before).storage with token := none, expiresAt := none }) := by
  obtain ⟨d, peer, received, type, found, sender⟩ := revokes
  have other (name : String) (different : str "revoke" ≠ str name) :
      ¬ Room.isType name d.msg := type_ne type different
  rw [after_concat, Room.next, handle_of_received engine env received, Room.dispatch, found,
    if_neg (other "hello" (by decide))]
  simp only [if_neg (other "accept" (by decide)), if_neg (other "reject" (by decide)), if_pos type]
  obtain ⟨deleted, -, state, -⟩ := handleRevoke_eq (after engine env before) sender
  rw [state]
  rfl

/-- Only a request that names the room brings a token back. -/
theorem token_next {room : Room} {event : Event} (gone : room.token = none)
    (stored : room.storage.token = none) (nameless : ¬ NamesRoom event) :
    (room.next engine env event).token = none ∧
      (room.next engine env event).storage.token = none := by
  have change := lease_next engine env room event
  change (room.next engine env event).lease.1 = none ∧
    (room.next engine env event).lease.2.2.token = none
  generalize (room.next engine env event).lease = lease at change
  cases change with
  | kept => exact ⟨gone, stored⟩
  | adopted names => exact absurd names nameless
  | armed =>
    refine ⟨gone, ?_⟩
    split_ifs
    · exact stored
    · exact gone
  | revoked => exact ⟨rfl, rfl⟩
  | reloaded => exact ⟨stored, stored⟩

/-- Only a sender hello brings an expiry back. -/
theorem expiresAt_next {room : Room} {event : Event} (gone : room.expiresAt = .fin 0)
    (stored : room.storage.expiresAt = none)
    (noSender : ∀ d, room.received? engine event = some d → ¬ isSenderHello d.msg) :
    (room.next engine env event).expiresAt = .fin 0 ∧
      (room.next engine env event).storage.expiresAt = none := by
  have change := lease_next engine env room event
  change (room.next engine env event).lease.2.1 = .fin 0 ∧
    (room.next engine env event).lease.2.2.expiresAt = none
  generalize (room.next engine env event).lease = lease at change
  cases change with
  | kept => exact ⟨gone, stored⟩
  | adopted => exact ⟨gone, stored⟩
  | armed d received hello => exact absurd hello (noSender d received)
  | revoked => exact ⟨rfl, rfl⟩
  | reloaded => exact ⟨by rw [stored]; rfl, stored⟩

/-- Without a token, and without an expiry, every receiver hello that claims a
text is refused as invalid. -/
theorem invalid_of_dead {room : Room} (dead : room.token = none ∨ room.expiresAt = .fin 0)
    {tokenParam : Option Str} (now : Millis) {msg : Value}
    (text : (Room.claimed engine tokenParam msg).isSome) :
    WrongToken engine room tokenParam msg ∨ Expired engine room tokenParam now msg := by
  obtain ⟨token, claims⟩ := Option.isSome_iff_exists.mp text
  by_cases different : room.noToken ∨ some token ≠ room.token
  · exact .inl ⟨token, claims, different⟩
  · right
    refine ⟨token, claims, different, ?_⟩
    rcases dead with gone | expired
    · exact absurd (.inl (by simp [Room.noToken, gone])) different
    · rw [expired]
      simpa [Number.gt] using Rat.intCast_pos.mpr now.property

/-- A receiver hello that is refused as invalid adds no record, and is answered. -/
theorem refused_of_invalid {room : Room} {event : Event} {d : Room.Delivery}
    (received : room.received? engine event = some d) (hello : isReceiverHello d.msg)
    (invalid : (Room.claimed engine d.tokenParam d.msg).isSome →
      WrongToken engine room d.tokenParam d.msg ∨ Expired engine room d.tokenParam d.now d.msg) :
    (room.next engine env event).peers = room.peers ∧
    ((Room.claimed engine d.tokenParam d.msg).isSome → room.IsOpen d.ws →
      .send d.ws tokenInvalid ∈ (room.handle engine env event).2) := by
  rw [Room.next, handle_of_receiverHello engine env received hello]
  have knocks := receiverHello_outcome engine env room d.ws d.tokenParam d.now d.uuid d.msg
  generalize room.receiverHello engine env d.ws d.tokenParam d.now d.uuid d.msg = result at knocks
  cases knocks with
  | admitted passes effects =>
    obtain ⟨right, inTime⟩ := passes.not_invalid
    rcases invalid passes.text with wrong | expired
    · exact absurd wrong right
    · exact absurd expired inTime
  | wrongToken =>
    obtain ⟨attempts, lockedOutUntil, recorded⟩ := Room.recordAttempt_eq env room d.now
    obtain ⟨closed, state, -⟩ := Room.sendAndClose_eq (room.recordAttempt env d.now) d.ws
      tokenInvalid 1008 "invalid token"
    refine ⟨by rw [state, recorded], fun _ isOpen => ?_⟩
    apply Room.send_mem_sendAndClose
    -- a recorded attempt closes no socket
    rw [recorded]
    exact isOpen
  | expired =>
    obtain ⟨closed, state, -⟩ := Room.sendAndClose_eq room d.ws tokenInvalid 1008 "expired"
    exact ⟨by rw [state], fun _ isOpen => Room.send_mem_sendAndClose isOpen _ _ _⟩
  | lockedOut text right inTime =>
    rcases invalid text with wrong | expired
    · exact absurd wrong right
    · exact absurd expired inTime
  | noText nothing => exact ⟨rfl, fun text => by simp [nothing] at text⟩

/-- The lease since a revoke: no token without a request that names the room, no
expiry without a sender hello. -/
theorem lease_since_revoke {before : List Event} {revoke : Event}
    (revokes : Revokes engine env before revoke) (rest : List Event) :
    ((∀ event ∈ rest, ¬ NamesRoom event) →
      (after engine env (before ++ revoke :: rest)).token = none ∧
      (after engine env (before ++ revoke :: rest)).storage.token = none) ∧
    (EveryStep (fun since event => ¬ ArmsRoom engine env (before ++ revoke :: since) event) rest →
      (after engine env (before ++ revoke :: rest)).expiresAt = .fin 0 ∧
      (after engine env (before ++ revoke :: rest)).storage.expiresAt = none) := by
  induction rest using List.reverseRecOn with
  | nil =>
    have lease := lease_of_revokes revokes
    simp only [Room.lease, Prod.mk.injEq] at lease
    obtain ⟨token, expiresAt, storage⟩ := lease
    exact ⟨fun _ => ⟨token, by rw [storage]⟩, fun _ => ⟨expiresAt, by rw [storage]⟩⟩
  | append_singleton rest event ih =>
    rw [← List.cons_append, ← List.append_assoc, after_concat]
    constructor
    · intro nameless
      obtain ⟨gone, stored⟩ := ih.1 fun other member => nameless other (by simp [member])
      exact token_next gone stored (nameless event (by simp))
    · intro unarmed
      obtain ⟨earlier, last⟩ := everyStep_concat.mp unarmed
      obtain ⟨gone, stored⟩ := ih.2 earlier
      exact expiresAt_next gone stored fun d received hello => last ⟨d, received, hello⟩

/-- In every run, as long as since a revoke no request has named the room or no
sender has said hello, a receiver hello adds no record, and one that claims a
text as its token is answered that the token is invalid. -/
theorem revoked_stays_dead (before : List Event) (revoke : Event) (rest : List Event)
    (revokes : Revokes engine env before revoke)
    (notReopened : (∀ event ∈ rest, ¬ NamesRoom event) ∨
      EveryStep (fun since event => ¬ ArmsRoom engine env (before ++ revoke :: since) event) rest)
    (knock : Event) (d : Room.Delivery)
    (received : (after engine env (before ++ revoke :: rest)).received? engine knock = some d)
    (hello : isReceiverHello d.msg) :
    (after engine env (before ++ revoke :: rest ++ [knock])).peers =
      (after engine env (before ++ revoke :: rest)).peers ∧
    ((Room.claimed engine d.tokenParam d.msg).isSome →
      (after engine env (before ++ revoke :: rest)).IsOpen d.ws →
      .send d.ws tokenInvalid ∈ effectsAt engine env (before ++ revoke :: rest) knock) := by
  have dead : (after engine env (before ++ revoke :: rest)).token = none ∨
      (after engine env (before ++ revoke :: rest)).expiresAt = .fin 0 := by
    rcases notReopened with nameless | unarmed
    · exact .inl ((lease_since_revoke revokes rest).1 nameless).1
    · exact .inr ((lease_since_revoke revokes rest).2 unarmed).1
  rw [after_concat, effectsAt]
  exact refused_of_invalid received hello fun text => invalid_of_dead dead d.now text

end Revocation

/-! ### A token that comes back -/

/-- A sender opens the room. -/
def opening : List Event := [connect, arrival 0 0 0 (helloAs "sender")]

/-- Then it revokes the token. -/
def revoked : List Event := opening ++ [arrival 0 1 1 (message "revoke" [])]

/-- Two connections later, one of them has said hello as a sender. -/
def returning : List Event := [connect, connect, arrival 1 2 2 (helloAs "sender")]

private theorem revoked_revokes :
    Revokes asciiEngine .deployed opening (arrival 0 1 1 (message "revoke" [])) := by
  have facts : (((after asciiEngine .deployed opening).received? asciiEngine
      (arrival 0 1 1 (message "revoke" []))).any
        fun d => d.ws = 0 && Room.isType "revoke" d.msg) = true := by
    decide +kernel
  have sender : ((after asciiEngine .deployed opening).findPeerByWs 0).any
      (fun p => p.role = .sender) = true := by
    decide +kernel
  obtain ⟨d, received, shape⟩ := (Option.any_eq_true ..).mp facts
  obtain ⟨peer, found, role⟩ := (Option.any_eq_true ..).mp sender
  simp only [Bool.and_eq_true, decide_eq_true_eq] at shape role
  exact ⟨d, peer, received, shape.2, by rw [shape.1, found], role⟩

/-- Nobody has connected since the revoke: a receiver hello of the old sender's
socket is answered that the token is invalid. -/
theorem revoked_stays_dead_sample :
    ∃ d, (after asciiEngine .deployed revoked).received? asciiEngine
        (arrival 0 2 2 (helloAs "receiver")) = some d ∧
      .send d.ws tokenInvalid ∈
        effectsAt asciiEngine .deployed revoked (arrival 0 2 2 (helloAs "receiver")) := by
  have facts : (((after asciiEngine .deployed revoked).received? asciiEngine
      (arrival 0 2 2 (helloAs "receiver"))).any fun d => d.ws = 0 && (isReceiverHello d.msg &&
        (Room.claimed asciiEngine d.tokenParam d.msg).isSome)) = true := by
    decide +kernel
  obtain ⟨d, received, shape⟩ := (Option.any_eq_true ..).mp facts
  simp only [Bool.and_eq_true, decide_eq_true_eq] at shape
  have isOpen : (after asciiEngine .deployed revoked).IsOpen d.ws := by
    rw [shape.1]
    decide +kernel
  have dead := revoked_stays_dead opening _ [] revoked_revokes (.inl (by simp))
    (arrival 0 2 2 (helloAs "receiver")) d received shape.2.1
  exact ⟨d, received, dead.2 shape.2.2 isOpen⟩

/-- The next receiver gets in with the token that was revoked. -/
theorem revoked_token_admits :
    Revokes asciiEngine .deployed opening (arrival 0 1 1 (message "revoke" [])) ∧
    ((after asciiEngine .deployed (revoked ++ returning)).peers.any (·.ws = 2)) = false ∧
    ((after asciiEngine .deployed
      (revoked ++ returning ++ [arrival 2 3 3 (helloAs "receiver")])).peers.any
        fun p => p.role = .receiver && p.ws = 2) = true := by
  refine ⟨revoked_revokes, ?_, ?_⟩ <;> decide +kernel

end Tether.Backend
