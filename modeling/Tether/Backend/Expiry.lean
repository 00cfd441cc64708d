import Mathlib.Tactic.Linarith
import Mathlib.Tactic.FieldSimp
import Mathlib.Data.Rat.Cast.Order
import Tether.Backend.Revocation

/-!
# How long a token lives

The first sender hello fixes the expiry, from the minutes that it asks for and the
bound of the deployment. It stays as it is until a revoke, except when JavaScript
takes it for no expiry at all: when it is not a number, or zero.

## Main definitions

* `expiry` — the expiry that a hello leads to
* `Datable` — JavaScript takes it for one, and rounding does not lift it over the bound

## Main results

* `datable_of_whole` — a bound of whole minutes, and minutes that are not negative
* `expiry_next` — an expiry stays
* `lifetime_bound` — behind the bound every receiver is refused
* `nan_never_expires` — an expiry that is not a number is never over
* `endless_token` — a receiver that gets in a day too late
-/

namespace Tether.Backend

open Js Semantics

section

variable (engine : Engine) (env : Env)

/-- The expiry that the hello leads to, if its minutes are made a number. -/
def expiry (d : Room.Delivery) : Option Number :=
  (Room.ttlMinutes engine d.msg).map fun asked =>
    Number.add (.fin (d.now : ℤ)) ((Number.min asked env.maxTokenTtlMinutes).scale 60000)

/-- JavaScript takes the expiry for one, and rounding does not lift it over the bound. -/
structure Datable (bound : ℚ) (d : Room.Delivery) : Prop where
  date : ∀ e ∈ expiry engine env d, e.isFalsy = false
  within : ∀ e ∈ expiry engine env d,
    Number.gt e (.fin (((d.now : ℤ) : ℚ) + bound * 60000)) = false

end

variable {engine : Engine} {env : Env}

/-! ### The expiry -/

/-- An expiry that is a date is over behind the bound. -/
theorem over_of_datable {bound : ℚ} {d : Room.Delivery} (datable : Datable engine env bound d)
    {e : Number} (dated : expiry engine env d = some e) {now : ℤ}
    (late : ((d.now : ℤ) : ℚ) + bound * 60000 < now) : Number.gt (.fin now) e := by
  have date := datable.date e dated
  have within := datable.within e dated
  cases e with
  | nan => cases date
  | posInf => cases within
  | negInf => rfl
  | fin value =>
    simp only [Number.gt, decide_eq_false_iff_not, not_lt] at within
    exact decide_eq_true (within.trans_lt late)

/-- Within a bound, the minutes granted are not a number, without bound below, or at most the
bound. -/
theorem min_cases (asked : Number) (bound : ℚ) :
    Number.min asked (.fin bound) = .nan ∨ Number.min asked (.fin bound) = .negInf ∨
      ∃ minutes ≤ bound, Number.min asked (.fin bound) = .fin minutes := by
  cases asked with
  | nan => exact .inl rfl
  | negInf => exact .inr (.inl rfl)
  | posInf => exact .inr (.inr ⟨bound, le_rfl, rfl⟩)
  | fin minutes =>
    right
    right
    rw [Number.min]
    split_ifs with less
    · exact ⟨minutes, less, rfl⟩
    · exact ⟨bound, le_rfl, rfl⟩

section Whole

variable {bound : ℕ} (limit : env.maxTokenTtlMinutes = .fin bound) {d : Room.Delivery}
  (fits : d.now.val.toNat + bound * 60000 < 2 ^ 53)

include limit fits

/-- If the bound is a whole number of minutes, rounding never passes it. -/
theorem within_of_whole : ∀ e ∈ expiry engine env d,
    Number.gt e (.fin (((d.now : ℤ) : ℚ) + bound * 60000)) = false := by
  have clock : ((d.now : ℤ) : ℚ) = (d.now.val.toNat : ℚ) := by
    exact_mod_cast (Int.toNat_of_nonneg d.now.property.le).symm
  intro e dated
  obtain ⟨asked, -, rfl⟩ := Option.map_eq_some_iff.mp dated
  rw [limit]
  rcases min_cases asked bound with nan | below | ⟨minutes, atMost, granted⟩
  · rw [nan]
    rfl
  · rw [below]
    rfl
  · have product : minutes * 60000 ≤ ((bound * 60000 : ℕ) : ℚ) := by
      push_cast
      linarith
    rw [granted, Number.scale, clock]
    rcases Number.rounded_le (by omega) product with below | ⟨span, short, same⟩
    · rw [below]
      rfl
    · have sum : (d.now.val.toNat : ℚ) + span ≤ ((d.now.val.toNat + bound * 60000 : ℕ) : ℚ) := by
        push_cast at short ⊢
        linarith
      rw [same, Number.add]
      rcases Number.rounded_le fits sum with below | ⟨e, early, expires⟩
      · rw [below]
        rfl
      · rw [expires, Number.gt, decide_eq_false_iff_not, not_lt]
        push_cast at early
        exact early

/-- If the minutes asked for are not negative, the expiry is a date. -/
theorem datable_of_whole {asked : Number} (asks : Room.ttlMinutes engine d.msg = some asked)
    (number : asked ≠ .nan) (natural : Number.gt (.fin 0) asked = false) :
    Datable engine env bound d := by
  refine ⟨fun e dated => ?_, within_of_whole limit fits⟩
  have now : ((1 : ℕ) : ℚ) ≤ (d.now : ℤ) := by exact_mod_cast d.now.property
  obtain ⟨_, asks', rfl⟩ := Option.map_eq_some_iff.mp dated
  obtain rfl := Option.some.inj (asks.symm.trans asks')
  obtain ⟨minutes, nonneg, granted⟩ : ∃ minutes, 0 ≤ minutes ∧
      Number.min asked (.fin bound) = .fin minutes := by
    have bounded : (0 : ℚ) ≤ bound := Nat.cast_nonneg bound
    cases asked with
    | nan => exact absurd rfl number
    | negInf => cases natural
    | posInf => exact ⟨bound, bounded, rfl⟩
    | fin minutes =>
      have nonneg := not_lt.mp (of_decide_eq_false natural)
      rw [Number.min]
      split_ifs
      · exact ⟨minutes, nonneg, rfl⟩
      · exact ⟨bound, bounded, rfl⟩
  have product : ((0 : ℕ) : ℚ) ≤ minutes * 60000 := by
    push_cast
    linarith
  rw [limit, granted, Number.scale]
  rcases Number.le_rounded (by decide) product with endless | ⟨span, long, same⟩
  · rw [endless]
    rfl
  · have sum : ((1 : ℕ) : ℚ) ≤ (d.now : ℤ) + span := by
      push_cast at now long ⊢
      linarith
    rw [same, Number.add]
    rcases Number.le_rounded (by decide) sum with endless | ⟨e, late, expires⟩
    · rw [endless]
      rfl
    · rw [expires, Number.isFalsy, decide_eq_false_iff_not]
      rintro rfl
      push_cast at late
      linarith

end Whole

/-! ### Steps -/

/-- What memory and storage hold as the expiry. -/
structure Expires (room : Room) (e : Number) : Prop where
  memory : room.expiresAt = e
  storage : room.storage.expiresAt = some e

/-- The first sender hello sets the expiry. -/
theorem expires_of_arming {room : Room} {event : Event} {d : Room.Delivery}
    (received : room.received? engine event = some d) (hello : isSenderHello d.msg)
    (unarmed : room.expiresAt.isFalsy) :
    ∃ e, expiry engine env d = some e ∧ Expires (room.next engine env event) e := by
  have reads := throws_of_received engine received
  rw [Room.next, handle_of_senderHello engine env received hello, Room.armed, if_pos unarmed,
    Room.arm, expiry]
  cases asks : Room.ttlMinutes engine d.msg with
  | none =>
    -- the hello would have thrown
    rw [Room.throws, hello, unarmed, asks] at reads
    cases reads
  | some asked => exact ⟨_, rfl, rfl, rfl⟩

/-- The expiry stays, if a sender that says hello again finds it set and nobody
revokes the token. -/
theorem expiry_next {room : Room} {event : Event} {e : Number} (expires : Expires room e)
    (kept : e.isFalsy = false ∨
      ∀ d, room.received? engine event = some d → ¬ isSenderHello d.msg)
    (unrevoked : ∀ d peer, room.received? engine event = some d → Room.isType "revoke" d.msg →
      room.findPeerByWs d.ws = some peer → peer.role ≠ .sender) :
    Expires (room.next engine env event) e := by
  obtain ⟨memory, storage⟩ := expires
  rw [Room.next]
  have step := outcome engine env room event
  generalize room.handle engine env event = result at step
  cases step with
  | fetch roomHint tokenParam =>
    cases roomHint with
    | none => exact ⟨memory, storage⟩
    | some hint =>
      rw [Room.fetch]
      split_ifs
      · exact ⟨memory, storage⟩
      · exact ⟨memory, storage⟩
  | senderHello d received hello =>
    rcases kept with truthy | silent
    · -- an expiry that is set is not set again
      rw [Room.armed, if_neg (by rw [memory, truthy]; decide)]
      exact ⟨memory, storage⟩
    · exact absurd hello (silent d received)
  | receiverHello d received hello =>
    rcases receiverHello_state engine env room d.ws d.tokenParam d.now d.uuid d.msg with
      ⟨-, state⟩ | ⟨_, _, _, -, state⟩
    · rw [state]
      exact ⟨memory, storage⟩
    · rw [state]
      exact ⟨memory, storage⟩
  | accept d received type peer source =>
    rcases handleAccept_cases room peer d.msg with ignored | ⟨r, -, -, -, -, state⟩
    · rw [ignored]
      exact ⟨memory, storage⟩
    · rw [state]
      exact ⟨memory, storage⟩
  | reject d received type peer source =>
    rcases handleReject_cases room peer d.msg with ignored | ⟨r, -, -, state, -⟩
    · rw [ignored]
      exact ⟨memory, storage⟩
    · rw [state]
      exact ⟨memory, storage⟩
  | revoke d received type peer source =>
    -- only a sender revokes
    rw [handleRevoke_of_receiver room (unrevoked d peer received type source)]
    exact ⟨memory, storage⟩
  | relay => exact ⟨memory, storage⟩
  | ignored => exact ⟨memory, storage⟩
  | closed ws =>
    rcases onClose_cases { room with listeners := room.listeners.filter (·.1 ≠ ws) } ws with
      ⟨ignored, -⟩ | ⟨peer, -, state, -⟩ | ⟨peer, closed, -, -, state, -, -⟩
    · rw [ignored]
      exact ⟨memory, storage⟩
    · rw [state]
      exact ⟨memory, storage⟩
    · rw [state]
      exact ⟨memory, storage⟩
  | reload => exact ⟨by rw [Room.load, storage]; rfl, storage⟩

/-! ### Runs -/

section Run

variable {before : List Event} {first : Event} {d : Room.Delivery} {later : List Event}

/-- Before the first sender hello there is no expiry. -/
theorem unarmed_before
    (quiet : EveryStep (fun before event => ¬ ArmsRoom engine env before event) before) :
    (after engine env before).expiresAt = .fin 0 ∧
      (after engine env before).storage.expiresAt = none := by
  induction before using history_induction with
  | base => exact ⟨rfl, rfl⟩
  | step before event ih =>
    obtain ⟨earlier, last⟩ := everyStep_concat.mp quiet
    obtain ⟨gone, stored⟩ := ih earlier
    rw [after_concat]
    exact expiresAt_next gone stored fun d received hello => last ⟨d, received, hello⟩

section First

variable (quiet : EveryStep (fun before event => ¬ ArmsRoom engine env before event) before)
  (received : (after engine env before).received? engine first = some d)
  (hello : isSenderHello d.msg)
  (unrevoked : EveryStep (fun before event => ¬ Revokes engine env before event)
    (before ++ first :: later))

include quiet received hello unrevoked

/-- What the first sender hello sets stays until a revoke, if later sender hellos
find it set or do not come. -/
theorem expires_since
    (kept : (∀ e ∈ expiry engine env d, e.isFalsy = false) ∨ EveryStep (fun since event =>
      ¬ ArmsRoom engine env (before ++ first :: since) event) later) :
    ∃ e, expiry engine env d = some e ∧
      Expires (after engine env (before ++ first :: later)) e := by
  induction later using List.reverseRecOn with
  | nil =>
    rw [after_concat]
    refine expires_of_arming received hello ?_
    rw [(unarmed_before quiet).1]
    rfl
  | append_singleton later event ih =>
    rw [← List.cons_append, ← List.append_assoc] at unrevoked ⊢
    obtain ⟨unrevokedBefore, unrevokedNow⟩ := everyStep_concat.mp unrevoked
    obtain ⟨e, dated, earlier⟩ :=
      ih unrevokedBefore (kept.imp_right fun silent => silent.of_append)
    rw [after_concat]
    refine ⟨e, dated, expiry_next earlier ?_ fun other peer received type found sender =>
      unrevokedNow ⟨other, peer, received, type, found, sender⟩⟩
    rcases kept with dates | silent
    · exact .inl (dates e dated)
    · exact .inr fun other received hello =>
        (everyStep_concat.mp silent).2 ⟨other, received, hello⟩

/-- More than the bound of the deployment after the first sender hello, every
receiver hello is refused as invalid and adds no record, whatever has happened in
between but a revoke. -/
theorem lifetime_bound {bound : ℚ} (datable : Datable engine env bound d) {knock : Event}
    {d' : Room.Delivery}
    (knocks : (after engine env (before ++ first :: later)).received? engine knock = some d')
    (receiver : isReceiverHello d'.msg)
    (late : ((d.now : ℤ) : ℚ) + bound * 60000 < (d'.now : ℤ)) :
    ¬ Admitted engine (after engine env (before ++ first :: later)) d'.tokenParam d'.now d'.msg ∧
    (after engine env (before ++ first :: later ++ [knock])).peers =
      (after engine env (before ++ first :: later)).peers ∧
    ((Room.claimed engine d'.tokenParam d'.msg).isSome →
      (after engine env (before ++ first :: later)).IsOpen d'.ws →
      .send d'.ws tokenInvalid ∈ effectsAt engine env (before ++ first :: later) knock) := by
  obtain ⟨e, dated, expires⟩ := expires_since quiet received hello unrevoked (.inl datable.date)
  have gone : Number.gt (.fin (d'.now : ℤ))
      (after engine env (before ++ first :: later)).expiresAt := by
    rw [expires.memory]
    exact over_of_datable datable dated late
  constructor
  · rintro ⟨token, claims, same, inTime, -⟩
    exact inTime gone
  · rw [after_concat, effectsAt]
    refine refused_of_invalid knocks receiver fun text => ?_
    obtain ⟨token, claims⟩ := Option.isSome_iff_exists.mp text
    by_cases different : (after engine env (before ++ first :: later)).noToken ∨
        some token ≠ (after engine env (before ++ first :: later)).token
    · exact .inl ⟨token, claims, different⟩
    · exact .inr ⟨token, claims, different, gone⟩

/-- If the first sender hello asks for something that is no number, then until a
revoke or another sender hello no receiver comes too late. -/
theorem nan_never_expires (nan : Room.ttlMinutes engine d.msg = some .nan)
    (alone : EveryStep (fun since event =>
      ¬ ArmsRoom engine env (before ++ first :: since) event) later)
    (tokenParam : Option Str) (now : ℤ) (msg : Value) :
    ¬ Expired engine (after engine env (before ++ first :: later)) tokenParam now msg := by
  obtain ⟨e, dated, expires⟩ := expires_since quiet received hello unrevoked (.inr alone)
  rintro ⟨token, -, -, late⟩
  rw [expiry, nan, Option.map_some] at dated
  obtain rfl := Option.some.inj dated
  rw [expires.memory] at late
  cases late

end First

end Run

/-! ### Samples -/

instance (engine : Engine) (env : Env) (before : List Event) (event : Event) :
    Decidable (ArmsRoom engine env before event) :=
  decidable_of_iff (((after engine env before).received? engine event).any fun d =>
    isSenderHello d.msg) (by simp [ArmsRoom, Option.any_eq_true])

instance (engine : Engine) (env : Env) (before : List Event) (event : Event) :
    Decidable (Revokes engine env before event) :=
  decidable_of_iff (((after engine env before).received? engine event).any fun d =>
    Room.isType "revoke" d.msg &&
      ((after engine env before).findPeerByWs d.ws).any fun peer => peer.role = .sender)
    (by simp [Revokes, Option.any_eq_true])

/-- A sender hello that asks for a time to live. -/
def helloFor (minutes : Value) : Event :=
  arrival 0 0 0 (message "hello" [("role", .str (str "sender")), ("ttl_minutes", minutes)])

/-- A receiver says hello on another connection, two days later. -/
def lateKnock : Event := arrival 1 172800000 1 (helloAs "receiver")

/-- A sender asks for a time to live, and a receiver comes two days later. -/
structure Late (minutes : Value) (d d' : Room.Delivery) : Prop where
  unarmed : EveryStep (fun before event => ¬ ArmsRoom asciiEngine .deployed before event) [connect]
  opened : (after asciiEngine .deployed [connect]).received? asciiEngine (helloFor minutes) = some d
  sender : isSenderHello d.msg
  unrevoked : EveryStep (fun before event => ¬ Revokes asciiEngine .deployed before event)
    ([connect] ++ helloFor minutes :: [connect])
  knocks : (after asciiEngine .deployed ([connect] ++ helloFor minutes :: [connect])).received?
    asciiEngine lateKnock = some d'
  receiver : isReceiverHello d'.msg
  late : ((d.now : ℤ) : ℚ) + 1440 * 60000 < (d'.now : ℤ)

/-- What is evaluated of such a run. -/
private theorem late_of_facts (minutes : Value) (holds : Room.Delivery → Bool)
    (facts : EveryStep (fun before event => ¬ ArmsRoom asciiEngine .deployed before event)
        [connect] ∧
      EveryStep (fun before event => ¬ Revokes asciiEngine .deployed before event)
        ([connect] ++ helloFor minutes :: [connect]) ∧
      ((after asciiEngine .deployed [connect]).received? asciiEngine (helloFor minutes)).any
        fun d => ((after asciiEngine .deployed ([connect] ++ helloFor minutes :: [connect])).received?
          asciiEngine lateKnock).any fun d' =>
            isSenderHello d.msg && isReceiverHello d'.msg && holds d &&
              decide (((d.now : ℤ) : ℚ) + 1440 * 60000 < (d'.now : ℤ))) :
    ∃ d d', Late minutes d d' ∧ holds d := by
  obtain ⟨unarmed, unrevoked, both⟩ := facts
  obtain ⟨d, opened, second⟩ := (Option.any_eq_true ..).mp both
  obtain ⟨d', knocks, shape⟩ := (Option.any_eq_true ..).mp second
  simp only [Bool.and_eq_true, decide_eq_true_eq] at shape
  obtain ⟨⟨⟨sender, receiver⟩, rest⟩, late⟩ := shape
  exact ⟨d, d', ⟨unarmed, opened, sender, unrevoked, knocks, receiver, late⟩, rest⟩

/-- A sender that asks for a week is granted a day, and the receiver is refused. -/
theorem lifetime_bound_week : ∃ d d', Late (.num (decimal ['1', '0', '0', '8', '0'])) d d' ∧
    ¬ Admitted asciiEngine (after asciiEngine .deployed
      ([connect] ++ helloFor (.num (decimal ['1', '0', '0', '8', '0'])) :: [connect]))
      d'.tokenParam d'.now d'.msg := by
  obtain ⟨d, d', late, asks⟩ := late_of_facts (.num (decimal ['1', '0', '0', '8', '0']))
    (fun d => Room.ttlMinutes asciiEngine d.msg = some (.fin 10080) && d.now = ⟨1, by decide⟩)
    (by decide +kernel)
  simp only [Bool.and_eq_true, decide_eq_true_eq] at asks
  have datable : Datable asciiEngine .deployed (1440 : ℕ) d :=
    datable_of_whole rfl (by rw [asks.2]; decide) asks.1 (by decide) (by decide)
  exact ⟨d, d', late, (lifetime_bound late.unarmed late.opened late.sender late.unrevoked datable
    late.knocks late.receiver late.late).1⟩

/-- A sender that asks for a text gets a token that lets the receiver in two days
later. -/
theorem endless_token : ∃ d d', Late (.str (str "abc")) d d' ∧
    (after asciiEngine .deployed ([connect] ++ helloFor (.str (str "abc")) :: [connect] ++
      [lateKnock])).peers.any (·.role = .receiver) := by
  exact late_of_facts (.str (str "abc")) (fun _ =>
    (after asciiEngine .deployed ([connect] ++ helloFor (.str (str "abc")) :: [connect] ++
      [lateKnock])).peers.any (·.role = .receiver)) (by decide +kernel)

end Tether.Backend
