import Tether.Plugin.SessionLifetime

/-!
# One session for each token

The registry looks a session up by the text that it was asked for with, and asks the
server for the canonical form of that text. Two spellings of one token are two texts,
so there is one session for each token exactly along the runs in which a token that is
in use is spelled the same way again.

## Main definitions

* `OnePerToken` — no two live sessions ask the server for the same token
* `SameSession` — a get is given the live session of its token
* `SpelledAlike` — a get spells the token of a live session as that session does

## Main results

* `one_per_token_iff` — both of the first hold along a run if and only if its gets are
  spelled alike
* `two_sessions` — one token in two spellings
-/

namespace Tether.Plugin.ReceiveRegistry

open Text Semantics

variable {r : ReceiveRegistry}

/-- The live sessions ask the server for different tokens. -/
def OnePerToken (r : ReceiveRegistry) : Prop :=
  ∀ s ∈ r.sessions, ∀ t ∈ r.sessions, (r.memory s).canon = (r.memory t).canon → s = t

/-- If there is a live session for the token, a get returns no other one. -/
def SameSession (r : ReceiveRegistry) : Event → Prop
  | .get token connects => ∀ s, (r.get token connects).2 = some s →
      ∀ t ∈ r.sessions, (r.memory t).canon = tokenNormalise token 20 → s = t
  | _ => True

/-- A get that could set up a session spells its token as the live sessions do. -/
def SpelledAlike (r : ReceiveRegistry) : Event → Prop
  | .get token connects => connects = true →
      ∀ t ∈ r.sessions, (r.memory t).canon = tokenNormalise token 20 → (r.memory t).token = token
  | _ => True

/-! ### Names of sessions -/

/-- The sessions of the second registry are some of those of the first, and have kept
their names. -/
structure Names (r other : ReceiveRegistry) : Prop where
  listed : ∀ s ∈ other.sessions, s ∈ r.sessions
  token : ∀ s, (other.memory s).token = (r.memory s).token
  canon : ∀ s, (other.memory s).canon = (r.memory s).canon

theorem Names.refl (r : ReceiveRegistry) : r.Names r := ⟨fun _ => id, fun _ => rfl, fun _ => rfl⟩

theorem Names.modify {f : RxSession → RxSession} (keeps : RxSession.KeepsNames f) (s : ℕ) :
    r.Names (r.modify s f) where
  listed := fun _ => id
  token := by
    intro t
    simp only [ReceiveRegistry.modify, Function.update_apply]
    split_ifs with same
    · rw [keeps.token, same]
    · rfl
  canon := by
    intro t
    simp only [ReceiveRegistry.modify, Function.update_apply]
    split_ifs with same
    · rw [keeps.canon, same]
    · rfl

theorem Names.begin {other : ReceiveRegistry} (names : r.Names other) (call : Call) :
    r.Names (begin call other) :=
  ⟨names.listed, names.token, names.canon⟩

theorem names_increment (s t : ℕ) (memory : ℕ → RxSession) :
    (increment s memory t).token = (memory t).token ∧
      (increment s memory t).canon = (memory t).canon := by
  simp only [increment, Function.update_apply]
  split_ifs with same
  · rw [same]
    exact ⟨rfl, rfl⟩
  · exact ⟨rfl, rfl⟩

theorem names_decrement (s t : ℕ) (memory : ℕ → RxSession) :
    (decrement s memory t).token = (memory t).token ∧
      (decrement s memory t).canon = (memory t).canon := by
  simp only [decrement, Function.update_apply]
  split_ifs with same
  · rw [same]
    exact ⟨rfl, rfl⟩
  · exact ⟨rfl, rfl⟩

theorem names_foldl (sessions : List ℕ) (t : ℕ) (memory : ℕ → RxSession) :
    (sessions.foldl (fun memory s => increment s memory) memory t).token = (memory t).token ∧
      (sessions.foldl (fun memory s => increment s memory) memory t).canon =
        (memory t).canon := by
  induction sessions generalizing memory with
  | nil => exact ⟨rfl, rfl⟩
  | cons s rest ih =>
    obtain ⟨token, canon⟩ := names_increment s t memory
    rw [List.foldl_cons, (ih _).1, (ih _).2]
    exact ⟨token, canon⟩

theorem names_proceed (i : ℕ) (call : Call) : r.Names (r.proceed i call).1 := by
  cases call with
  | bump sub =>
    have names (t : ℕ) := names_increment sub.session t r.memory
    exact ⟨fun _ => id, fun t => (names t).1, fun t => (names t).2⟩
  | visit rest => cases rest <;> exact ⟨fun _ => id, fun _ => rfl, fun _ => rfl⟩
  | release s caller =>
    have names (t : ℕ) := names_decrement s t r.memory
    rw [proceed, releaseLocked_eq]
    split_ifs
    · exact ⟨fun _ => List.mem_of_mem_erase, fun t => (names t).1, fun t => (names t).2⟩
    · exact ⟨fun _ => id, fun t => (names t).1, fun t => (names t).2⟩
  | deliver delivery rest => cases rest <;> exact ⟨fun _ => id, fun _ => rfl, fun _ => rfl⟩
  | _ => exact ⟨fun _ => id, fun _ => rfl, fun _ => rfl⟩

/-- Only a get adds a session to the list. -/
theorem names_next {event : Event} (other : ∀ token connects, event ≠ .get token connects) :
    r.Names (r.next event) := by
  have change := r.next_state event
  generalize r.next event = after at change
  cases change with
  | same => exact .refl r
  | init => exact ⟨fun _ none => absurd none List.not_mem_nil, fun _ => rfl, fun _ => rfl⟩
  | get token connects gets => exact absurd gets (other token connects)
  | release s => exact ⟨fun _ => id, fun _ => rfl, fun _ => rfl⟩
  | subscribe s onVideo onAudio onState =>
    have names : r.Names (r.modify s (RxSession.push ⟨r.nextSub, s, onVideo, onAudio, onState⟩)) :=
      .modify (RxSession.keepsNames_push _) s
    exact ⟨names.listed, names.token, names.canon⟩
  | unsubscribe sub =>
    have names : r.Names (r.modify sub.session (RxSession.erase sub)) :=
      .modify (RxSession.keepsNames_erase sub) sub.session
    exact ⟨names.listed, names.token, names.canon⟩
  | enumerate =>
    have names (t : ℕ) := names_foldl r.sessions t r.memory
    exact ⟨fun _ => id, fun t => (names t).1, fun t => (names t).2⟩
  | deliver s keeps delivery => exact .begin (.modify keeps.toKeepsNames s) _
  | resume i call => exact names_proceed i call

/-! ### Gets -/

/-- Every live session asks for the canonical form of the text that it goes by, which
is a token. -/
def Spelled (r : ReceiveRegistry) : Prop :=
  ∀ s ∈ r.sessions, (r.memory s).canon = tokenNormalise (r.memory s).token 20 ∧
    (r.memory s).canon ≠ none

theorem Names.spelled {other : ReceiveRegistry} (names : r.Names other) (spelled : r.Spelled) :
    other.Spelled := by
  intro s listed
  rw [names.canon, names.token]
  exact spelled s (names.listed s listed)

theorem Names.onePerToken {other : ReceiveRegistry} (names : r.Names other)
    (one : r.OnePerToken) : other.OnePerToken := by
  intro s here t there same
  rw [names.canon, names.canon] at same
  exact one s (names.listed s here) t (names.listed t there) same

theorem names_bump (s : ℕ) : r.Names (r.bump s) :=
  ⟨fun _ => id, fun t => (names_increment s t r.memory).1,
    fun t => (names_increment s t r.memory).2⟩

/-- What a new session adds to the list. -/
theorem create_memory (sound : r.ledger.Sound) (session : RxSession) :
    ((r.create session).memory r.allocated = session) ∧
      ∀ s ∈ r.sessions, (r.create session).memory s = r.memory s := by
  refine ⟨Function.update_self .., fun s listed => ?_⟩
  -- what is listed has been issued, and the new session has not
  have older := (sound.living s ((sound.listed_iff s).mp listed)).1
  exact Function.update_of_ne (Nat.ne_of_lt older) _ _

theorem spelled_get (spelled : r.Spelled) (sound : r.ledger.Sound) (token : Bytes)
    (connects : Bool) : (r.get token connects).1.Spelled := by
  have got := got_get r token connects
  revert got
  generalize r.get token connects = result
  rintro (why | ⟨s, listed, -⟩ | ⟨session, -, -, made⟩)
  · exact spelled
  · exact (names_bump s).spelled spelled
  · obtain ⟨text, -, -, canon, some, -⟩ := RxSession.sessionCreateLocked_spec made
    obtain ⟨new, old⟩ := create_memory sound session
    intro s listed
    rcases List.mem_append.mp listed with before | added
    · rw [old s before]
      exact spelled s before
    · obtain rfl := List.mem_singleton.mp added
      rw [new, text]
      exact ⟨canon, some⟩

theorem spelled_after (events : List Event) : (after events).Spelled := by
  induction events using List.reverseRecOn with
  | nil => exact fun s listed => absurd listed List.not_mem_nil
  | append_singleton before event ih =>
    rw [after_concat]
    by_cases get : ∃ token connects, event = .get token connects
    · obtain ⟨token, connects, rfl⟩ := get
      exact spelled_get ih (inOrder_after before).sound token connects
    · apply (names_next _).spelled ih
      rintro token connects rfl
      exact get ⟨token, connects, rfl⟩

/-- What a get returns goes by the token that was asked for. -/
theorem canon_got (spelled : r.Spelled) (sound : r.ledger.Sound) {token : Bytes}
    {connects : Bool} {s : ℕ} (returned : (r.get token connects).2 = some s) :
    ((r.get token connects).1.memory s).canon = tokenNormalise token 20 := by
  have got := got_get r token connects
  revert got returned
  generalize r.get token connects = result
  rintro returned (why | ⟨t, listed, same⟩ | ⟨session, -, -, made⟩)
  · cases returned
  · obtain rfl := Option.some.inj returned
    rw [(names_bump t).canon, (spelled t listed).1, same]
  · obtain rfl := Option.some.inj returned
    rw [(create_memory sound session).1]
    exact (RxSession.sessionCreateLocked_spec made).2.2.2.1

/-- A get keeps one session for each token if it spells its token as the live session
does. -/
theorem onePerToken_get (sound : r.ledger.Sound) (one : r.OnePerToken) {token : Bytes}
    {connects : Bool} (alike : r.SpelledAlike (.get token connects)) :
    (r.get token connects).1.OnePerToken := by
  have got := got_get r token connects
  revert got
  generalize r.get token connects = result
  rintro (why | ⟨s, listed, -⟩ | ⟨session, -, new, made⟩)
  · exact one
  · exact (names_bump s).onePerToken one
  · obtain ⟨-, -, -, canon, -, connects⟩ := RxSession.sessionCreateLocked_spec made
    obtain ⟨added, old⟩ := create_memory sound session
    -- an older session of the token would have been found
    have apart : ∀ s ∈ r.sessions, (r.memory s).canon ≠ session.canon := by
      intro s listed same
      exact new s listed (alike connects s listed (same.trans canon))
    intro s here t there same
    rcases List.mem_append.mp here with s_old | s_new <;>
      rcases List.mem_append.mp there with t_old | t_new
    · rw [old s s_old, old t t_old] at same
      exact one s s_old t t_old same
    · obtain rfl := List.mem_singleton.mp t_new
      rw [old s s_old, added] at same
      exact absurd same (apart s s_old)
    · obtain rfl := List.mem_singleton.mp s_new
      rw [old t t_old, added] at same
      exact absurd same.symm (apart t t_old)
    · rw [List.mem_singleton.mp s_new, List.mem_singleton.mp t_new]

/-- A get whose token is spelled differently breaks it. -/
theorem spelledAlike_of_onePerToken (sane : r.Sane) (sound : r.ledger.Sound)
    (spelled : r.Spelled) (one : r.OnePerToken) {token : Bytes} {connects : Bool}
    (still : (r.get token connects).1.OnePerToken) :
    r.SpelledAlike (.get token connects) := by
  rintro rfl t listed same
  obtain ⟨normal, isToken⟩ := spelled t listed
  have got := got_get r token true
  revert got still
  generalize r.get token true = result
  rintro still (why | ⟨s, s_listed, text⟩ | ⟨session, -, -, made⟩)
  · -- no text, no registry, or no token: there is no live session of this token then
    rcases why with rfl | idle | refused
    · exact absurd same isToken
    · rw [sane.idle idle] at listed
      exact absurd listed List.not_mem_nil
    · rw [RxSession.sessionCreateLocked_eq_none refused] at same
      exact absurd same isToken
  · have together : (r.memory s).canon = (r.memory t).canon := by
      rw [(spelled s s_listed).1, text, same]
    rw [← one s s_listed t listed together, text]
  · obtain ⟨-, -, -, canon, -, -⟩ := RxSession.sessionCreateLocked_spec made
    obtain ⟨added, old⟩ := create_memory sound session
    have older := (sound.living t ((sound.listed_iff t).mp listed)).1
    -- the old session and the new one ask for one token
    have twin : t = r.allocated := by
      apply still t (List.mem_append_left _ listed) r.allocated (by simp [create])
      rw [old t listed, added, canon, same]
    exact absurd twin (Nat.ne_of_lt older)

/-- The live session of the token is still there after a get, beside what the get has
returned. -/
theorem sameSession_of_onePerToken (sound : r.ledger.Sound) (spelled : r.Spelled)
    {token : Bytes} {connects : Bool} (one : (r.get token connects).1.OnePerToken) :
    r.SameSession (.get token connects) := by
  intro s returned t listed same
  have here := (got_alive sound returned).1
  have canon := canon_got spelled sound returned
  have kept : t ∈ (r.get token connects).1.sessions ∧
      ((r.get token connects).1.memory t).canon = (r.memory t).canon := by
    have got := got_get r token connects
    revert got
    generalize r.get token connects = result
    rintro (why | ⟨u, -, -⟩ | ⟨session, -, -, -⟩)
    · exact ⟨listed, rfl⟩
    · exact ⟨listed, (names_bump u).canon t⟩
    · refine ⟨List.mem_append_left _ listed, ?_⟩
      rw [(create_memory sound session).2 t listed]
  apply one s here t kept.1
  rw [canon, kept.2, same]

/-! ### Runs -/

theorem onePerToken_next {before : List Event} (one : (after before).OnePerToken) (event : Event) :
    (after (before ++ [event])).OnePerToken ↔ (after before).SpelledAlike event := by
  obtain ⟨sane, sound, -⟩ := inOrder_after before
  rw [after_concat]
  by_cases get : ∃ token connects, event = .get token connects
  · obtain ⟨token, connects, rfl⟩ := get
    exact ⟨spelledAlike_of_onePerToken sane sound (spelled_after before) one,
      onePerToken_get sound one⟩
  · have other : ∀ token connects, event ≠ .get token connects := by
      rintro token connects rfl
      exact get ⟨token, connects, rfl⟩
    refine iff_of_true ((names_next other).onePerToken one) ?_
    cases event with
    | get token connects => exact absurd rfl (other token connects)
    | _ => trivial

/-- Along a run there is one live session for each token, and every get of the token
returns it, if and only if every get spells its token as the live session does. -/
theorem one_per_token_iff (events : List Event) :
    ((∀ before later, events = before ++ later → (after before).OnePerToken) ∧
        EveryStep (fun before event => (after before).SameSession event) events) ↔
      EveryStep (fun before event => (after before).SpelledAlike event) events := by
  -- a get in another spelling breaks it at once
  have always := always_iff_everyStep (fun before => (after before).OnePerToken)
    (fun s listed => absurd listed List.not_mem_nil)
    (fun before event one => (onePerToken_next one event).mpr) (fun before one => one)
    (fun before event one => (onePerToken_next one event).mp) events
  rw [always]
  constructor
  · exact fun both => both.1
  · intro every
    refine ⟨every, fun before event later split => ?_⟩
    have one := always.mpr every (before ++ [event]) later (by simp [split])
    cases event with
    | get token connects =>
      rw [after_concat] at one
      exact sameSession_of_onePerToken (inOrder_after before).sound (spelled_after before) one
    | _ => trivial

/-! ### One token in two spellings -/

/-- A token as the dialog writes it, and the same token as it may be typed elsewhere. -/
def spelledTwice : List Event :=
  [.init, .get (bytes "TTHR-ABCD-EFGH-2345") true, .get (bytes "tthr-abcd-efgh-2345") true]

/-- Both get a session of their own, for the same token. -/
theorem two_sessions : ¬ (after spelledTwice).OnePerToken := by
  have listed : (after spelledTwice).sessions = [0, 1] := by decide +kernel
  have same : ((after spelledTwice).memory 0).canon = ((after spelledTwice).memory 1).canon := by
    decide +kernel
  intro one
  have equal := one 0 (by simp [listed]) 1 (by simp [listed]) same
  exact absurd equal (by decide)

end Tether.Plugin.ReceiveRegistry
