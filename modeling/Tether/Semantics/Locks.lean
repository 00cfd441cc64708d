import Mathlib.Data.List.Basic
import Mathlib.Data.List.Nodup
import Mathlib.Tactic.Common
import Tether.Semantics.Run

/-!
# Threads and locks

Threads take locks and give them back. A thread that wants a lock which somebody has does not
get on, its own locks included. If every thread takes its locks in the order of a rank, there is
always one that gets on.

## Main definitions

* `LockAct`, `Worker` — what a thread does, and a thread
* `Worker.turn` — a schedule gives the turn to one thread after another
* `Worker.Ordered` — a thread that takes its locks in the order of their ranks
* `Worker.Above` — a part of a thread that does so with locks of some rank on
* `Worker.within` — a part that is done with a lock

## Main results

* `Sound.exists_canMove` — if a thread has something to do, one of them gets on
* `Sound.run` — no lock is ever had twice, and all threads stay in order
* `Sound.exists_finish` — everything that has been started can be brought to its end
-/

namespace Semantics

inductive LockAct (L : Type*)
  | take (lock : L)
  | give (lock : L)

/-- A thread: the locks it has, and what it will do. -/
structure Worker (L : Type*) where
  held : List L
  todo : List (LockAct L)

namespace Worker

variable {L : Type*}

/-- A thread before it has done anything. -/
def start (todo : List (LockAct L)) : Worker L := ⟨[], todo⟩

variable [DecidableEq L]

/-- The thread can do its next act. -/
def canMove (threads : List (Worker L)) (t : Worker L) : Bool :=
  match t.todo with
  | [] => false
  | .take lock :: _ => !threads.any (lock ∈ ·.held)
  | .give _ :: _ => true

/-- The thread after its next act. -/
def moved (t : Worker L) : Worker L :=
  match t.todo with
  | [] => t
  | .take lock :: rest => ⟨lock :: t.held, rest⟩
  | .give lock :: rest => ⟨t.held.erase lock, rest⟩

/-- It is the turn of the thread at a place: it does its next act, or waits. -/
def turn (threads : List (Worker L)) (i : ℕ) : List (Worker L) :=
  match threads[i]? with
  | none => threads
  | some t => if canMove threads t then threads.set i t.moved else threads

/-- What a thread has left to do is in order. -/
def Ordered (rank : L → ℕ) : List L → List (LockAct L) → Prop
  | held, [] => held = []
  | held, .take lock :: rest => (∀ l ∈ held, rank l < rank lock) ∧ Ordered rank (lock :: held) rest
  | held, .give lock :: rest => lock ∈ held ∧ Ordered rank (held.erase lock) rest

/-- The locks that somebody has. -/
def taken (threads : List (Worker L)) : List L := threads.flatMap (·.held)

/-- No lock is had twice, and every thread is in order. -/
structure Sound (rank : L → ℕ) (threads : List (Worker L)) : Prop where
  exclusive : (taken threads).Nodup
  ordered : ∀ t ∈ threads, Ordered rank t.held t.todo

/-- Nobody has anything left to do. -/
def Finished (threads : List (Worker L)) : Prop := ∀ t ∈ threads, t.todo = []

variable {rank : L → ℕ} {threads : List (Worker L)}

/-! ### One turn -/

omit [DecidableEq L] in
theorem taken_middle (before after : List (Worker L)) (t : Worker L) :
    (taken (before ++ t :: after)).Perm (t.held ++ (taken (before ++ after))) := by
  simp only [taken, List.flatMap_append, List.flatMap_cons]
  exact List.perm_append_comm_assoc _ _ _

/-- A turn moves one thread, or none. -/
theorem turn_cases (threads : List (Worker L)) (i : ℕ) :
    turn threads i = threads ∨ ∃ before t after, threads = before ++ t :: after ∧
      before.length = i ∧ canMove threads t ∧ turn threads i = before ++ t.moved :: after := by
  rw [turn]
  cases place : threads[i]? with
  | none => exact .inl rfl
  | some t =>
    dsimp only
    split_ifs with moves
    · obtain ⟨inside, here⟩ := List.getElem?_eq_some_iff.mp place
      refine .inr ⟨threads.take i, t, threads.drop (i + 1), ?_, ?_, moves, ?_⟩
      · rw [← here, List.getElem_cons_drop, List.take_append_drop]
      · rw [List.length_take, Nat.min_eq_left (Nat.le_of_lt inside)]
      · exact List.set_eq_take_append_cons_drop.trans (if_pos inside)
    · exact .inl rfl

theorem Sound.turn (sound : Sound rank threads) (i : ℕ) : Sound rank (turn threads i) := by
  obtain same | ⟨before, t, after, rfl, -, moves, moved⟩ := turn_cases threads i
  · rwa [same]
  have exclusive := (taken_middle before after t).nodup_iff.mp sound.exclusive
  have ordered := sound.ordered t (by simp)
  have others : ∀ u ∈ before ++ after, Ordered rank u.held u.todo := by
    intro u member
    apply sound.ordered u
    rcases List.mem_append.mp member with mem | mem
    · exact List.mem_append_left _ mem
    · exact List.mem_append_right _ (List.mem_cons_of_mem _ mem)
  suffices one : (t.moved.held ++ taken (before ++ after)).Nodup ∧
      Ordered rank t.moved.held t.moved.todo by
    rw [moved]
    refine ⟨(taken_middle before after t.moved).nodup_iff.mpr one.1, fun u member => ?_⟩
    rcases List.mem_append.mp member with mem | mem
    · exact others u (List.mem_append_left _ mem)
    · obtain rfl | mem := List.mem_cons.mp mem
      · exact one.2
      · exact others u (List.mem_append_right _ mem)
  obtain ⟨held, todo⟩ := t
  match todo with
  | [] => cases moves
  | .take lock :: rest =>
    -- nobody has the lock that is taken
    have free : lock ∉ held ++ taken (before ++ after) := by
      intro member
      have somebody := (taken_middle before after ⟨held, .take lock :: rest⟩).mem_iff.mpr member
      obtain ⟨u, there, has⟩ := List.mem_flatMap.mp somebody
      have nobody := List.any_eq_false.mp (Bool.not_eq_true' _ ▸ moves) u there
      exact nobody (decide_eq_true has)
    exact ⟨List.nodup_cons.mpr ⟨free, exclusive⟩, ordered.2⟩
  | .give lock :: rest =>
    refine ⟨exclusive.sublist ?_, ordered.2⟩
    exact List.erase_sublist.append_right _

theorem Sound.run (sound : Sound rank threads) (schedule : List ℕ) :
    Sound rank (run Worker.turn threads schedule) :=
  run_invariant Worker.turn threads (fun _ i sound => sound.turn i) sound schedule

/-! ### Progress -/

omit [DecidableEq L] in
/-- The ranks that threads wait for are bounded. -/
theorem exists_bound (rank : L → ℕ) (threads : List (Worker L)) :
    ∃ b, ∀ t ∈ threads, ∀ lock rest, t.todo = .take lock :: rest → rank lock < b := by
  induction threads with
  | nil => exact ⟨0, by simp⟩
  | cons t rest ih =>
    obtain ⟨b, bound⟩ := ih
    have own : ∃ c, ∀ lock rest, t.todo = .take lock :: rest → rank lock < c := by
      match todo : t.todo with
      | [] => exact ⟨0, by simp⟩
      | .give lock :: later => exact ⟨0, by simp⟩
      | .take lock :: later =>
        refine ⟨rank lock + 1, fun other more same => ?_⟩
        obtain ⟨rfl, -⟩ : lock = other ∧ later = more := by simpa using same
        exact Nat.lt_succ_self _
    obtain ⟨c, bound'⟩ := own
    refine ⟨max b c, fun u member lock later wants => ?_⟩
    obtain rfl | member := List.mem_cons.mp member
    · exact Nat.lt_of_lt_of_le (bound' lock later wants) (Nat.le_max_right _ _)
    · exact Nat.lt_of_lt_of_le (bound u member lock later wants) (Nat.le_max_left _ _)

/-- A thread that does not get on wants a lock that another one has, which wants one of a
higher rank if it does not get on either. -/
theorem Sound.waits (sound : Sound rank threads) {t : Worker L} (member : t ∈ threads)
    (unfinished : t.todo ≠ []) (waits : ∀ u ∈ threads, canMove threads u = false) :
    ∃ lock rest, t.todo = .take lock :: rest ∧
      ∃ u ∈ threads, u.todo ≠ [] ∧ ∀ higher more, u.todo = .take higher :: more →
        rank lock < rank higher := by
  have stays := waits t member
  match todo : t.todo with
  | [] => exact absurd todo unfinished
  | .give lock :: rest => simp [canMove, todo] at stays
  | .take lock :: rest =>
    refine ⟨lock, rest, rfl, ?_⟩
    simp only [canMove, todo, Bool.not_eq_false', List.any_eq_true] at stays
    obtain ⟨u, there, has⟩ := stays
    have has : lock ∈ u.held := of_decide_eq_true has
    have ordered := sound.ordered u there
    refine ⟨u, there, fun done => ?_, fun higher more wants => ?_⟩
    · rw [done, Ordered] at ordered
      rw [ordered] at has
      cases has
    · rw [wants] at ordered
      exact ordered.1 lock has

/-- If a thread has something left to do, one of them gets on. -/
theorem Sound.exists_canMove (sound : Sound rank threads) (unfinished : ¬Finished threads) :
    ∃ t ∈ threads, canMove threads t = true := by
  by_contra stuck
  have waits : ∀ u ∈ threads, canMove threads u = false := by simpa using stuck
  -- otherwise there would be waiting threads for locks of ever higher ranks
  have higher (n : ℕ) : ∃ t ∈ threads, ∃ lock rest, t.todo = .take lock :: rest ∧
      n ≤ rank lock := by
    induction n with
    | zero =>
      obtain ⟨t, member, some_⟩ : ∃ t ∈ threads, t.todo ≠ [] := by simpa [Finished] using unfinished
      obtain ⟨lock, rest, wants, -⟩ := sound.waits member some_ waits
      exact ⟨t, member, lock, rest, wants, Nat.zero_le _⟩
    | succ n ih =>
      obtain ⟨t, member, lock, rest, wants, enough⟩ := ih
      obtain ⟨_, _, wants', u, there, some_, above⟩ :=
        sound.waits member (by rw [wants]; exact List.cons_ne_nil _ _) waits
      obtain ⟨rfl, -⟩ : lock = _ ∧ rest = _ := by simpa [wants] using wants'
      obtain ⟨next, more, wants, -⟩ := sound.waits there some_ waits
      exact ⟨u, there, next, more, wants, Nat.lt_of_le_of_lt enough (above next more wants)⟩
  obtain ⟨b, bound⟩ := exists_bound rank threads
  obtain ⟨t, member, lock, rest, wants, enough⟩ := higher b
  exact absurd (bound t member lock rest wants) (Nat.not_lt_of_le enough)

/-- How much there is to do. -/
def workload (threads : List (Worker L)) : ℕ := (threads.flatMap (·.todo)).length

theorem workload_moved {before after : List (Worker L)} {t : Worker L}
    (moves : canMove threads t = true) :
    workload (before ++ t.moved :: after) < workload (before ++ t :: after) := by
  obtain ⟨held, todo⟩ := t
  match todo with
  | [] => cases moves
  | .take lock :: rest => simp [workload, moved]
  | .give lock :: rest => simp [workload, moved]

/-- Everything that has been started can be brought to its end. -/
theorem Sound.exists_finish (sound : Sound rank threads) :
    ∃ schedule, Finished (Semantics.run Worker.turn threads schedule) := by
  generalize work : workload threads = n
  induction n using Nat.strongRecOn generalizing threads with
  | ind n ih =>
    by_cases finished : Finished threads
    · exact ⟨[], finished⟩
    obtain ⟨t, member, moves⟩ := sound.exists_canMove finished
    obtain ⟨i, inside, here⟩ := List.mem_iff_getElem.mp member
    have place : threads[i]? = some t := List.getElem?_eq_some_iff.mpr ⟨inside, here⟩
    have less : workload (Worker.turn threads i) < n := by
      have split : threads = threads.take i ++ t :: threads.drop (i + 1) := by
        rw [← here, List.getElem_cons_drop, List.take_append_drop]
      have set : Worker.turn threads i = threads.take i ++ t.moved :: threads.drop (i + 1) := by
        simp only [Worker.turn, place, moves, if_true]
        exact List.set_eq_take_append_cons_drop.trans (if_pos inside)
      rw [set, ← work]
      conv_rhs => rw [split]
      exact workload_moved moves
    obtain ⟨schedule, finished⟩ := ih _ less (sound.turn i) rfl
    exact ⟨i :: schedule, by rwa [run_cons]⟩

/-! ### Threads in order -/

omit [DecidableEq L] in
/-- A part of a thread that is done with a lock. -/
def within (lock : L) (part : List (LockAct L)) : List (LockAct L) :=
  .take lock :: part ++ [.give lock]

/-- A part that takes locks of these ranks only, in their order, and gives all of them back. -/
def Above (rank : L → ℕ) (n : ℕ) (part : List (LockAct L)) : Prop :=
  ∀ held rest, (∀ l ∈ held, rank l < n) → Ordered rank held rest → Ordered rank held (part ++ rest)

theorem Above.nil (n : ℕ) : Above rank n [] := fun _ _ _ ordered => ordered

theorem Above.append {n : ℕ} {first second : List (LockAct L)} (above : Above rank n first)
    (more : Above rank n second) : Above rank n (first ++ second) := by
  intro held rest low ordered
  rw [List.append_assoc]
  exact above held _ low (more held rest low ordered)

theorem Above.mono {m n : ℕ} {part : List (LockAct L)} (above : Above rank n part) (le : m ≤ n) :
    Above rank m part :=
  fun held rest low => above held rest fun l member => Nat.lt_of_lt_of_le (low l member) le

theorem Above.within {n : ℕ} {lock : L} {part : List (LockAct L)}
    (above : Above rank (rank lock + 1) part) (le : n ≤ rank lock) :
    Above rank n (within lock part) := by
  intro held rest low ordered
  have lower : ∀ l ∈ held, rank l < rank lock := fun l member =>
    Nat.lt_of_lt_of_le (low l member) le
  rw [Worker.within, List.append_assoc]
  refine ⟨lower, above (lock :: held) _ (fun l member => ?_) ⟨List.mem_cons_self, ?_⟩⟩
  · obtain rfl | member := List.mem_cons.mp member
    · exact Nat.lt_succ_self _
    · exact Nat.lt_succ_of_lt (lower l member)
  · rwa [List.erase_cons_head]

theorem Above.flatMap {ι : Type*} {n : ℕ} {parts : List ι} {f : ι → List (LockAct L)}
    (above : ∀ i ∈ parts, Above rank n (f i)) : Above rank n (parts.flatMap f) := by
  induction parts with
  | nil => exact .nil n
  | cons i rest ih =>
    obtain ⟨here, others⟩ := List.forall_mem_cons.mp above
    rw [List.flatMap_cons]
    exact here.append (ih others)

/-- Threads that do such parts are sound when they start. -/
theorem sound_start {parts : List (List (LockAct L))} (above : ∀ part ∈ parts, Above rank 0 part) :
    Sound rank (parts.map start) where
  exclusive := by
    have none : taken (parts.map start) = [] := by
      simp [taken, start, List.flatMap_map]
    rw [none]
    exact List.nodup_nil
  ordered t member := by
    obtain ⟨part, there, rfl⟩ := List.mem_map.mp member
    have ordered := above part there [] [] (by simp) rfl
    rwa [List.append_nil] at ordered

end Worker

end Semantics
