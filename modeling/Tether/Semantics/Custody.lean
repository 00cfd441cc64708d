import Mathlib.Data.List.Nodup
import Tether.Semantics.Outputs

/-!
# Numbered resources in custody

Resources are numbered as they are opened; each is opened before it is used, and is never
touched again once it is closed. A log of what is done with them is lawful if every entry finds
its resource in the state it needs.

## Main definitions

* `Handling`, `Act` — an entry of a log, about one resource
* `Custody`, `Custody.after` — what is held, and what a lawful entry changes
* `Custody.Keeps` — a log leads from one custody to another
* `story` — what a log says of one resource
* `Custody.Told` — opened once, then used, and closed once unless held

## Main results

* `Custody.told_of_keeps` — in a lawful log every resource has been opened once, is used while
  it is held, and has been closed once unless it still is
-/

namespace Semantics

inductive Act
  | opens
  | uses
  | closes
  deriving DecidableEq

structure Handling where
  resource : ℕ
  act : Act
  deriving DecidableEq

/-- What the log says of one resource, in the order of the log. -/
def story (n : ℕ) (log : List Handling) : List Act :=
  (log.filter (·.resource = n)).map (·.act)

theorem story_append (n : ℕ) (first second : List Handling) :
    story n (first ++ second) = story n first ++ story n second := by
  simp [story]

theorem story_single (n : ℕ) (entry : Handling) :
    story n [entry] = if entry.resource = n then [entry.act] else [] := by
  by_cases own : entry.resource = n <;> simp [story, own]

/-- How many resources have been opened, and those that are still held, the oldest first. -/
structure Custody where
  made : ℕ
  held : List ℕ
  known : ∀ n ∈ held, n < made
  nodup : held.Nodup

namespace Custody

@[ext] theorem ext' {c d : Custody} (made : c.made = d.made) (held : c.held = d.held) : c = d := by
  cases c
  cases d
  simp_all

def empty : Custody := ⟨0, [], by simp, by simp⟩

def opened (c : Custody) : Custody where
  made := c.made + 1
  held := c.held ++ [c.made]
  known n member := by
    obtain old | rfl : n ∈ c.held ∨ n = c.made := by simpa using member
    · exact Nat.lt_succ_of_lt (c.known n old)
    · exact Nat.lt_succ_self _
  nodup := by
    refine List.nodup_append.mpr ⟨c.nodup, List.nodup_singleton _, fun n old m new => ?_⟩
    obtain rfl := List.mem_singleton.mp new
    exact Nat.ne_of_lt (c.known n old)

def closed (c : Custody) (n : ℕ) : Custody where
  made := c.made
  held := c.held.erase n
  known m member := c.known m (List.mem_of_mem_erase member)
  nodup := c.nodup.erase n

/-- A lawful entry: the next number is opened, or a held resource is used or closed. -/
def after (c : Custody) : Handling → Option Custody
  | ⟨n, .opens⟩ => if n = c.made then some c.opened else none
  | ⟨n, .uses⟩ => if n ∈ c.held then some c else none
  | ⟨n, .closes⟩ => if n ∈ c.held then some (c.closed n) else none

/-- The log is lawful, and leads from `c` to `d`. -/
def Keeps (c : Custody) (log : List Handling) (d : Custody) : Prop :=
  log.foldlM after c = some d

@[simp] theorem keeps_nil {c d : Custody} : c.Keeps [] d ↔ c = d := by
  simp [Keeps]

theorem Keeps.trans {c d e : Custody} {first second : List Handling} (keeps : c.Keeps first d)
    (more : d.Keeps second e) : c.Keeps (first ++ second) e := by
  rw [Keeps, List.foldlM_append, keeps]
  exact more

theorem keeps_cons {c e : Custody} {entry : Handling} {log : List Handling} :
    c.Keeps (entry :: log) e ↔ ∃ d, c.after entry = some d ∧ d.Keeps log e := by
  simp [Keeps, Option.bind_eq_some_iff]

/-- Held resources may be used. -/
theorem keeps_uses {c : Custody} {log : List Handling}
    (uses : ∀ entry ∈ log, entry.act = .uses ∧ entry.resource ∈ c.held) : c.Keeps log c := by
  induction log with
  | nil => exact keeps_nil.mpr rfl
  | cons entry rest ih =>
    obtain ⟨used, held⟩ := uses entry List.mem_cons_self
    refine keeps_cons.mpr ⟨c, ?_, ih fun other member => uses other (List.mem_cons_of_mem _ member)⟩
    cases entry
    simp_all [after]

/-- Closing all that is held leaves nothing to hold. -/
theorem keeps_closing (c : Custody) :
    ∃ d : Custody, c.Keeps (c.held.map (⟨·, .closes⟩)) d ∧ d.made = c.made ∧ d.held = [] := by
  generalize rest : c.held = held
  induction held generalizing c with
  | nil => exact ⟨c, keeps_nil.mpr rfl, rfl, rest⟩
  | cons n held ih =>
    have entry : c.after ⟨n, .closes⟩ = some (c.closed n) := if_pos (by simp [rest])
    obtain ⟨d, keeps, made, nothing⟩ := ih (c.closed n) (by simp [closed, rest])
    exact ⟨d, keeps_cons.mpr ⟨c.closed n, entry, keeps⟩, made, nothing⟩

theorem keeps_concat {c e : Custody} {log : List Handling} {entry : Handling} :
    c.Keeps (log ++ [entry]) e ↔ ∃ d, c.Keeps log d ∧ d.after entry = some e := by
  simp [Keeps, List.foldlM_append, Option.bind_eq_some_iff]

/-- What a log has said of a resource that the custody is now in: it has been opened once, then
used, and closed unless it is still held. -/
def Told (c : Custody) (n : ℕ) (acts : List Act) : Prop :=
  if n < c.made then
    ∃ k, acts = .opens :: List.replicate k .uses ++ if n ∈ c.held then [] else [.closes]
  else acts = []

theorem told_after {c d : Custody} {n : ℕ} {acts : List Act} {entry : Handling}
    (told : c.Told n acts) (lawful : c.after entry = some d) :
    d.Told n (acts ++ story n [entry]) := by
  rw [story_single]
  obtain ⟨m, act⟩ := entry
  cases act with
  | opens =>
    obtain ⟨rfl, rfl⟩ : m = c.made ∧ c.opened = d := by simpa [after] using lawful
    have fresh : c.made ∉ c.held := fun held => Nat.lt_irrefl _ (c.known _ held)
    obtain before | rfl | beyond := Nat.lt_trichotomy n c.made
    · have other : n ≠ c.made := Nat.ne_of_lt before
      simpa [Told, opened, before, Nat.lt_succ_of_lt before, other, other.symm] using told
    · obtain rfl : acts = [] := by simpa [Told] using told
      simp only [Told, opened, Nat.lt_succ_self, if_true]
      exact ⟨0, by simp⟩
    · have other : c.made ≠ n := Nat.ne_of_lt beyond
      have before : ¬n < c.made := Nat.not_lt_of_lt beyond
      have still : ¬n < c.made + 1 := Nat.not_lt_of_le beyond
      simpa [Told, opened, other, before, still] using told
  | uses =>
    obtain ⟨held, rfl⟩ : m ∈ c.held ∧ c = d := by simpa [after] using lawful
    by_cases own : m = n
    · subst own
      simp only [Told, c.known m held, held, if_true, List.append_nil] at told ⊢
      obtain ⟨k, rfl⟩ := told
      exact ⟨k + 1, by simp [List.replicate_succ']⟩
    · simpa [own] using told
  | closes =>
    obtain ⟨held, rfl⟩ : m ∈ c.held ∧ c.closed m = d := by simpa [after] using lawful
    by_cases own : m = n
    · subst own
      have gone : m ∉ c.held.erase m := c.nodup.not_mem_erase
      simp only [Told, closed, c.known m held, held, gone, if_true, if_false,
        List.append_nil] at told ⊢
      obtain ⟨k, rfl⟩ := told
      exact ⟨k, rfl⟩
    · simpa [Told, closed, own, List.mem_erase_of_ne (Ne.symm own)] using told

/-- In a lawful log every resource has been opened once, is used while it is held, and has been
closed once unless it is still held; of those that have not been opened it says nothing. -/
theorem told_of_keeps {c : Custody} {log : List Handling} (keeps : empty.Keeps log c) (n : ℕ) :
    c.Told n (story n log) := by
  induction log using List.reverseRecOn generalizing c with
  | nil =>
    obtain rfl := keeps_nil.mp keeps
    simp [Told, empty, story]
  | append_singleton log entry ih =>
    obtain ⟨d, before, lawful⟩ := keeps_concat.mp keeps
    rw [story_append]
    exact told_after (ih before) lawful

end Custody

end Semantics
