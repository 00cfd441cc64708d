import Mathlib.Data.List.Basic
import Mathlib.Tactic.Common

/-!
# A conveyor belt

Items are loaded at one end of a belt and leave it at the other, handed on or lost.
The belt has room for so many items, and when more are loaded the oldest ones are
lost. What is handed on leaves in blocks.

## Main definitions

* `Conveyor` — the items on the belt, and those that have passed
* `Conveyor.offer`, `Conveyor.drain`, `Conveyor.feed` — loading, handing on, and both
* `slices` — blocks of one length in a list

## Main results

* `stream_feedAll` — what has passed and what is on the belt is what was loaded
* `eq_slices` — blocks of one length are slices of what they are put together to
-/

namespace Semantics

/-- The items that have left the belt, with whether they were handed on, and those on it. -/
@[ext]
structure Conveyor (α : Type*) where
  passed : List (α × Bool)
  belt : List α

namespace Conveyor

variable {α : Type*} (line : Conveyor α)

/-- Nothing has been loaded yet. -/
def start : Conveyor α := ⟨[], []⟩

/-- Everything that has been loaded, in its order. -/
def stream : List α := line.passed.map Prod.fst ++ line.belt

/-- What has been handed on. -/
def handed : List α := (line.passed.filter Prod.snd).map Prod.fst

/-- The first items leave. -/
def pass (n : ℕ) (on : Bool) : Conveyor α where
  passed := line.passed ++ (line.belt.take n).map fun x => (x, on)
  belt := line.belt.drop n

/-- New items behind the others. -/
def load (xs : List α) : Conveyor α := { line with belt := line.belt ++ xs }

/-- Items are loaded, and the oldest ones lost for which there is no room. -/
def offer (room : ℕ) (xs : List α) : Conveyor α :=
  (line.pass (line.belt.length + xs.length - room) false).load xs

/-- As many whole blocks as there are leave. -/
def drain (block : ℕ) : Conveyor α := line.pass (line.belt.length / block * block) true

/-- Items are loaded, then blocks are handed on. -/
def feed (room block : ℕ) (xs : List α) : Conveyor α := (line.offer room xs).drain block

/-- One load after another. -/
def feedAll (room block : ℕ) (line : Conveyor α) (loads : List (List α)) : Conveyor α :=
  loads.foldl (fun line xs => line.feed room block xs) line

@[simp] theorem stream_pass (n : ℕ) (on : Bool) : (line.pass n on).stream = line.stream := by
  simp [stream, pass, Function.comp_def]

@[simp] theorem stream_load (xs : List α) : (line.load xs).stream = line.stream ++ xs := by
  simp [stream, load]

@[simp] theorem stream_feed (room block : ℕ) (xs : List α) :
    (line.feed room block xs).stream = line.stream ++ xs := by
  simp [feed, offer, drain]

/-- Nothing is invented, mixed up or forgotten. -/
theorem stream_feedAll (room block : ℕ) (loads : List (List α)) :
    (feedAll room block line loads).stream = line.stream ++ loads.flatten := by
  induction loads generalizing line with
  | nil => simp [feedAll]
  | cons xs rest ih =>
    rw [feedAll, List.foldl_cons, ← feedAll, ih, stream_feed, List.flatten_cons,
      List.append_assoc]

theorem handed_pass (n : ℕ) (on : Bool) :
    (line.pass n on).handed = line.handed ++ if on then line.belt.take n else [] := by
  have marked (xs : List α) : ((xs.map fun x => (x, on)).filter Prod.snd).map Prod.fst =
      if on then xs else [] := by
    induction xs with
    | nil => simp
    | cons x rest ih => cases on <;> simp_all
  rw [handed, pass, List.filter_append, List.map_append, marked, handed]

@[simp] theorem handed_load (xs : List α) : (line.load xs).handed = line.handed := rfl

@[simp] theorem handed_offer (room : ℕ) (xs : List α) :
    (line.offer room xs).handed = line.handed := by
  simp [offer, handed_pass]

theorem belt_offer (room : ℕ) (xs : List α) :
    (line.offer room xs).belt =
      line.belt.drop (line.belt.length + xs.length - room) ++ xs :=
  rfl

theorem length_passed_pass (n : ℕ) (on : Bool) :
    (line.pass n on).passed.length = line.passed.length + min n line.belt.length := by
  simp [pass]

/-- The belt holds what has been loaded since the last item that passed. -/
theorem drop_stream : line.stream.drop line.passed.length = line.belt := by
  have length : (line.passed.map Prod.fst).length = line.passed.length := List.length_map _
  rw [stream, ← length, List.drop_left]

/-- Whole blocks in front of less than a block are what is handed on. -/
theorem drain_eq {block : ℕ} {blocks : List (List α)} {rest : List α}
    (whole : ∀ b ∈ blocks, b.length = block) (less : rest.length < block)
    (split : blocks.flatten ++ rest = line.belt) :
    (line.drain block).belt = rest ∧ (line.drain block).handed = line.handed ++ blocks.flatten ∧
      (line.drain block).passed.length = line.passed.length + blocks.length * block := by
  have total : blocks.flatten.length = blocks.length * block := by
    rw [List.length_flatten, List.map_congr_left whole, List.map_const', List.sum_replicate_nat]
  have length : line.belt.length = blocks.length * block + rest.length := by
    rw [← split, List.length_append, total]
  have count : line.belt.length / block = blocks.length := by
    rw [length, Nat.add_comm, Nat.add_mul_div_right _ _ (by omega), Nat.div_eq_of_lt less,
      Nat.zero_add]
  have taken : line.belt.take (blocks.length * block) = blocks.flatten := by
    rw [← split, ← total, List.take_left]
  have left : line.belt.drop (blocks.length * block) = rest := by
    rw [← split, ← total, List.drop_left]
  refine ⟨?_, ?_, ?_⟩
  · rw [drain, count, pass, left]
  · rw [drain, count, handed_pass, taken]
    rfl
  · rw [drain, count, length_passed_pass, length]
    omega

end Conveyor

/-! ### Slices -/

section Slices

variable {α : Type*}

/-- The blocks of a length that start at some places. -/
def slices (stream : List α) (block : ℕ) (starts : List ℕ) : List (List α) :=
  starts.map fun start => (stream.drop start).take block

theorem slices_append (stream : List α) (block : ℕ) (first second : List ℕ) :
    slices stream block (first ++ second) =
      slices stream block first ++ slices stream block second :=
  List.map_append

/-- Blocks that are next to each other in a stream start one block apart. -/
theorem eq_slices {stream rest : List α} {block start : ℕ} {blocks : List (List α)}
    (whole : ∀ b ∈ blocks, b.length = block)
    (split : stream.drop start = blocks.flatten ++ rest) :
    blocks = slices stream block ((List.range blocks.length).map fun k => start + k * block) := by
  induction blocks generalizing start with
  | nil => rfl
  | cons b blocks ih =>
    have length := whole b List.mem_cons_self
    rw [List.flatten_cons, List.append_assoc] at split
    have behind : stream.drop (start + block) = blocks.flatten ++ rest := by
      rw [← List.drop_drop, split, ← length, List.drop_left]
    have others := ih (fun b member => whole b (List.mem_cons_of_mem _ member)) behind
    have first : (stream.drop (start + 0 * block)).take block = b := by
      rw [Nat.zero_mul, Nat.add_zero, split, ← length, List.take_left]
    have shifted : ((List.range blocks.length).map fun k => start + block + k * block) =
        (List.range blocks.length).map fun k => start + (k + 1) * block := by
      apply List.map_congr_left
      intro k _
      rw [Nat.succ_mul]
      omega
    rw [shifted] at others
    rw [List.length_cons, List.range_succ_eq_map, List.map_cons, List.map_map, slices,
      List.map_cons, first]
    exact congrArg (b :: ·) others

end Slices

end Semantics
