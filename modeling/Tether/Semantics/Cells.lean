import Mathlib.Data.List.Basic
import Mathlib.Tactic.Common

/-!
# Arrays in memory

An allocated array is the list of its cells, and an access outside of it has no
result: nothing is known about the program from there on. Sizes are unsigned, and
their differences and products wrap around.

## Main definitions

* `sizeAdd`, `sizeSub`, `sizeMul` — arithmetic of sizes
* `Cells.alloc` — a fresh array
* `Cells.store`, `Cells.storeAll` — assignments to one cell, and to one after another
* `Cells.overwrite` — what a row of assignments leaves behind
* `Cells.copy`, `Cells.moveDown` — a `memcpy`, and a `memmove` to the start of the array
* `Cells.same` — a `memcmp`

## Main results

* `Cells.storeAll_eq`, `Cells.copy_eq`, `Cells.moveDown_eq` — what accesses in bounds leave
  behind
* `Cells.moveDown_eq_none` — a move by more than there is cannot be in bounds
-/

namespace Semantics

/-- One more than the largest size. -/
def sizeMod : ℕ := 0x10000000000000000

/-- The sum of two sizes. -/
def sizeAdd (a b : ℕ) : ℕ := (a + b) % sizeMod

/-- The difference of two sizes. -/
def sizeSub (a b : ℕ) : ℕ := (a + (sizeMod - b)) % sizeMod

/-- The product of two sizes. -/
def sizeMul (a b : ℕ) : ℕ := a * b % sizeMod

theorem sizeAdd_of_lt {a b : ℕ} (small : a + b < sizeMod) : sizeAdd a b = a + b :=
  Nat.mod_eq_of_lt small

theorem sizeSub_of_le {a b : ℕ} (le : b ≤ a) (small : a < sizeMod) : sizeSub a b = a - b := by
  have split : a + (sizeMod - b) = (a - b) + sizeMod := by omega
  rw [sizeSub, split, Nat.add_mod_right, Nat.mod_eq_of_lt (by omega)]

theorem sizeMul_of_lt {a b : ℕ} (small : a * b < sizeMod) : sizeMul a b = a * b :=
  Nat.mod_eq_of_lt small

namespace Cells

variable {α : Type*} {cells : List α}

/-- A fresh array, whose cells hold whatever they held. -/
def alloc (junk : ℕ → α) (size : ℕ) : List α := (List.range size).map junk

@[simp] theorem alloc_length (junk : ℕ → α) (size : ℕ) : (alloc junk size).length = size := by
  simp [alloc]

/-! ### Assignments -/

/-- An assignment to one cell. -/
def store (cells : List α) (index : ℕ) (x : α) : Option (List α) :=
  if index < cells.length then some (cells.set index x) else none

/-- Assignments to one cell after another. -/
def storeAll (cells : List α) (start : ℕ) : List α → Option (List α)
  | [] => some cells
  | x :: rest => (store cells start x).bind fun written => storeAll written (start + 1) rest

/-- The cells from a position on replaced. -/
def overwrite (cells : List α) (start : ℕ) (xs : List α) : List α :=
  cells.take start ++ xs ++ cells.drop (start + xs.length)

@[simp] theorem overwrite_nil (cells : List α) (start : ℕ) : overwrite cells start [] = cells := by
  simp [overwrite]

theorem overwrite_zero (cells xs : List α) : overwrite cells 0 xs = xs ++ cells.drop xs.length := by
  rw [overwrite, List.take_zero, List.nil_append, Nat.zero_add]

/-- One cell replaced, and then those behind it. -/
theorem overwrite_set {start : ℕ} (inside : start < cells.length) (x : α) (xs : List α) :
    overwrite (cells.set start x) (start + 1) xs = overwrite cells start (x :: xs) := by
  have written : (cells.set start x).take (start + 1) = cells.take start ++ [x] := by
    rw [List.take_add_one, List.take_set_of_le (Nat.le_refl start),
      List.getElem?_set_self inside, Option.toList_some]
  have beyond : (cells.set start x).drop (start + 1 + xs.length) =
      cells.drop (start + (xs.length + 1)) := by
    rw [List.drop_set_of_lt (by omega)]
    congr 1
    omega
  rw [overwrite, overwrite, written, beyond]
  simp

/-- Assignments in bounds replace what was there, and nothing else. -/
theorem storeAll_eq {start : ℕ} {xs : List α} (fits : start + xs.length ≤ cells.length) :
    storeAll cells start xs =
      some (cells.take start ++ xs ++ cells.drop (start + xs.length)) := by
  have replaced : storeAll cells start xs = some (overwrite cells start xs) := by
    induction xs generalizing cells start with
    | nil => rw [storeAll, overwrite_nil]
    | cons x rest ih =>
      rw [List.length_cons] at fits
      have inside : start < cells.length := by omega
      rw [storeAll, store, if_pos inside, Option.bind_some,
        ih (by rw [List.length_set]; omega), overwrite_set inside]
  exact replaced

/-- An assignment behind the first part of an array. -/
theorem store_append (first : List α) {rest : List α} (room : rest ≠ []) (x : α) :
    store (first ++ rest) first.length x = some (first ++ x :: rest.tail) := by
  obtain ⟨y, rest, rfl⟩ := List.exists_cons_of_ne_nil room
  rw [store, if_pos (by simp), List.set_append_right _ _ (Nat.le_refl _), Nat.sub_self]
  rfl

/-- A loop that assigns to consecutive cells, whatever it counts. -/
theorem foldlM_store {β : Type*} (cells : List α) (index : β → ℕ) (value : β → α)
    {steps : List β} {start : ℕ}
    (consecutive : steps.map index = List.range' start steps.length) :
    steps.foldlM (fun cells step => store cells (index step) (value step)) cells =
      storeAll cells start (steps.map value) := by
  induction steps generalizing cells start with
  | nil => rfl
  | cons step rest ih =>
    rw [List.map_cons, List.length_cons, List.range'_succ] at consecutive
    obtain ⟨here, behind⟩ := List.cons.inj consecutive
    simp only [List.foldlM_cons, List.map_cons, storeAll, here]
    exact congrArg _ (funext fun written => ih written behind)

/-! ### Copies and moves -/

/-- `memcpy(target, source, count)`. -/
def copy (count : ℕ) (source target : List α) : Option (List α) :=
  if count ≤ source.length ∧ count ≤ target.length then
    some (source.take count ++ target.drop count)
  else none

/-- What a copy leaves: the first cells are those of the source, and there are as many as
before. -/
theorem copy_eq {count : ℕ} {source target : List α} (readable : count ≤ source.length)
    (writable : count ≤ target.length) :
    ∃ written, copy count source target = some written ∧
      written.take count = source.take count ∧ written.length = target.length := by
  have taken : (source.take count).length = count := List.length_take_of_le readable
  refine ⟨_, if_pos ⟨readable, writable⟩, List.take_left' taken, ?_⟩
  rw [List.length_append, taken, List.length_drop]
  omega

/-- `memcmp(first, second, count) == 0` -/
def same [DecidableEq α] (count : ℕ) (first second : List α) : Option Bool :=
  if count ≤ first.length ∧ count ≤ second.length then
    some (first.take count = second.take count)
  else none

/-- `memmove(cells, cells + source, bytes)`, for cells of a width. -/
def moveDown (width : ℕ) (cells : List α) (source bytes : ℕ) : Option (List α) :=
  if width * source + bytes ≤ width * cells.length then
    some ((cells.drop source).take (bytes / width) ++ cells.drop (bytes / width))
  else none

theorem moveDown_eq {width source count : ℕ} (positive : 0 < width)
    (fits : source + count ≤ cells.length) :
    moveDown width cells source (count * width) =
      some ((cells.drop source).take count ++ cells.drop count) := by
  have inside : width * source + count * width ≤ width * cells.length := by
    rw [Nat.mul_comm count, ← Nat.mul_add]
    exact Nat.mul_le_mul_left width fits
  rw [moveDown, if_pos inside, Nat.mul_div_cancel count positive]

/-- Moving what lies behind more cells than are in use reads beyond the array, however
the length of the move wraps around. -/
theorem moveDown_eq_none (cells : List α) {width source fill : ℕ} (positive : 0 < width)
    (beyond : fill < source) (small : source ≤ sizeMod) (short : width * cells.length < sizeMod) :
    moveDown width cells source (sizeMul (sizeSub fill source) width) = none := by
  have wrapped : sizeSub fill source = fill + (sizeMod - source) := Nat.mod_eq_of_lt (by omega)
  rw [moveDown, if_neg]
  intro inside
  have longer : width * fill < width * source := Nat.mul_lt_mul_of_pos_left beyond positive
  -- modulo the wrap the move would end where the cells in use end
  have congruent : (width * source + sizeMul (sizeSub fill source) width) % sizeMod =
      width * fill % sizeMod := by
    have total : width * source + (fill + (sizeMod - source)) * width =
        width * fill + sizeMod * width := by
      rw [Nat.mul_comm _ width, ← Nat.mul_add, Nat.mul_comm sizeMod, ← Nat.mul_add]
      congr 1
      omega
    rw [wrapped, sizeMul, Nat.add_mod_mod, total, Nat.add_mul_mod_self_left]
  rw [Nat.mod_eq_of_lt (by omega)] at congruent
  have least := Nat.mod_le (width * fill) sizeMod
  omega

end Cells

end Semantics
