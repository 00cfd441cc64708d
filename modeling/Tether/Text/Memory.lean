import Tether.Semantics.Cells
import Tether.Text.Bytes

/-!
# Strings in memory

A C string is an array that ends with a NUL, and a pointer into it is a position. Reading
the NUL is fine, reading what lies behind it has no result.

## Main definitions

* `CString` — a string without a NUL in it
* `CString.read` — the byte at a position, the NUL included
* `CString.suffix` — the text that a pointer points to
* `CString.strstr`, `CString.strchr` — the searches, from a position on

## Main results

* `CString.read_cases` — a pointer in the string reads the NUL, or it can be advanced
* `CString.strstr_cases`, `CString.strchr_eq` — where a search ends
-/

namespace Text

open Semantics

/-- A search skips a part of the text and finds the needle behind it. -/
theorem strstr_eq_some {needle hay found : Bytes} (hit : strstr needle hay = some found) :
    needle <+: found ∧ found <:+ hay := by
  induction hay with
  | nil =>
    rw [strstr] at hit
    split_ifs at hit with starts
    obtain rfl := Option.some.inj hit
    exact ⟨List.isPrefixOf_iff_prefix.mp starts, List.suffix_rfl⟩
  | cons b rest ih =>
    rw [strstr] at hit
    split_ifs at hit with starts
    · obtain rfl := Option.some.inj hit
      exact ⟨List.isPrefixOf_iff_prefix.mp starts, List.suffix_rfl⟩
    · exact ⟨(ih hit).1, (ih hit).2.trans (List.suffix_cons b rest)⟩

theorem spanTo_starts {stop : UInt8} {start span : Bytes} (hit : spanTo stop start = some span) :
    span <+: start := by
  rw [spanTo] at hit
  split_ifs at hit
  obtain rfl := Option.some.inj hit
  exact List.takeWhile_prefix _

/-- A string in memory, without the NUL that it ends with. -/
structure CString where
  bytes : Bytes
  ended : (0 : UInt8) ∉ bytes

namespace CString

variable (s : CString)

/-- What the array holds. -/
def cells : Bytes := s.bytes ++ [0]

def length : ℕ := s.bytes.length

/-- `s[p]` -/
def read (p : ℕ) : Option UInt8 := s.cells[p]?

/-- The text from a position on. -/
def suffix (p : ℕ) : Bytes := s.bytes.drop p

/-- `strstr(s + p, needle)`: where the needle occurs first, if it does. -/
def strstr (p : ℕ) (needle : Bytes) : Option (Option ℕ) :=
  if p ≤ s.length then
    some ((Text.strstr needle (s.suffix p)).map fun found => s.length - found.length)
  else none

/-- `strchr(s + p, c)`, where `c` is not the NUL. -/
def strchr (p : ℕ) (c : UInt8) : Option (Option ℕ) :=
  if p ≤ s.length then
    some ((spanTo c (s.suffix p)).map fun span => p + span.length)
  else none

variable {s : CString} {p : ℕ}

@[simp] theorem suffix_zero : s.suffix 0 = s.bytes := rfl

theorem suffix_length : (s.suffix p).length = s.length - p := List.length_drop

@[simp] theorem suffix_add (p n : ℕ) : s.suffix (p + n) = (s.suffix p).drop n :=
  List.drop_drop.symm

theorem ne_zero_of_mem_suffix {b : UInt8} (member : b ∈ s.suffix p) : b ≠ 0 := by
  rintro rfl
  exact s.ended (List.mem_of_mem_drop member)

/-- A pointer in the string points to the NUL, or to a byte behind which there is more. -/
theorem read_cases (inside : p ≤ s.length) :
    s.read p = some 0 ∧ s.suffix p = [] ∨
      ∃ b, s.read p = some b ∧ b ≠ 0 ∧ s.suffix p = b :: s.suffix (p + 1) ∧ p + 1 ≤ s.length := by
  rcases Nat.lt_or_eq_of_le inside with within | rfl
  · have split : s.suffix p = s.bytes[p] :: s.suffix (p + 1) := List.drop_eq_getElem_cons within
    refine .inr ⟨s.bytes[p], ?_, ?_, split, within⟩
    · rw [read, cells, List.getElem?_append_left within, List.getElem?_eq_getElem within]
    · refine ne_zero_of_mem_suffix (s := s) (p := p) ?_
      rw [split]
      exact List.mem_cons_self
  · left
    constructor
    · rw [read, cells, length, List.getElem?_concat_length]
    · exact List.drop_length

theorem le_length_of_prefix {u : Bytes} (inside : p ≤ s.length) (starts : u <+: s.suffix p) :
    p + u.length ≤ s.length := by
  have fits := starts.length_le
  rw [suffix_length] at fits
  omega

/-- A search finds what the text has, at a position in the string. -/
theorem strstr_cases (inside : p ≤ s.length) (needle : Bytes) :
    s.strstr p needle = some none ∧ Text.strstr needle (s.suffix p) = none ∨
      ∃ q, s.strstr p needle = some (some q) ∧ Text.strstr needle (s.suffix p) = some (s.suffix q) ∧
        needle <+: s.suffix q ∧ p ≤ q ∧ q ≤ s.length := by
  rw [strstr, if_pos inside]
  cases hit : Text.strstr needle (s.suffix p) with
  | none => exact .inl ⟨rfl, rfl⟩
  | some found =>
    obtain ⟨starts, ends⟩ := strstr_eq_some hit
    have fits := ends.length_le
    rw [suffix_length] at fits
    -- the text that is found is the last part of the string
    have rest : s.suffix (s.length - found.length) = found :=
      (List.suffix_iff_eq_drop.mp (ends.trans (List.drop_suffix p s.bytes))).symm
    refine .inr ⟨s.length - found.length, rfl, by rw [rest], by rwa [rest], ?_, by omega⟩
    omega

/-- A search in the whole string, and the room for what is found. -/
theorem strstr_zero_cases (s : CString) (needle : Bytes) :
    s.strstr 0 needle = some none ∧ Text.strstr needle s.bytes = none ∨
      ∃ q, s.strstr 0 needle = some (some q) ∧ Text.strstr needle s.bytes = some (s.suffix q) ∧
        q + needle.length ≤ s.length := by
  rcases strstr_cases (Nat.zero_le s.length) needle with
    missed | ⟨q, search, hit, starts, -, within⟩
  · exact .inl missed
  · exact .inr ⟨q, search, hit, le_length_of_prefix within starts⟩

/-- A search for a byte stops behind what lies before it. -/
theorem strchr_eq (inside : p ≤ s.length) (c : UInt8) :
    s.strchr p c = some ((spanTo c (s.suffix p)).map fun span => p + span.length) :=
  if_pos inside

/-- What a pointer points to can be read as a block. -/
theorem block_suffix {u : Bytes} (inside : p ≤ s.length) (starts : u <+: s.suffix p) :
    u.length ≤ (s.cells.drop p).length ∧ (s.cells.drop p).take u.length = u := by
  have cells : s.cells.drop p = s.suffix p ++ [0] := List.drop_append_of_le_length inside
  have short := starts.length_le
  rw [cells, List.length_append, List.take_append_of_le_length short]
  exact ⟨by omega, (List.prefix_iff_eq_take.mp starts).symm⟩

theorem copy_suffix {u target : Bytes} (inside : p ≤ s.length) (starts : u <+: s.suffix p)
    (fits : u.length ≤ target.length) :
    Cells.copy u.length (s.cells.drop p) target = some (u ++ target.drop u.length) := by
  obtain ⟨readable, block⟩ := block_suffix inside starts
  rw [Cells.copy, if_pos ⟨readable, fits⟩, block]

theorem same_suffix {u other : Bytes} (inside : p ≤ s.length) (starts : u <+: s.suffix p)
    (long : other.length = u.length) :
    Cells.same u.length (s.cells.drop p) other = some (decide (u = other)) := by
  obtain ⟨readable, block⟩ := block_suffix inside starts
  rw [Cells.same, if_pos ⟨readable, Nat.le_of_eq long.symm⟩, block,
    List.take_of_length_le (Nat.le_of_eq long)]

end CString

end Text
