import Mathlib.Computability.RegularExpressions
import Tether.Js.Value

/-!
# Regular expressions without flags

The patterns of the code are built from literals, character classes, repetition
counts and concatenation, and they are anchored at both ends, so that a string
passes the test if it is in the pattern's language as a whole.

## Main definitions

* `Js.literal`, `Js.charClass` — a text, and one code unit out of some ranges
* `Js.test` — `/^pattern$/.test(s)`

## Main results

* `mem_literal`, `mem_charClass_pow` — the languages of the building blocks
-/

namespace Js

open RegularExpression

/-- A pattern over code units. -/
abbrev Pattern := RegularExpression UInt16

/-- The pattern that these units spell. -/
def spelled : Str → Pattern
  | [] => 1
  | u :: rest => .char u * spelled rest

/-- The literal pattern of a text. -/
def literal (text : String) : Pattern := spelled (str text)

/-- The code units of the ranges of a character class. -/
def classUnits (ranges : List (Char × Char)) : List UInt16 :=
  ranges.flatMap fun (first, last) =>
    (List.range' first.toNat (last.toNat + 1 - first.toNat)).map UInt16.ofNat

/-- One of these units. -/
def oneOf : List UInt16 → Pattern
  | [] => 0
  | u :: rest => .char u + oneOf rest

/-- `[…]`, with the ranges of the class; a single character is a range. -/
def charClass (ranges : List (Char × Char)) : Pattern := oneOf (classUnits ranges)

/-- `/^pattern$/.test(s)` -/
def test (pattern : Pattern) (s : Str) : Bool := pattern.rmatch s

theorem test_iff {pattern : Pattern} {s : Str} : test pattern s ↔ s ∈ pattern.matches' :=
  rmatch_iff_matches' pattern s

theorem mem_spelled {units s : Str} : s ∈ (spelled units).matches' ↔ s = units := by
  induction units generalizing s with
  | nil => exact Iff.rfl
  | cons u rest ih =>
    rw [spelled, matches'_mul, matches'_char, Language.mem_mul]
    constructor
    · rintro ⟨first, single, more, spells, rfl⟩
      rw [ih.mp spells, Set.mem_singleton_iff.mp single, List.singleton_append]
    · rintro rfl
      exact ⟨[u], rfl, rest, ih.mpr rfl, rfl⟩

theorem mem_literal {text : String} {s : Str} :
    s ∈ (literal text).matches' ↔ s = str text :=
  mem_spelled

theorem mem_oneOf {units s : Str} : s ∈ (oneOf units).matches' ↔ ∃ u ∈ units, s = [u] := by
  induction units with
  | nil => simp [oneOf, Language.notMem_zero]
  | cons u rest ih =>
    rw [oneOf, matches'_add, matches'_char, Language.mem_add, ih]
    simp only [List.mem_cons, exists_eq_or_imp]
    exact Iff.rfl

/-- A class repeated `n` times: `n` units of the class. -/
theorem mem_charClass_pow {ranges : List (Char × Char)} {n : ℕ} {s : Str} :
    s ∈ (charClass ranges ^ n).matches' ↔ s.length = n ∧ ∀ u ∈ s, u ∈ classUnits ranges := by
  rw [matches'_pow]
  induction n generalizing s with
  | zero =>
    rw [pow_zero, Language.mem_one, List.length_eq_zero_iff]
    constructor
    · rintro rfl
      exact ⟨rfl, by simp⟩
    · exact fun both => both.1
  | succ n ih =>
    rw [pow_succ', Language.mem_mul]
    constructor
    · rintro ⟨first, single, more, others, rfl⟩
      obtain ⟨u, member, rfl⟩ := mem_oneOf.mp single
      obtain ⟨count, all⟩ := ih.mp others
      exact ⟨by simp [count], by simpa using ⟨member, all⟩⟩
    · rintro ⟨count, all⟩
      cases s with
      | nil => simp at count
      | cons u rest =>
        refine ⟨[u], mem_oneOf.mpr ⟨u, all u List.mem_cons_self, rfl⟩, rest, ?_, rfl⟩
        apply ih.mpr
        exact ⟨by simpa using count, fun v member => all v (List.mem_cons_of_mem _ member)⟩

end Js
