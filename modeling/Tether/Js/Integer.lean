import Mathlib.Algebra.Ring.Rat
import Mathlib.Data.List.TakeDrop
import Tether.Js.Parse

/-!
# Integers as JSON numbers

A decimal integer is a number token: an optional sign, and digits of which only the
zero itself starts with a zero.

## Main definitions

* `integer` — an integer and its decimal text

## Main results

* `parseNumeral_integer` — the text is read as one token
* `numeral_integer` — the digits of a natural number denote it
-/

namespace Js

open Text

/-! ### Digits -/

/-- Only zero has a leading zero. -/
theorem toDigits_ten_cons (n : ℕ) :
    ∃ d rest, Nat.toDigits 10 n = d :: rest ∧ (d = '0' → n = 0) := by
  induction n using Nat.base_induction 10 (by decide) with
  | single m small =>
    refine ⟨_, [], Nat.toDigits_of_lt_base small, fun zero => ?_⟩
    exact Nat.digitChar_eq_zero.mp zero
  | digit m k small positive ih =>
    obtain ⟨d, rest, digits, zero⟩ := ih
    refine ⟨d, rest ++ Nat.toDigits 10 k, ?_, fun same => ?_⟩
    · rw [← Nat.toDigits_append_toDigits (by decide) positive small, digits, List.cons_append]
    · exact absurd (zero same) (by omega)

theorem isDigit_of_mem_toDigits {n : ℕ} {c : Char} (member : c ∈ Nat.toDigits 10 n) :
    c.isDigit :=
  Nat.isDigit_of_mem_toDigits (by decide) (by decide) member

/-- An integer is written with its digits, and a sign if it is negative. -/
theorem toList_toString_int (n : ℤ) :
    ∃ m : ℕ, (0 ≤ n ∧ n = m ∧ (toString n).toList = Nat.toDigits 10 m) ∨
      (n < 0 ∧ (toString n).toList = '-' :: Nat.toDigits 10 m) := by
  rw [Int.toString_eq_repr, Int.repr_eq_if]
  by_cases sign : 0 ≤ n
  · refine ⟨n.toNat, .inl ⟨sign, (Int.toNat_of_nonneg sign).symm, ?_⟩⟩
    rw [if_pos sign, Nat.toList_repr]
  · refine ⟨(-n).toNat, .inr ⟨by omega, ?_⟩⟩
    rw [if_neg sign, String.toList_append, Nat.toList_repr]
    rfl

/-! ### The numeral -/

/-- An integer as JSON carries it. -/
def integer (n : ℤ) : Numeral where
  value := .fin n
  text := (toString n).toList
  nonempty := by
    obtain ⟨m, ⟨-, -, text⟩ | ⟨-, text⟩⟩ := toList_toString_int n
    · rw [text]
      exact Nat.toDigits_ne_nil
    · rw [text]
      exact List.cons_ne_nil _ _
  digits := by
    intro c member
    obtain ⟨m, ⟨-, -, text⟩ | ⟨-, text⟩⟩ := toList_toString_int n
    · rw [text] at member
      exact .inl (isDigit_of_mem_toDigits member)
    · rw [text] at member
      rcases List.mem_cons.mp member with rfl | digit
      · exact .inr (.inr (.inl rfl))
      · exact .inl (isDigit_of_mem_toDigits digit)

theorem span_isDigit {digits rest : List Char} (all : ∀ c ∈ digits, c.isDigit)
    (ends : EndsToken rest) : (digits ++ rest).span Char.isDigit = (digits, rest) := by
  have stop : rest.takeWhile Char.isDigit = [] ∧ rest.dropWhile Char.isDigit = rest := by
    rcases ends with rfl | ⟨c, more, rfl, rfl | rfl | rfl⟩ <;> exact ⟨rfl, rfl⟩
  rw [List.span_eq_takeWhile_dropWhile, List.takeWhile_append_of_pos all,
    List.dropWhile_append_of_pos all, stop.1, stop.2, List.append_nil]

theorem parseInteger_toDigits (n : ℕ) {rest : List Char} (ends : EndsToken rest) :
    parseInteger (Nat.toDigits 10 n ++ rest) = some (Nat.toDigits 10 n, rest) := by
  have span := span_isDigit (fun c => isDigit_of_mem_toDigits (n := n) (c := c)) ends
  obtain ⟨d, digits, text, zero⟩ := toDigits_ten_cons n
  by_cases leading : d = '0'
  · have same : n = 0 := zero leading
    subst same
    rfl
  · have after : parseDigitsAfter [] (Nat.toDigits 10 n ++ rest) =
        some (Nat.toDigits 10 n, rest) := by
      rw [parseDigitsAfter, span, text]
      rfl
    rw [text, List.cons_append] at after ⊢
    rw [parseInteger.eq_def]
    split
    · rename_i same
      exact absurd (List.cons.inj same).1 leading
    · exact after

theorem parseFraction_ends {rest : List Char} (ends : EndsToken rest) :
    parseFraction rest = some ([], rest) := by
  rcases ends with rfl | ⟨c, more, rfl, rfl | rfl | rfl⟩ <;> rfl

theorem parseExponent_ends {rest : List Char} (ends : EndsToken rest) :
    parseExponent rest = some ([], rest) := by
  rcases ends with rfl | ⟨c, more, rfl, rfl | rfl | rfl⟩ <;> rfl

/-- The whole text is one token. -/
theorem parseNumeral_integer (n : ℤ) {rest : List Char} (ends : EndsToken rest) :
    parseNumeral ((integer n).text ++ rest) = some ((integer n).text, rest) := by
  have text : (integer n).text = (toString n).toList := rfl
  obtain ⟨m, ⟨-, -, shape⟩ | ⟨-, shape⟩⟩ := toList_toString_int n
  · obtain ⟨d, digits, start, -⟩ := toDigits_ten_cons m
    have unsigned : d ≠ '-' := by
      have digit := isDigit_of_mem_toDigits (n := m) (c := d) (by simp [start])
      rintro rfl
      cases digit
    rw [text, shape, parseNumeral]
    · simp [parseInteger_toDigits m ends, parseFraction_ends ends, parseExponent_ends ends]
    · intro more same
      rw [start] at same
      exact unsigned (List.cons.inj same).1
  · rw [text, shape, List.cons_append, parseNumeral]
    simp [parseInteger_toDigits m ends, parseFraction_ends ends, parseExponent_ends ends]

theorem reads_integer {engine : Engine} {n : ℤ}
    (numeral : engine.numeral (integer n).text = integer n) : Reads engine (integer n) :=
  ⟨⟨n, rfl⟩, numeral, fun _ ends => parseNumeral_integer n ends⟩

/-- The value of digits, as a rational and as a natural number. -/
theorem foldl_digits {token : List Char} (all : ∀ c ∈ token, c.isDigit) (n : ℕ) :
    token.foldl (fun (q : ℚ) c => 10 * q + (c.toNat - 48)) n = (Nat.ofDigitChars 10 token n : ℕ) := by
  induction token generalizing n with
  | nil => rfl
  | cons c rest ih =>
    obtain ⟨digit, others⟩ := List.forall_mem_cons.mp all
    have low : 48 ≤ c.toNat := by
      rw [Char.isDigit, Bool.and_eq_true, decide_eq_true_eq] at digit
      exact UInt32.le_iff_toNat_le.mp digit.1
    have step : (10 * (n : ℚ) + ((c.toNat : ℚ) - 48)) = ((10 * n + (c.toNat - 48) : ℕ) : ℚ) := by
      push_cast [Nat.cast_sub low]
      rfl
    rw [List.foldl_cons, step, ih others, Nat.ofDigitChars_cons]
    rfl

/-- The digits of a natural number denote it. -/
theorem numeral_integer (n : ℕ) : asciiEngine.numeral (integer n).text = integer n := by
  obtain ⟨m, ⟨-, same, shape⟩ | ⟨negative, -⟩⟩ := toList_toString_int n
  · obtain rfl := Int.ofNat.inj same
    have digits : (integer (n : ℤ)).text = Nat.toDigits 10 n := shape
    have all : ∀ c ∈ (integer (n : ℤ)).text, c.isDigit := by
      rw [digits]
      exact fun c => isDigit_of_mem_toDigits
    have denoted : (integer (n : ℤ)).text.foldl (fun (q : ℚ) c => 10 * q + (c.toNat - 48)) 0 =
        ((n : ℤ) : ℚ) := by
      have sum := foldl_digits all 0
      rw [Nat.cast_zero] at sum
      rw [sum, digits, Nat.ofDigitChars_ten_toDigits]
      rfl
    have read : asciiEngine.numeral (integer n).text = decimal (integer n).text := rfl
    rw [read, decimal, dif_pos ⟨(integer n).nonempty, all⟩]
    simp only [denoted]
    rfl
  · exact absurd negative (by omega)

end Js
