import Mathlib.Algebra.Ring.Nat
import Tether.Text.Bytes

/-!
# Numbered names

A name with a number behind it, as `snprintf` writes `%d` into a buffer. Names of the same
stem differ if their numbers do, as long as the buffer has room for them.

## Main definitions

* `numbered` — a stem and a number, in a buffer of some size

## Main results

* `numbered_eq` — a number of a few digits is not cut
* `numbered_injective` — the number can be told from the name
-/

namespace Text

/-- The digits of a number. -/
def decimal (n : ℕ) : Bytes := bytes (toString n)

theorem decimal_eq (n : ℕ) : decimal n = utf8 (Nat.toDigits 10 n) :=
  congrArg utf8 Nat.toList_repr

theorem decimal_injective : Function.Injective decimal := by
  intro m n same
  rw [decimal_eq, decimal_eq] at same
  have digits := congrArg (fun text => Nat.ofDigitChars 10 text 0) (utf8_injective same)
  simpa using digits

/-- A text in ASCII has a byte for each character. -/
theorem utf8_length_of_ascii {text : List Char} (ascii : ∀ c ∈ text, c.toNat < 128) :
    (utf8 text).length = text.length := by
  induction text with
  | nil => rfl
  | cons c rest ih =>
    obtain ⟨small, others⟩ := List.forall_mem_cons.mp ascii
    rw [utf8_cons, utf8EncodeChar_ascii small, List.singleton_append, List.length_cons, ih others,
      List.length_cons]

theorem toNat_lt_of_isDigit {c : Char} (digit : c.isDigit = true) : c.toNat < 128 := by
  rw [Char.isDigit, Bool.and_eq_true, decide_eq_true_eq, decide_eq_true_eq] at digit
  have high := UInt32.le_iff_toNat_le.mp digit.2
  exact Nat.lt_of_le_of_lt high (by decide)

/-- How long a number is. -/
theorem decimal_length_le {n k : ℕ} (positive : 0 < k) : (decimal n).length ≤ k ↔ n < 10 ^ k := by
  have ascii : ∀ c ∈ Nat.toDigits 10 n, c.toNat < 128 := fun c member =>
    toNat_lt_of_isDigit (Nat.isDigit_of_mem_toDigits (by decide) (by decide) member)
  rw [decimal_eq, utf8_length_of_ascii ascii]
  exact Nat.length_toDigits_le_iff (by decide) positive

/-- `snprintf(name, size, "stem%d", n)` -/
def numbered (size : ℕ) (stem : Bytes) (n : ℕ) : Bytes := strncpy size (stem ++ decimal n)

theorem numbered_eq {size n : ℕ} {stem : Bytes} (room : stem.length + 1 < size)
    (few : n < 10 ^ (size - stem.length - 1)) : numbered size stem n = stem ++ decimal n := by
  have digits := (decimal_length_le (by omega)).mpr few
  refine strncpy_of_lt ?_
  rw [List.length_append]
  omega

theorem numbered_injective {size m n : ℕ} {stem : Bytes} (room : stem.length + 1 < size)
    (small : m < 10 ^ (size - stem.length - 1)) (few : n < 10 ^ (size - stem.length - 1))
    (same : numbered size stem m = numbered size stem n) : m = n := by
  rw [numbered_eq room small, numbered_eq room few] at same
  exact decimal_injective (List.append_cancel_left same)

end Text
