import Mathlib.Data.List.Basic
import Mathlib.Tactic.Common

/-!
# Byte strings, UTF-8 and the C string functions

A C string is its list of bytes without the terminating NUL, so the end of the
list is where a C loop meets the terminator. A pointer into a string is the
suffix that starts there.

## Main definitions

* `Text.utf8`, `Text.decodeUtf8` — a text as bytes and back
* `Text.strstr` — the suffix at the first occurrence of a needle
* `Text.spanTo` — what lies before the next occurrence of a byte (`strchr`)
* `Text.strncpy` — what a zero-filled buffer holds after a bounded copy
* `Text.PlainByte` — bytes that stand for themselves inside a JSON string
-/

namespace Text

section Bounded

variable {α : Type*} (p : α → Prop) [DecidablePred p] (xs : List α)

/-- A bounded quantifier is decided by walking the list, although there are only finitely
many bytes and units. -/
instance (priority := 1100) decidableForall : Decidable (∀ x ∈ xs, p x) := List.decidableBAll p xs

instance (priority := 1100) decidableExists : Decidable (∃ x ∈ xs, p x) := List.decidableBEx p xs

end Bounded

abbrev Bytes := List UInt8

/-- The UTF-8 encoding of a text. -/
def utf8 (text : List Char) : Bytes := text.flatMap String.utf8EncodeChar

/-- The bytes of a string literal. -/
def bytes (literal : String) : Bytes := utf8 literal.toList

/-- The text a byte string encodes, if it is valid UTF-8. -/
def decodeUtf8 (encoded : Bytes) : Option (List Char) :=
  encoded.toByteArray.utf8Decode?.map Array.toList

theorem decodeUtf8_utf8 (text : List Char) : decodeUtf8 (utf8 text) = some text := by
  have encoded : (utf8 text).toByteArray = text.utf8Encode := rfl
  rw [decodeUtf8, encoded, List.utf8Decode?_utf8Encode]
  simp

/-- UTF-8 loses nothing. -/
theorem utf8_injective : Function.Injective utf8 := by
  intro first second same
  have decoded := decodeUtf8_utf8 first
  rw [same, decodeUtf8_utf8] at decoded
  exact (Option.some.inj decoded).symm

@[simp] theorem utf8_nil : utf8 [] = [] := rfl

@[simp] theorem utf8_cons (c : Char) (text : List Char) :
    utf8 (c :: text) = String.utf8EncodeChar c ++ utf8 text := rfl

@[simp] theorem utf8_append (first second : List Char) :
    utf8 (first ++ second) = utf8 first ++ utf8 second :=
  List.flatMap_append

/-! ### Characters and their bytes -/

theorem toNat_charOfNat {n : ℕ} (valid : n.isValidChar) : (Char.ofNat n).toNat = n := by
  rw [Char.ofNat, dif_pos valid]
  rfl

theorem utf8EncodeChar_ascii {c : Char} (ascii : c.toNat < 128) :
    String.utf8EncodeChar c = [UInt8.ofNat c.toNat] := by
  have small : c.val.toNat ≤ 0x7f := by
    change c.toNat ≤ 127
    omega
  simp only [String.utf8EncodeChar, small, ↓reduceIte]
  rfl

/-- Beyond ASCII every byte of a character has its top bit set. -/
theorem le_of_mem_utf8EncodeChar {c : Char} (wide : 128 ≤ c.toNat) {b : UInt8}
    (member : b ∈ String.utf8EncodeChar c) : 128 ≤ b.toNat := by
  have large : ¬ c.val.toNat ≤ 0x7f := by
    change ¬ c.toNat ≤ 127
    omega
  have top (n : ℕ) (lower : 128 ≤ n) (upper : n < 256) : 128 ≤ (UInt8.ofNat n).toNat := by
    rw [UInt8.toNat_ofNat_of_lt' (by simpa using upper)]
    exact lower
  simp only [String.utf8EncodeChar, large, ↓reduceIte] at member
  split_ifs at member <;>
    simp only [List.mem_cons, List.not_mem_nil, or_false] at member <;>
    rcases member with rfl | rfl | rfl | rfl <;>
    exact top _ (by omega) (by omega)

/-! ### The C string functions -/

/-- `strstr(hay, needle)`: the suffix of `hay` at the first occurrence. -/
def strstr (needle : Bytes) : Bytes → Option Bytes
  | [] => if needle.isPrefixOf [] then some [] else none
  | b :: rest => if needle.isPrefixOf (b :: rest) then some (b :: rest) else strstr needle rest

/-- The bytes between a pointer and the next occurrence of `stop` after it, as
code that calls `strchr` and subtracts the two pointers takes them. -/
def spanTo (stop : UInt8) (start : Bytes) : Option Bytes :=
  if stop ∈ start then some (start.takeWhile (· != stop)) else none

/-- The string a zero-filled buffer of `size` bytes holds after
`strncpy(buffer, source, size - 1)`. -/
def strncpy (size : ℕ) (source : Bytes) : Bytes := source.take (size - 1)

theorem strncpy_of_lt {size : ℕ} {source : Bytes} (fits : source.length < size) :
    strncpy size source = source :=
  List.take_of_length_le (by omega)

theorem strncpy_length_lt {size : ℕ} (positive : 0 < size) (source : Bytes) :
    (strncpy size source).length < size := by
  rw [strncpy, List.length_take]
  omega

/-- A second copy into a buffer of the same size changes nothing. -/
theorem strncpy_strncpy (size : ℕ) (source : Bytes) :
    strncpy size (strncpy size source) = strncpy size source := by
  rw [strncpy, strncpy, List.take_take, Nat.min_self]

/-! ### Plain bytes -/

/-- The double quote. -/
abbrev quote : UInt8 := 34

/-- The backslash. -/
abbrev backslash : UInt8 := 92

/-- Printable ASCII other than the quote and the backslash: a byte that a JSON
string holds unescaped and that no other character's encoding contains. -/
def PlainByte (b : UInt8) : Prop :=
  32 ≤ b.toNat ∧ b.toNat < 128 ∧ b ≠ quote ∧ b ≠ backslash

instance : DecidablePred PlainByte := fun _ => inferInstanceAs (Decidable (_ ∧ _ ∧ _ ∧ _))

end Text
