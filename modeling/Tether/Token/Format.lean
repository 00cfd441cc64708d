import Tether.Text.Bytes

/-!
# Tokens

A token is a prefix and three groups of four characters that cannot be mistaken
for each other. This is what the programs agree on; each of them has its own way
to say it.

## Main definitions

* `IsTokenByte` — the characters of the groups
* `Token`, `Token.text` — a token, well formed by construction, and its text

## Main results

* `Token.forall_mem_text` — what holds of all the characters of a text
-/

namespace Tether

open Text

/-- A digit from 2 on, or an upper-case letter other than I, L and O. -/
def IsTokenByte (b : UInt8) : Prop :=
  50 ≤ b.toNat ∧ b.toNat ≤ 57 ∨
    65 ≤ b.toNat ∧ b.toNat ≤ 90 ∧ b ≠ 73 ∧ b ≠ 76 ∧ b ≠ 79

instance : DecidablePred IsTokenByte := fun _ => inferInstanceAs (Decidable (_ ∨ _))

theorem IsTokenByte.ascii {b : UInt8} (known : IsTokenByte b) : b.toNat < 128 := by
  rw [IsTokenByte] at known
  omega

theorem IsTokenByte.ne {b other : UInt8} (known : IsTokenByte b) (foreign : ¬ IsTokenByte other) :
    b ≠ other := by
  rintro rfl
  exact foreign known

/-- The groups of a token are numbered. -/
instance neZero_three : @NeZero ℕ Zero.ofOfNat0 3 := ⟨Nat.succ_ne_zero 2⟩

/-- Four characters of a token. -/
structure Token.Group where
  text : Bytes
  length : text.length = 4
  characters : ∀ b ∈ text, IsTokenByte b

structure Token where
  first : Token.Group
  second : Token.Group
  third : Token.Group

namespace Token

/-- The dash between the groups. -/
abbrev dash : UInt8 := 45

/-- `TTHR-XXXX-XXXX-XXXX` -/
def text (token : Token) : Bytes :=
  bytes "TTHR-" ++ token.first.text ++ dash :: (token.second.text ++ dash :: token.third.text)

theorem text_length (token : Token) : token.text.length = 19 := by
  have start : (bytes "TTHR-").length = 5 := rfl
  simp [text, start, token.first.length, token.second.length, token.third.length]

/-- What holds of every number below 256 as a byte holds of every byte. -/
theorem forall_byte (property : UInt8 → Prop) (all : ∀ n < 256, property (UInt8.ofNat n))
    (b : UInt8) : property b := by
  have here := all b.toNat b.toNat_lt
  rwa [UInt8.ofNat_toNat] at here

/-- A property of the prefix and of the characters of the groups. -/
theorem forall_mem_text (property : UInt8 → Prop) (start : ∀ b ∈ bytes "TTHR-", property b)
    (character : ∀ b, IsTokenByte b → property b) (token : Token) :
    ∀ b ∈ token.text, property b := by
  have separator : property dash := start dash (by decide)
  have grouped (group : Group) : ∀ b ∈ group.text, property b := by
    intro b member
    exact character b (group.characters b member)
  intro b member
  simp only [text, List.append_assoc, List.mem_append, List.mem_cons] at member
  obtain fixed | first | rfl | second | rfl | third := member
  · exact start b fixed
  · exact grouped token.first b first
  · exact separator
  · exact grouped token.second b second
  · exact separator
  · exact grouped token.third b third

end Token

end Tether
