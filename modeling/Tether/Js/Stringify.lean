import Tether.Js.Value
import Tether.Text.Scan

/-!
# JSON.stringify

The compact serialisation, as the text that goes on the wire. Quotes,
backslashes and control characters are escaped, and so is an unpaired
surrogate, so the output is always a text.

## Main definitions

* `Js.quoteBody` — the text between the quotes of a serialised string
* `Js.stringify` — the text of a value
* `Js.body` — the bytes between the quotes of a serialised string

## Main results

* `body_wellFormed` — a serialised string is a well-formed token
* `body_ofAscii` — plain ASCII is written as it is
* `body_eq_iff`, `endsQuoted_body` — what the escaped text says about the string
-/

namespace Js

open Text

/-! ### Strings -/

def isHighSurrogate (u : UInt16) : Bool := 0xD800 ≤ u.toNat && u.toNat < 0xDC00

def isLowSurrogate (u : UInt16) : Bool := 0xDC00 ≤ u.toNat && u.toNat < 0xE000

/-- A lower-case hexadecimal digit. -/
def hexDigit (n : ℕ) : Char := if n < 10 then Char.ofNat (48 + n) else Char.ofNat (87 + n)

/-- The `\uXXXX` escape of a code unit. -/
def unicodeEscape (u : UInt16) : List Char :=
  ['\\', 'u', hexDigit (u.toNat / 4096), hexDigit (u.toNat / 256 % 16),
    hexDigit (u.toNat / 16 % 16), hexDigit (u.toNat % 16)]

/-- A code unit that no other one completes to a pair. -/
def quoteUnit (u : UInt16) : List Char :=
  match u.toNat with
  | 8 => ['\\', 'b']
  | 9 => ['\\', 't']
  | 10 => ['\\', 'n']
  | 12 => ['\\', 'f']
  | 13 => ['\\', 'r']
  | 34 => ['\\', Char.ofNat 34]
  | 92 => ['\\', '\\']
  | n =>
    if n < 32 || isHighSurrogate u || isLowSurrogate u then unicodeEscape u
    else [Char.ofNat n]

/-- The character a surrogate pair encodes. -/
def pairChar (high low : UInt16) : Char :=
  Char.ofNat (0x10000 + (high.toNat - 0xD800) * 0x400 + (low.toNat - 0xDC00))

/-- The text between the quotes of a serialised string. -/
def quoteBody : Str → List Char
  | [] => []
  | [u] => quoteUnit u
  | u :: v :: rest =>
    if isHighSurrogate u && isLowSurrogate v then pairChar u v :: quoteBody rest
    else quoteUnit u ++ quoteBody (v :: rest)

/-- The quoted text of a string. -/
def quoteText (s : Str) : List Char := Char.ofNat 34 :: quoteBody s ++ [Char.ofNat 34]

/-! ### Values -/

mutual

/-- `JSON.stringify(value)` -/
def stringify : Value → List Char
  | .null => ['n', 'u', 'l', 'l']
  | .bool true => ['t', 'r', 'u', 'e']
  | .bool false => ['f', 'a', 'l', 's', 'e']
  | .num n =>
    match n.value with
    | .fin _ => n.text
    | _ => ['n', 'u', 'l', 'l']
  | .str s => quoteText s
  | .arr [] => ['[', ']']
  | .arr (element :: rest) => '[' :: stringify element ++ stringifyElements rest
  | .obj [] => ['\x7b', '\x7d']
  | .obj ((key, value) :: rest) =>
    '\x7b' :: quoteText key ++ ':' :: stringify value ++ stringifyMembers rest

/-- The remaining elements, each after a comma, and the closing bracket. -/
def stringifyElements : List Value → List Char
  | [] => [']']
  | element :: rest => ',' :: stringify element ++ stringifyElements rest

/-- The remaining members, each after a comma, and the closing brace. -/
def stringifyMembers : List (Str × Value) → List Char
  | [] => ['\x7d']
  | (key, value) :: rest =>
    ',' :: quoteText key ++ ':' :: stringify value ++ stringifyMembers rest

end

/-! ### The bytes of a string -/

/-- The bytes between the quotes of a serialised string. -/
def body (s : Str) : Bytes := utf8 (quoteBody s)

theorem utf8_quoteText (s : Str) : utf8 (quoteText s) = quote :: body s ++ [quote] := by
  rw [quoteText, List.cons_append, utf8_cons, utf8_append]
  rfl

@[simp] theorem body_nil : body [] = [] := rfl

/-- The bytes of one code unit on its own. -/
def unitBytes (u : UInt16) : Bytes := utf8 (quoteUnit u)

/-- Either the first two units form a pair, or the first stands on its own. -/
theorem body_cons (u : UInt16) (rest : Str) :
    (∃ v more, rest = v :: more ∧ isHighSurrogate u ∧ isLowSurrogate v ∧
      body (u :: rest) = String.utf8EncodeChar (pairChar u v) ++ body more) ∨
    body (u :: rest) = unitBytes u ++ body rest := by
  cases rest with
  | nil => right; simp [body, quoteBody, unitBytes]
  | cons v more =>
    by_cases pair : isHighSurrogate u && isLowSurrogate v
    · left
      obtain ⟨high, low⟩ := Bool.and_eq_true .. ▸ pair
      exact ⟨v, more, rfl, high, low, by simp [body, quoteBody, pair]⟩
    · right
      simp [body, quoteBody, pair, unitBytes]

/-- A unit below the surrogates stands on its own whatever follows. -/
theorem body_cons_of_not_high {u : UInt16} (single : isHighSurrogate u = false) (rest : Str) :
    body (u :: rest) = unitBytes u ++ body rest := by
  rcases body_cons u rest with ⟨v, more, -, high, -⟩ | same
  · simp [single] at high
  · exact same

theorem pairChar_wide {u v : UInt16} (high : isHighSurrogate u) (low : isLowSurrogate v) :
    128 ≤ (pairChar u v).toNat := by
  simp only [isHighSurrogate, isLowSurrogate, Bool.and_eq_true, decide_eq_true_eq] at high low
  have valid : Nat.isValidChar
      (0x10000 + (u.toNat - 0xD800) * 0x400 + (v.toNat - 0xDC00)) := by
    right
    omega
  rw [pairChar, toNat_charOfNat valid]
  omega

/-- The bytes that serialise one character. -/
def charBytes (c : Char) : Bytes :=
  if c.toNat < 0x10000 then unitBytes (UInt16.ofNat c.toNat) else String.utf8EncodeChar c

/-- Beyond ASCII a character stands for itself. -/
theorem charBytes_of_wide {c : Char} (wide : 128 ≤ c.toNat) :
    charBytes c = String.utf8EncodeChar c := by
  have valid : c.toNat < 0xD800 ∨ 0xDFFF < c.toNat ∧ c.toNat < 0x110000 := c.valid
  rw [charBytes]
  split_ifs with plane
  · have value : (UInt16.ofNat c.toNat).toNat = c.toNat := UInt16.toNat_ofNat_of_lt' plane
    have single : (decide (c.toNat < 32) || isHighSurrogate (UInt16.ofNat c.toNat) ||
        isLowSurrogate (UInt16.ofNat c.toNat)) = false := by
      simp only [isHighSurrogate, isLowSurrogate, value, Bool.or_eq_false_iff,
        Bool.and_eq_false_iff, decide_eq_false_iff_not]
      omega
    rw [unitBytes, quoteUnit, value]
    split
    all_goals try omega
    rw [if_neg (by rw [single]; decide), Char.ofNat_toNat, utf8_cons, utf8_nil, List.append_nil]
  · rfl

/-- A text is serialised character by character. -/
theorem body_utf16_cons (c : Char) (text : List Char) :
    body (utf16 (c :: text)) = charBytes c ++ body (utf16 text) := by
  have valid : c.toNat < 0xD800 ∨ 0xDFFF < c.toNat ∧ c.toNat < 0x110000 := c.valid
  rw [utf16, List.flatMap_cons, ← utf16, utf16Char, charBytes]
  -- beyond the first plane a character is a pair of surrogates, and read as one again
  by_cases plane : c.toNat < 0x10000
  · have value : (UInt16.ofNat c.toNat).toNat = c.toNat := UInt16.toNat_ofNat_of_lt' plane
    rw [if_pos plane, if_pos plane, List.singleton_append]
    refine body_cons_of_not_high ?_ _
    rw [isHighSurrogate, value, Bool.and_eq_false_iff, decide_eq_false_iff_not,
      decide_eq_false_iff_not]
    omega
  · have first : (UInt16.ofNat (0xD800 + (c.toNat - 0x10000) / 0x400)).toNat =
        0xD800 + (c.toNat - 0x10000) / 0x400 :=
      UInt16.toNat_ofNat_of_lt' (lt_of_lt_of_le (by omega : _ < 0xDC00) (by decide))
    have second : (UInt16.ofNat (0xDC00 + (c.toNat - 0x10000) % 0x400)).toNat =
        0xDC00 + (c.toNat - 0x10000) % 0x400 :=
      UInt16.toNat_ofNat_of_lt' (lt_of_lt_of_le (by omega : _ < 0xE000) (by decide))
    have pair : (isHighSurrogate (UInt16.ofNat (0xD800 + (c.toNat - 0x10000) / 0x400)) &&
        isLowSurrogate (UInt16.ofNat (0xDC00 + (c.toNat - 0x10000) % 0x400))) = true := by
      simp only [isHighSurrogate, isLowSurrogate, first, second, Bool.and_eq_true,
        decide_eq_true_eq]
      omega
    have char : pairChar (UInt16.ofNat (0xD800 + (c.toNat - 0x10000) / 0x400))
        (UInt16.ofNat (0xDC00 + (c.toNat - 0x10000) % 0x400)) = c := by
      have number : 0x10000 + (0xD800 + (c.toNat - 0x10000) / 0x400 - 0xD800) * 0x400 +
          (0xDC00 + (c.toNat - 0x10000) % 0x400 - 0xDC00) = c.toNat := by omega
      rw [pairChar, first, second, number, Char.ofNat_toNat]
    rw [if_neg plane, if_neg plane, List.cons_append, List.singleton_append, body, quoteBody,
      if_pos pair, utf8_cons, char]
    rfl

private theorem utf8_hexDigit : ∀ n < 16, ∃ b : UInt8,
    String.utf8EncodeChar (hexDigit n) = [b] ∧ b ≠ 0 ∧ b ≠ quote ∧ b ≠ backslash := by
  intro n small
  have ascii : ∀ n < 16, (hexDigit n).toNat < 128 ∧ (hexDigit n).toNat ≠ 0 ∧
      (hexDigit n).toNat ≠ 34 ∧ (hexDigit n).toNat ≠ 92 := by decide
  obtain ⟨low, nonzero, notQuote, notBackslash⟩ := ascii n small
  refine ⟨_, utf8EncodeChar_ascii low, ?_⟩
  have same : (UInt8.ofNat (hexDigit n).toNat).toNat = (hexDigit n).toNat :=
    UInt8.toNat_ofNat_of_lt' (lt_trans low (by decide))
  refine ⟨?_, ?_, ?_⟩ <;> intro equal <;> rw [equal] at same
  exacts [nonzero same.symm, notQuote same.symm, notBackslash same.symm]

/-- The three shapes of the bytes of one unit: an escape of two bytes, an
escape of six, or a character that stands for itself. -/
theorem unitBytes_cases (u : UInt16) :
    (∃ b, unitBytes u = [backslash, b] ∧ b ≠ 0 ∧ (b = quote ↔ u = 34)) ∨
    (∃ digits, unitBytes u = backslash :: 117 :: digits ∧ u ≠ 34 ∧
      ∀ b ∈ digits, b ≠ 0 ∧ b ≠ quote ∧ b ≠ backslash) ∨
    (u ≠ 34 ∧ (PlainByte (UInt8.ofNat u.toNat) ∧ u.toNat < 128 ∧
        unitBytes u = [UInt8.ofNat u.toNat] ∨
      unitBytes u ≠ [] ∧ ∀ b ∈ unitBytes u, 128 ≤ b.toNat)) := by
  have number (n : ℕ) (small : n < 65536) (h : u.toNat = n) : u = UInt16.ofNat n := by
    rw [← h, UInt16.ofNat_toNat]
  rw [unitBytes, quoteUnit]
  split
  case h_1 h => exact .inl ⟨98, by decide, by decide, by rw [number _ (by decide) h]; decide⟩
  case h_2 h => exact .inl ⟨116, by decide, by decide, by rw [number _ (by decide) h]; decide⟩
  case h_3 h => exact .inl ⟨110, by decide, by decide, by rw [number _ (by decide) h]; decide⟩
  case h_4 h => exact .inl ⟨102, by decide, by decide, by rw [number _ (by decide) h]; decide⟩
  case h_5 h => exact .inl ⟨114, by decide, by decide, by rw [number _ (by decide) h]; decide⟩
  case h_6 h => exact .inl ⟨34, by decide, by decide, by rw [number _ (by decide) h]; decide⟩
  case h_7 h => exact .inl ⟨92, by decide, by decide, by rw [number _ (by decide) h]; decide⟩
  case h_8 notQuote notBackslash =>
    right
    have different : u ≠ 34 := fun same => notQuote (by rw [same]; rfl)
    split_ifs with escaped
    · left
      obtain ⟨a, first, ha⟩ := utf8_hexDigit (u.toNat / 4096) (by have := u.toNat_lt; omega)
      obtain ⟨b, second, hb⟩ := utf8_hexDigit (u.toNat / 256 % 16) (Nat.mod_lt _ (by decide))
      obtain ⟨c, third, hc⟩ := utf8_hexDigit (u.toNat / 16 % 16) (Nat.mod_lt _ (by decide))
      obtain ⟨d, fourth, hd⟩ := utf8_hexDigit (u.toNat % 16) (Nat.mod_lt _ (by decide))
      refine ⟨[a, b, c, d], ?_, different, ?_⟩
      · simp only [unicodeEscape, utf8_cons, utf8_nil, first, second, third, fourth]
        rfl
      · simp only [List.mem_cons, List.not_mem_nil, or_false]
        rintro x (rfl | rfl | rfl | rfl)
        exacts [ha, hb, hc, hd]
    · right
      simp only [Bool.or_eq_true, decide_eq_true_eq, not_or, isHighSurrogate, isLowSurrogate,
        Bool.and_eq_true, not_and] at escaped
      have valid : Nat.isValidChar u.toNat := by
        have := u.toNat_lt
        rcases Nat.lt_or_ge u.toNat 0xD800 with low | high
        · exact .inl low
        · exact .inr (by omega)
      have value : (Char.ofNat u.toNat).toNat = u.toNat := toNat_charOfNat valid
      refine ⟨different, ?_⟩
      rcases Nat.lt_or_ge u.toNat 128 with ascii | wide
      · left
        have byte : (UInt8.ofNat u.toNat).toNat = u.toNat :=
          UInt8.toNat_ofNat_of_lt' (lt_trans ascii (by decide))
        refine ⟨⟨by omega, by omega, ?_, ?_⟩, ascii, ?_⟩
        · intro equal
          rw [equal] at byte
          exact notQuote byte.symm
        · intro equal
          rw [equal] at byte
          exact notBackslash byte.symm
        · rw [utf8_cons, utf8EncodeChar_ascii (by omega), value]
          rfl
      · right
        rw [utf8_cons, utf8_nil, List.append_nil]
        exact ⟨String.utf8EncodeChar_ne_nil, fun b member =>
          le_of_mem_utf8EncodeChar (by omega) member⟩

/-- A serialised string is a well-formed token. -/
theorem body_wellFormed (s : Str) : Body (body s) := by
  have wide {text : Bytes} (top : ∀ b ∈ text, 128 ≤ b.toNat) : Body text := by
    refine Body.of_plain fun b member => ?_
    have := top b member
    refine ⟨?_, ?_, ?_⟩ <;> rintro rfl <;> exact absurd this (by decide)
  -- on the length, as a pair takes two units at once
  induction h : s.length using Nat.strong_induction_on generalizing s with
  | _ n ih =>
    cases s with
    | nil => exact .nil
    | cons u rest =>
      rcases body_cons u rest with ⟨v, more, rfl, high, low, pair⟩ | single
      · rw [pair]
        refine Body.append (wide fun b member => ?_) (ih more.length (by simp at h; omega) more rfl)
        exact le_of_mem_utf8EncodeChar (pairChar_wide high low) member
      · rw [single]
        refine Body.append ?_ (ih rest.length (by simp at h; omega) rest rfl)
        rcases unitBytes_cases u with ⟨b, shape, nonzero, -⟩ | ⟨digits, shape, -, plain⟩ | ⟨-, own⟩
        · rw [shape]
          exact .escape nonzero .nil
        · rw [shape]
          exact .escape (by decide) (Body.of_plain plain)
        · rcases own with ⟨plain, -, shape⟩ | ⟨-, top⟩
          · rw [shape]
            refine .plain ?_ plain.2.2.1 plain.2.2.2 .nil
            intro zero
            have := plain.1
            rw [zero] at this
            exact absurd this (by decide)
          · exact wide top

/-! ### Reading a string off its escaped text -/

private theorem unitBytes_of_plain {b : UInt8} (plain : PlainByte b) :
    unitBytes (UInt16.ofNat b.toNat) = [b] := by
  obtain ⟨low, high, notQuote, notBackslash⟩ := plain
  have table : ∀ n < 128, 32 ≤ n → n ≠ 34 → n ≠ 92 →
      unitBytes (UInt16.ofNat n) = [UInt8.ofNat n] := by decide
  have shape := table b.toNat high low (fun same => notQuote (UInt8.toNat_inj.mp same))
    (fun same => notBackslash (UInt8.toNat_inj.mp same))
  rw [shape, UInt8.ofNat_toNat]

/-- Plain ASCII is written as it is. -/
theorem body_ofAscii {text : Bytes} (plain : ∀ b ∈ text, PlainByte b) :
    body (ofAscii text) = text := by
  induction text with
  | nil => rfl
  | cons b rest ih =>
    have single : isHighSurrogate (UInt16.ofNat b.toNat) = false := by
      have small := (plain b (by simp)).2.1
      have same : (UInt16.ofNat b.toNat).toNat = b.toNat :=
        UInt16.toNat_ofNat_of_lt' (lt_trans small (by decide))
      simp only [isHighSurrogate, same, Bool.and_eq_false_iff, decide_eq_false_iff_not]
      omega
    rw [ofAscii, List.map_cons, body_cons_of_not_high single,
      unitBytes_of_plain (plain b (by simp))]
    exact congrArg (b :: ·) (ih fun c member => plain c (by simp [member]))

/-- Only the plain string itself is written as a plain text. -/
theorem body_eq_iff {text : Bytes} (plain : ∀ b ∈ text, PlainByte b) {s : Str} :
    body s = text ↔ s = ofAscii text := by
  refine ⟨fun same => ?_, fun same => by rw [same, body_ofAscii plain]⟩
  induction text generalizing s with
  | nil =>
    cases s with
    | nil => rfl
    | cons u rest =>
      rcases body_cons u rest with ⟨v, more, -, -, -, pair⟩ | single
      · simp [pair] at same
      · rw [single, List.append_eq_nil_iff] at same
        rcases unitBytes_cases u with ⟨b, shape, -⟩ | ⟨digits, shape, -⟩ | ⟨-, own⟩
        · simp [same.1] at shape
        · simp [same.1] at shape
        · rcases own with ⟨-, -, shape⟩ | ⟨nonempty, -⟩
          · simp [same.1] at shape
          · exact absurd same.1 nonempty
  | cons c text ih =>
    obtain ⟨-, small, -, notBackslash⟩ := plain c (by simp)
    cases s with
    | nil => simp at same
    | cons u rest =>
      rcases body_cons u rest with ⟨v, more, -, high, low, pair⟩ | single
      · -- a pair starts with a byte beyond ASCII
        obtain ⟨first, others, shape⟩ :=
          List.exists_cons_of_ne_nil (String.utf8EncodeChar_ne_nil (c := pairChar u v))
        have top := le_of_mem_utf8EncodeChar (pairChar_wide high low)
          (show first ∈ String.utf8EncodeChar (pairChar u v) by simp [shape])
        rw [pair, shape, List.cons_append, List.cons.injEq] at same
        rw [same.1] at top
        omega
      · rw [single] at same
        rcases unitBytes_cases u with ⟨b, shape, -⟩ | ⟨digits, shape, -⟩ | ⟨-, own⟩
        · rw [shape, List.cons_append, List.cons.injEq] at same
          exact absurd same.1.symm notBackslash
        · rw [shape, List.cons_append, List.cons.injEq] at same
          exact absurd same.1.symm notBackslash
        · rcases own with ⟨-, ascii, shape⟩ | ⟨nonempty, top⟩
          · rw [shape, List.singleton_append, List.cons.injEq] at same
            have tail := ih (fun d member => plain d (by simp [member])) same.2
            rw [tail, ← same.1, ofAscii, ofAscii, List.map_cons,
              UInt8.toNat_ofNat_of_lt' (lt_trans ascii (by decide)), UInt16.ofNat_toNat]
          · obtain ⟨first, others, shape⟩ := List.exists_cons_of_ne_nil nonempty
            have := top first (by simp [shape])
            rw [shape, List.cons_append, List.cons.injEq] at same
            rw [same.1] at this
            omega

private theorem endsQuoted_skip (name : Bytes) {text : Bytes}
    (clean : ∀ b ∈ text, b ≠ backslash) (rest : Bytes) :
    EndsQuoted name (text ++ rest) = EndsQuoted name rest := by
  induction text with
  | nil => rfl
  | cons b text ih =>
    rw [List.cons_append, endsQuoted_plain name (clean b (by simp))]
    exact ih fun c member => clean c (by simp [member])

private theorem clean_of_wide {text : Bytes} (top : ∀ b ∈ text, 128 ≤ b.toNat) :
    ∀ b ∈ text, b ≠ backslash := by
  rintro b member rfl
  exact absurd (top _ member) (by decide)

/-- The escaped text ends in an escaped quote followed by a plain name exactly
when the string ends in a quote followed by that name. -/
theorem endsQuoted_body {name : Bytes} (plain : ∀ b ∈ name, PlainByte b) (s : Str) :
    EndsQuoted name (body s) ↔ 34 :: ofAscii name <:+ s := by
  induction h : s.length using Nat.strong_induction_on generalizing s with
  | _ n ih =>
    cases s with
    | nil => simp [EndsQuoted]
    | cons u rest =>
      have shorter := ih rest.length (by simp at h; omega) rest rfl
      rw [List.suffix_cons_iff, List.cons.injEq]
      rcases body_cons u rest with ⟨v, more, rfl, high, low, pair⟩ | single
      · -- neither half of a pair is a quote
        have notFirst : ¬ (34 = u ∧ ofAscii name = v :: more) := by
          rintro ⟨rfl, -⟩
          exact absurd high (by decide)
        have notSecond : ¬ 34 :: ofAscii name = v :: more := by
          intro same
          obtain rfl := (List.cons.inj same).1
          exact absurd low (by decide)
        rw [pair, endsQuoted_skip name (clean_of_wide fun b member =>
            le_of_mem_utf8EncodeChar (pairChar_wide high low) member),
          ih more.length (by simp at h; omega) more rfl, List.suffix_cons_iff]
        tauto
      · rw [single]
        rcases unitBytes_cases u with ⟨b, shape, -, quoted⟩ | ⟨digits, shape, notQuote, clean⟩ |
          ⟨notQuote, own⟩
        · rw [shape, List.cons_append, List.cons_append, List.nil_append, endsQuoted_escape,
            Bool.or_eq_true, Bool.and_eq_true, decide_eq_true_eq, decide_eq_true_eq, quoted,
            body_eq_iff plain, shorter]
          tauto
        · rw [shape, List.cons_append, List.cons_append, endsQuoted_escape,
            endsQuoted_skip name (fun b member => (clean b member).2.2), ← shorter]
          simp [Ne.symm notQuote, show (117 : UInt8) ≠ quote by decide]
        · have clean : ∀ b ∈ unitBytes u, b ≠ backslash := by
            rcases own with ⟨ascii, -, shape⟩ | ⟨-, top⟩
            · rw [shape]
              simpa using ascii.2.2.2
            · exact clean_of_wide top
          rw [endsQuoted_skip name clean, ← shorter]
          simp [Ne.symm notQuote]

end Js
