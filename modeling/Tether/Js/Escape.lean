import Mathlib.Data.List.TakeWhile
import Tether.Js.Stringify

/-!
# What escaping does to a text

A text is serialised byte by byte: quotes, backslashes and control characters are
escaped, all other bytes are written as they are. A reader that stops at the first
quote and cuts what it has read to a length therefore gets the beginning of the
text, unless it meets an escape.

## Main definitions

* `Clean` — a byte that is written as it is
* `escapedByte` — how one byte of a text is serialised
* `SurvivesCut` — the beginning of a text is read as it is

## Main results

* `body_utf16` — a text is serialised byte by byte
* `body_utf16_eq_iff` — only clean texts are written as they are
* `take_unescaped_iff` — what a reader gets that stops at the first quote
-/

namespace Js

open Text

/-! ### Bytes -/

/-- A byte of a text that its serialisation leaves alone. -/
def Clean (b : UInt8) : Prop := 32 ≤ b.toNat ∧ b ≠ quote ∧ b ≠ backslash

instance : DecidablePred Clean := fun _ => inferInstanceAs (Decidable (_ ∧ _ ∧ _))

/-- How one byte of a text is serialised. -/
def escapedByte (b : UInt8) : Bytes :=
  if b.toNat < 128 then unitBytes (UInt16.ofNat b.toNat) else [b]

theorem escapedByte_of_wide {b : UInt8} (wide : 128 ≤ b.toNat) : escapedByte b = [b] :=
  if_neg (by omega)

theorem escapedByte_of_clean {b : UInt8} (clean : Clean b) : escapedByte b = [b] := by
  obtain ⟨printable, notQuote, notBackslash⟩ := clean
  rcases Nat.lt_or_ge b.toNat 128 with ascii | wide
  · have whole : body (ofAscii [b]) = [b] := by
      refine body_ofAscii fun c member => ?_
      rw [List.mem_singleton.mp member]
      exact ⟨printable, ascii, notQuote, notBackslash⟩
    rw [escapedByte, if_pos ascii]
    exact whole
  · exact escapedByte_of_wide wide

/-- Every other byte is written as a backslash and more, the backslash as two of
them. -/
theorem escapedByte_of_not_clean {b : UInt8} (special : ¬ Clean b) :
    ∃ c more, escapedByte b = backslash :: c :: more ∧
      (b = backslash → c = backslash ∧ more = []) := by
  -- the bytes that are escaped are few enough to look at each
  have table : ∀ n < 128, (n < 32 ∨ n = 34 ∨ n = 92) →
      (unitBytes (UInt16.ofNat n)).take 1 = [92] ∧ 2 ≤ (unitBytes (UInt16.ofNat n)).length := by
    decide
  have code : b.toNat < 32 ∨ b.toNat = 34 ∨ b.toNat = 92 := by
    by_contra printable
    simp only [not_or, Nat.not_lt] at printable
    refine special ⟨printable.1, ?_, ?_⟩
    · rintro rfl
      exact printable.2.1 rfl
    · rintro rfl
      exact printable.2.2 rfl
  have ascii : b.toNat < 128 := by omega
  obtain ⟨first, two⟩ := table b.toNat ascii code
  have escaped : escapedByte b = unitBytes (UInt16.ofNat b.toNat) := if_pos ascii
  rw [← escaped] at first two
  obtain ⟨a, c, more, shape⟩ : ∃ a c more, escapedByte b = a :: c :: more := by
    match shape : escapedByte b, two with
    | a :: c :: more, _ => exact ⟨a, c, more, rfl⟩
  rw [shape] at first
  obtain rfl : a = backslash := (List.cons.inj first).1
  refine ⟨c, more, shape, ?_⟩
  rintro rfl
  have same : backslash :: c :: more = [backslash, backslash] := shape.symm.trans (by decide)
  exact ⟨(List.cons.inj (List.cons.inj same).2).1, (List.cons.inj (List.cons.inj same).2).2⟩

/-! ### Texts -/

theorem flatMap_escapedByte_of_wide {encoded : Bytes} (top : ∀ b ∈ encoded, 128 ≤ b.toNat) :
    encoded.flatMap escapedByte = encoded := by
  induction encoded with
  | nil => rfl
  | cons b rest ih =>
    rw [List.flatMap_cons, escapedByte_of_wide (top b List.mem_cons_self),
      ih fun c member => top c (List.mem_cons_of_mem _ member)]
    rfl

/-- A text is serialised byte by byte. -/
theorem body_utf16 (text : List Char) :
    body (utf16 text) = (utf8 text).flatMap escapedByte := by
  induction text with
  | nil => rfl
  | cons c rest ih =>
    rw [body_utf16_cons, utf8_cons, List.flatMap_append, ih]
    congr 1
    rcases Nat.lt_or_ge c.toNat 128 with ascii | wide
    · have code : (UInt8.ofNat c.toNat).toNat = c.toNat :=
        UInt8.toNat_ofNat_of_lt' (lt_trans ascii (by decide))
      rw [utf8EncodeChar_ascii ascii, charBytes, if_pos (lt_trans ascii (by decide)),
        List.flatMap_singleton, escapedByte, code, if_pos ascii]
    · rw [charBytes_of_wide wide,
        flatMap_escapedByte_of_wide fun b member => le_of_mem_utf8EncodeChar wide member]

theorem length_le_flatMap_escapedByte (encoded : Bytes) :
    encoded.length ≤ (encoded.flatMap escapedByte).length := by
  induction encoded with
  | nil => exact le_rfl
  | cons b rest ih =>
    have nonempty : 1 ≤ (escapedByte b).length := by
      by_cases clean : Clean b
      · rw [escapedByte_of_clean clean, List.length_singleton]
      · obtain ⟨c, more, shape, -⟩ := escapedByte_of_not_clean clean
        rw [shape, List.length_cons]
        omega
    rw [List.flatMap_cons, List.length_append, List.length_cons]
    omega

/-- Only clean texts are written as they are. -/
theorem flatMap_escapedByte_eq_iff (encoded : Bytes) :
    encoded.flatMap escapedByte = encoded ↔ ∀ b ∈ encoded, Clean b := by
  induction encoded with
  | nil => exact iff_of_true rfl (by simp)
  | cons b rest ih =>
    rw [List.flatMap_cons, List.forall_mem_cons]
    by_cases clean : Clean b
    · rw [escapedByte_of_clean clean, List.singleton_append, List.cons.injEq, ih]
      simp only [true_and, clean]
    · refine iff_of_false (fun same => ?_) fun both => clean both.1
      obtain ⟨c, more, shape, -⟩ := escapedByte_of_not_clean clean
      have lengths := congrArg List.length same
      have longer := length_le_flatMap_escapedByte rest
      simp only [shape, List.length_append, List.length_cons] at lengths
      omega

theorem body_utf16_eq_iff (text : List Char) :
    body (utf16 text) = utf8 text ↔ ∀ b ∈ utf8 text, Clean b := by
  rw [body_utf16, flatMap_escapedByte_eq_iff]

/-! ### Reading up to the first quote -/

/-- The first bytes of the text, `n` at most, are clean, but for backslashes that
fill the length up. -/
def SurvivesCut (n : ℕ) (text : Bytes) : Prop :=
  ∃ clean j, text.take n = clean ++ List.replicate j backslash ∧ (∀ b ∈ clean, Clean b) ∧
    (j = 0 ∨ clean.length + j = n)

/-- What stands before the first quote of a serialised text. -/
def unescaped (text : Bytes) : Bytes := (text.flatMap escapedByte).takeWhile (· != quote)

theorem unescaped_cons_clean {b : UInt8} (clean : Clean b) (rest : Bytes) :
    unescaped (b :: rest) = b :: unescaped rest := by
  rw [unescaped, List.flatMap_cons, escapedByte_of_clean clean, List.singleton_append,
    List.takeWhile_cons_of_pos (by simpa using clean.2.1), unescaped]

theorem unescaped_cons_backslash (rest : Bytes) :
    unescaped (backslash :: rest) = backslash :: backslash :: unescaped rest := by
  have escaped : escapedByte backslash = [backslash, backslash] := by decide
  rw [unescaped, List.flatMap_cons, escaped, List.cons_append, List.singleton_append,
    List.takeWhile_cons_of_pos (by decide), List.takeWhile_cons_of_pos (by decide), unescaped]

/-- Otherwise the first byte is read as a backslash. -/
theorem unescaped_cons_special {b : UInt8} (special : ¬ Clean b) (rest : Bytes) :
    ∃ more, unescaped (b :: rest) = backslash :: more := by
  obtain ⟨c, more, shape, -⟩ := escapedByte_of_not_clean special
  rw [unescaped, List.flatMap_cons, shape, List.cons_append,
    List.takeWhile_cons_of_pos (by decide)]
  exact ⟨_, rfl⟩

/-- Behind a surplus backslash only backslashes are read as they are. -/
theorem take_surplus_iff (n m : ℕ) (text : Bytes) :
    (List.replicate (m + 1) backslash ++ unescaped text).take n = text.take n ↔
      text.take n = List.replicate n backslash := by
  induction n generalizing m text with
  | zero => simp
  | succ n ih =>
    cases text with
    | nil => simp [List.replicate_succ]
    | cons b rest =>
      rw [List.replicate_succ, List.cons_append, List.take_succ_cons, List.take_succ_cons,
        List.replicate_succ, List.cons.injEq, List.cons.injEq]
      by_cases same : b = backslash
      · subst same
        have more : List.replicate m backslash ++ unescaped (backslash :: rest) =
            List.replicate (m + 1 + 1) backslash ++ unescaped rest := by
          rw [unescaped_cons_backslash, List.replicate_succ', List.replicate_succ']
          simp
        rw [more, ih (m + 1) rest]
      · simp only [same, Ne.symm same, false_and]

theorem SurvivesCut.nil (n : ℕ) : SurvivesCut n [] :=
  ⟨[], 0, by simp, by simp, .inl rfl⟩

theorem survivesCut_cons_clean {b : UInt8} (clean : Clean b) (n : ℕ) (rest : Bytes) :
    SurvivesCut (n + 1) (b :: rest) ↔ SurvivesCut n rest := by
  constructor
  · rintro ⟨front, j, same, all, fills⟩
    rw [List.take_succ_cons] at same
    cases front with
    | nil =>
      -- a clean byte is no backslash
      cases j with
      | zero => cases same
      | succ j => exact absurd (List.cons.inj same).1 clean.2.2
    | cons c front =>
      refine ⟨front, j, (List.cons.inj same).2, fun d member => all d (by simp [member]), ?_⟩
      rw [List.length_cons] at fills
      omega
  · rintro ⟨front, j, same, all, fills⟩
    refine ⟨b :: front, j, by rw [List.take_succ_cons, same, List.cons_append], ?_, ?_⟩
    · exact List.forall_mem_cons.mpr ⟨clean, all⟩
    · rw [List.length_cons]
      omega

theorem survivesCut_cons_special {b : UInt8} (special : ¬ Clean b) (n : ℕ) (rest : Bytes) :
    SurvivesCut (n + 1) (b :: rest) ↔ b = backslash ∧ rest.take n = List.replicate n backslash := by
  constructor
  · rintro ⟨front, j, same, all, fills⟩
    rw [List.take_succ_cons] at same
    cases front with
    | nil =>
      obtain rfl | rfl : j = 0 ∨ j = n + 1 := by simpa using fills
      · cases same
      · exact ⟨(List.cons.inj same).1, (List.cons.inj same).2⟩
    | cons c front =>
      obtain rfl : b = c := (List.cons.inj same).1
      exact absurd (all b List.mem_cons_self) special
  · rintro ⟨rfl, same⟩
    refine ⟨[], n + 1, ?_, by simp, .inr (by simp)⟩
    rw [List.take_succ_cons, same, List.replicate_succ]
    rfl

/-- Up to the first quote, and up to the length, the text itself is read exactly
if its beginning survives. -/
theorem take_unescaped_iff (n : ℕ) (text : Bytes) :
    (unescaped text).take n = text.take n ↔ SurvivesCut n text := by
  induction text generalizing n with
  | nil => exact iff_of_true rfl (.nil n)
  | cons b rest ih =>
    cases n with
    | zero => exact iff_of_true rfl ⟨[], 0, by simp, by simp, .inl rfl⟩
    | succ n =>
      by_cases clean : Clean b
      · rw [unescaped_cons_clean clean, survivesCut_cons_clean clean, List.take_succ_cons,
          List.take_succ_cons, List.cons.injEq, ih]
        simp only [true_and]
      · rw [survivesCut_cons_special clean]
        by_cases same : b = backslash
        · subst same
          have surplus := take_surplus_iff n 0 rest
          rw [unescaped_cons_backslash, List.take_succ_cons, List.take_succ_cons, List.cons.injEq]
          simp only [true_and]
          exact surplus
        · obtain ⟨more, shape⟩ := unescaped_cons_special clean rest
          rw [shape, List.take_succ_cons, List.take_succ_cons, List.cons.injEq]
          simp only [same, Ne.symm same, false_and]

end Js
