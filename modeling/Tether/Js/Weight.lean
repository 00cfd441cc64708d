import Mathlib.Data.List.Infix
import Tether.Js.Parse

/-!
# What a value costs in its text

Every character of a JSON text pays for a part of the value that is read from it,
and no value is read from a text that does not pay for it. A quote, a backslash or a
control character in a string has to be escaped, and so it costs two characters.
Numbers are free, and so are their characters: the engine turns one into the other.

## Main definitions

* `Special` — the characters that stand in a string only when they are escaped
* `textWeight` — what a text pays
* `weight` — what a value costs

## Main results

* `strWeight_utf16` — the string of a text costs the text and its special characters
* `weight_le_of_parse` — a text pays for its value
-/

namespace Js

open Text

/-! ### Weights -/

/-- The code of a digit, a sign, a point or an exponent's mark. -/
def NumeralCode (n : ℕ) : Prop :=
  48 ≤ n ∧ n ≤ 57 ∨ n = 43 ∨ n = 45 ∨ n = 46 ∨ n = 69 ∨ n = 101

/-- The code of a quote, a backslash or a control character. -/
def SpecialCode (n : ℕ) : Prop := n < 32 ∨ n = 34 ∨ n = 92

instance : DecidablePred NumeralCode := fun _ => inferInstanceAs (Decidable (_ ∨ _))

instance : DecidablePred SpecialCode := fun _ => inferInstanceAs (Decidable (_ ∨ _))

/-- A character that a JSON string holds only as an escape. -/
def Special (c : Char) : Prop := SpecialCode c.toNat

instance : DecidablePred Special := fun _ => inferInstanceAs (Decidable (SpecialCode _))

def charWeight (c : Char) : ℕ := if NumeralCode c.toNat then 0 else (utf16Char c).length

/-- What a text pays for. -/
def textWeight : List Char → ℕ
  | [] => 0
  | c :: rest => charWeight c + textWeight rest

def unitWeight (u : UInt16) : ℕ :=
  if NumeralCode u.toNat then 0 else if SpecialCode u.toNat then 2 else 1

def strWeight : Str → ℕ
  | [] => 0
  | u :: rest => unitWeight u + strWeight rest

mutual

/-- What a value costs. -/
def weight : Value → ℕ
  | .null => 4
  | .bool true => 3
  | .bool false => 4
  | .num _ => 0
  | .str s => strWeight s + 2
  | .arr elements => elementsWeight elements + 1
  | .obj members => membersWeight members + 1

/-- Each element with a comma or the closing bracket. -/
def elementsWeight : List Value → ℕ
  | [] => 0
  | element :: rest => weight element + 1 + elementsWeight rest

/-- Each member with its quotes, its colon, and a comma or the closing brace. -/
def membersWeight : List (Str × Value) → ℕ
  | [] => 0
  | (key, value) :: rest => strWeight key + 4 + weight value + membersWeight rest

end

/-! ### Texts and strings -/

@[simp] theorem textWeight_nil : textWeight [] = 0 := rfl

@[simp] theorem textWeight_cons (c : Char) (text : List Char) :
    textWeight (c :: text) = charWeight c + textWeight text := rfl

@[simp] theorem textWeight_append (first second : List Char) :
    textWeight (first ++ second) = textWeight first + textWeight second := by
  induction first with
  | nil => rw [List.nil_append, textWeight_nil, Nat.zero_add]
  | cons c rest ih => rw [List.cons_append, textWeight_cons, textWeight_cons, ih, Nat.add_assoc]

@[simp] theorem strWeight_nil : strWeight [] = 0 := rfl

@[simp] theorem strWeight_cons (u : UInt16) (s : Str) :
    strWeight (u :: s) = unitWeight u + strWeight s := rfl

@[simp] theorem strWeight_append (first second : Str) :
    strWeight (first ++ second) = strWeight first + strWeight second := by
  induction first with
  | nil => rw [List.nil_append, strWeight_nil, Nat.zero_add]
  | cons u rest ih => rw [List.cons_append, strWeight_cons, strWeight_cons, ih, Nat.add_assoc]

theorem textWeight_le_of_suffix {tail text : List Char} (suffix : tail <:+ text) :
    textWeight tail ≤ textWeight text := by
  obtain ⟨front, rfl⟩ := suffix
  rw [textWeight_append]
  exact Nat.le_add_left _ _

theorem textWeight_eq_zero {text : List Char} (free : ∀ c ∈ text, charWeight c = 0) :
    textWeight text = 0 := by
  induction text with
  | nil => rfl
  | cons c rest ih =>
    obtain ⟨own, others⟩ := List.forall_mem_cons.mp free
    rw [textWeight_cons, own, ih others]

/-- The characters of a number are free. -/
theorem textWeight_numeral (n : Numeral) : textWeight n.text = 0 := by
  refine textWeight_eq_zero fun c member => if_pos ?_
  rcases n.digits c member with digit | rfl | rfl | rfl | rfl
  · rw [Char.isDigit, Bool.and_eq_true, decide_eq_true_eq, decide_eq_true_eq] at digit
    exact .inl ⟨UInt32.le_iff_toNat_le.mp digit.1, UInt32.le_iff_toNat_le.mp digit.2⟩
  all_goals decide

theorem unitWeight_le (u : UInt16) : unitWeight u ≤ 2 := by
  rw [unitWeight]
  split_ifs <;> decide

theorem unitWeight_of_plain {u : UInt16} (numeral : ¬ NumeralCode u.toNat)
    (plain : ¬ SpecialCode u.toNat) : unitWeight u = 1 := by
  rw [unitWeight, if_neg numeral, if_neg plain]

/-- A special character costs one more than it pays. -/
theorem strWeight_utf16Char (c : Char) :
    strWeight (utf16Char c) = charWeight c + if Special c then 1 else 0 := by
  by_cases basic : c.toNat < 0x10000
  · have unit : (UInt16.ofNat c.toNat).toNat = c.toNat := UInt16.toNat_ofNat_of_lt' basic
    rw [charWeight, utf16Char, if_pos basic, strWeight_cons, unitWeight, unit, strWeight_nil,
      List.length_singleton]
    by_cases numeral : NumeralCode c.toNat
    · have plain : ¬ Special c := by
        rw [NumeralCode] at numeral
        rw [Special, SpecialCode]
        omega
      rw [if_pos numeral, if_pos numeral, if_neg plain]
    · rw [if_neg numeral, if_neg numeral]
      by_cases special : SpecialCode c.toNat
      · rw [if_pos special, if_pos (show Special c from special)]
      · rw [if_neg special, if_neg (show ¬ Special c from special)]
  · -- both surrogates are plain
    have bound : c.toNat < 0x110000 := by
      have valid : c.toNat < 0xD800 ∨ 0xDFFF < c.toNat ∧ c.toNat < 0x110000 := c.valid
      omega
    have surrogate (n : ℕ) (low : 0xD800 ≤ n) (high : n < 0xE000) :
        unitWeight (UInt16.ofNat n) = 1 := by
      have unit : (UInt16.ofNat n).toNat = n :=
        UInt16.toNat_ofNat_of_lt' (lt_trans high (by decide))
      apply unitWeight_of_plain
      · rw [unit, NumeralCode]
        omega
      · rw [unit, SpecialCode]
        omega
    have numeral : ¬ NumeralCode c.toNat := by
      rw [NumeralCode]
      omega
    have plain : ¬ Special c := by
      rw [Special, SpecialCode]
      omega
    rw [charWeight, utf16Char, if_neg basic, strWeight_cons, strWeight_cons, strWeight_nil,
      surrogate _ (by omega) (by omega), surrogate _ (by omega) (by omega), if_neg numeral,
      if_neg plain]
    rfl

theorem strWeight_utf16 (text : List Char) :
    strWeight (utf16 text) = textWeight text + text.countP (Special ·) := by
  induction text with
  | nil => rfl
  | cons c rest ih =>
    rw [utf16, List.flatMap_cons, ← utf16, strWeight_append, ih, strWeight_utf16Char,
      textWeight_cons, List.countP_cons]
    simp only [decide_eq_true_eq]
    omega

/-! ### Members -/

theorem elementsWeight_append (first second : List Value) :
    elementsWeight (first ++ second) = elementsWeight first + elementsWeight second := by
  induction first with
  | nil => rw [List.nil_append, elementsWeight, Nat.zero_add]
  | cons element rest ih =>
    rw [List.cons_append, elementsWeight, elementsWeight, ih]
    omega

theorem membersWeight_append (first second : List (Str × Value)) :
    membersWeight (first ++ second) = membersWeight first + membersWeight second := by
  induction first with
  | nil => rw [List.nil_append, membersWeight, Nat.zero_add]
  | cons member rest ih =>
    obtain ⟨key, value⟩ := member
    rw [List.cons_append, membersWeight, membersWeight, ih]
    omega

theorem membersWeight_setMember (key : Str) (value : Value) (members : List (Str × Value)) :
    membersWeight (setMember key value members) ≤
      membersWeight members + (strWeight key + 4 + weight value) := by
  induction members with
  | nil => simp [setMember, membersWeight]
  | cons member rest ih =>
    obtain ⟨other, old⟩ := member
    rw [setMember]
    split_ifs with same
    · rw [membersWeight, membersWeight]
      omega
    · rw [membersWeight, membersWeight]
      omega

theorem membersWeight_defineMember (key : Str) (value : Value) (members : List (Str × Value)) :
    membersWeight (defineMember key value members) ≤
      membersWeight members + (strWeight key + 4 + weight value) := by
  rw [defineMember]
  split
  · exact membersWeight_setMember key value members
  · exact membersWeight_setMember key value members
  · rename_i index _ _
    have parts := List.takeWhile_append_dropWhile
      (p := fun member : Str × Value => (arrayIndex? member.1).any (· < index)) (l := members)
    have whole := congrArg membersWeight parts
    rw [membersWeight_append] at whole
    rw [membersWeight_append, membersWeight]
    omega

/-! ### Budgets -/

/-- What has been read and the rest of the text stay within a budget. -/
def Within {α : Type*} (budget : ℕ) (cost : α → ℕ) (read : Option (α × List Char)) : Prop :=
  ∀ a tail, read = some (a, tail) → cost a + textWeight tail ≤ budget

section Combinators

variable {α β : Type*} {budget : ℕ} {cost : α → ℕ} {read : Option (α × List Char)}

theorem Within.none : Within budget cost none := by
  intro a tail failed
  cases failed

theorem Within.some {a : α} {tail : List Char} (paid : cost a + textWeight tail ≤ budget) :
    Within budget cost (some (a, tail)) := by
  intro b rest same
  obtain ⟨rfl, rfl⟩ := Prod.mk.inj (Option.some.inj same)
  exact paid

theorem Within.mono {less : ℕ} (within : Within less cost read) (le : less ≤ budget) :
    Within budget cost read :=
  fun a tail found => le_trans (within a tail found) le

/-- A literal in front of the rest of the text pays for the result. -/
theorem Within.literal {a : α} (front tail : List Char) (paid : cost a ≤ textWeight front) :
    Within (textWeight (front ++ tail)) cost (.some (a, tail)) := by
  refine .some ?_
  rw [textWeight_append]
  exact Nat.add_le_add_right paid _

/-- A result is turned into another one, and its budget into another budget. -/
theorem Within.map {other : ℕ} {cost' : β → ℕ} (f : α → β) (within : Within budget cost read)
    (covered : ∀ a rest, cost a + rest ≤ budget → cost' (f a) + rest ≤ other) :
    Within other cost' (read.map fun (a, tail) => (f a, tail)) := by
  intro b tail same
  obtain ⟨⟨a, behind⟩, found, result⟩ := Option.map_eq_some_iff.mp same
  obtain ⟨rfl, rfl⟩ := Prod.mk.inj result
  exact covered a _ (within a behind found)

end Combinators

/-! ### The parser -/

theorem textWeight_skipWhitespace (text : List Char) :
    textWeight (skipWhitespace text) ≤ textWeight text :=
  textWeight_le_of_suffix (List.dropWhile_suffix _)

/-- A character of a string that is written as it is pays for its units. -/
theorem strWeight_utf16Char_of_plain {c : Char} (plain : ¬ Special c) :
    strWeight (utf16Char c) = charWeight c := by
  rw [strWeight_utf16Char, if_neg plain, Nat.add_zero]

theorem charWeight_of_escapedUnit {c : Char} {u : UInt16} (short : escapedUnit? c = some u) :
    charWeight c = 1 := by
  rw [escapedUnit?.eq_def] at short
  split at short
  all_goals first | rfl | cases short

/-- A backslash and its mark pay for any unit. -/
theorem parseString_within (text : List Char) :
    Within (textWeight text) (fun s => strWeight s + 1) (parseString text) := by
  have backslash : charWeight '\\' = 1 := rfl
  have mark : charWeight 'u' = 1 := rfl
  fun_induction parseString text with
  | case1 => exact .none
  | case2 rest => exact .literal ['\x22'] rest (by decide)
  | case3 a b c d rest u s tail found unit ih =>
    have paid : strWeight s + 1 + textWeight tail ≤ textWeight rest := ih s tail found
    have bound := unitWeight_le u
    refine .some ?_
    simp only [textWeight_cons, strWeight_cons]
    omega
  | case4 => exact .none
  | case5 c rest _ u s tail found unit ih =>
    have paid : strWeight s + 1 + textWeight tail ≤ textWeight rest := ih s tail found
    have bound := unitWeight_le u
    have short := charWeight_of_escapedUnit unit
    refine .some ?_
    simp only [textWeight_cons, strWeight_cons]
    omega
  | case6 => exact .none
  | case7 => exact .none
  | case8 c rest notQuote _ _ plain ih =>
    have own : ¬ Special c := by
      simp only [Bool.or_eq_true, decide_eq_true_eq, not_or] at plain
      rintro (control | code | code)
      · exact plain.1 control
      · exact notQuote (Char.toNat_inj.mp code)
      · exact plain.2 (Char.toNat_inj.mp code)
    refine ih.map (utf16Char c ++ ·) fun s rest' paid => ?_
    rw [strWeight_append, strWeight_utf16Char_of_plain own, textWeight_cons]
    omega

/-! ### Numbers -/

section Numbers

variable {mark text token tail : List Char}

theorem parseDigitsAfter_suffix (parsed : parseDigitsAfter mark text = some (token, tail)) :
    tail <:+ text := by
  rw [parseDigitsAfter] at parsed
  split at parsed
  · cases parsed
  · rename_i digits rest _ parts
    obtain ⟨rfl, rfl⟩ := Prod.mk.inj (Option.some.inj parsed)
    rw [List.span_eq_takeWhile_dropWhile] at parts
    obtain ⟨-, rfl⟩ := Prod.mk.inj parts
    exact List.dropWhile_suffix _

theorem parseInteger_suffix (parsed : parseInteger text = some (token, tail)) : tail <:+ text := by
  rw [parseInteger.eq_def] at parsed
  split at parsed
  · obtain ⟨-, rfl⟩ := Prod.mk.inj (Option.some.inj parsed)
    exact List.suffix_append ['0'] _
  · exact parseDigitsAfter_suffix parsed

theorem parseFraction_suffix (parsed : parseFraction text = some (token, tail)) :
    tail <:+ text := by
  rw [parseFraction.eq_def] at parsed
  split at parsed
  · exact (parseDigitsAfter_suffix parsed).trans (List.suffix_append ['.'] _)
  · obtain ⟨-, rfl⟩ := Prod.mk.inj (Option.some.inj parsed)
    exact List.suffix_rfl

theorem parseExponent_suffix (parsed : parseExponent text = some (token, tail)) :
    tail <:+ text := by
  rw [parseExponent.eq_def] at parsed
  split at parsed
  · exact (parseDigitsAfter_suffix parsed).trans (List.suffix_append ['e', '+'] _)
  · exact (parseDigitsAfter_suffix parsed).trans (List.suffix_append ['e', '-'] _)
  · exact (parseDigitsAfter_suffix parsed).trans (List.suffix_append ['e'] _)
  · exact (parseDigitsAfter_suffix parsed).trans (List.suffix_append ['E', '+'] _)
  · exact (parseDigitsAfter_suffix parsed).trans (List.suffix_append ['E', '-'] _)
  · exact (parseDigitsAfter_suffix parsed).trans (List.suffix_append ['E'] _)
  · obtain ⟨-, rfl⟩ := Prod.mk.inj (Option.some.inj parsed)
    exact List.suffix_rfl

/-- A number token costs nothing. -/
theorem parseNumeral_within (text : List Char) :
    Within (textWeight text) (fun _ => 0) (parseNumeral text) := by
  intro token tail parsed
  rw [parseNumeral.eq_def] at parsed
  split at parsed
  rename_i sign unsigned parts
  have below : unsigned <:+ text := by
    split at parts
    · obtain ⟨-, rfl⟩ := Prod.mk.inj parts
      exact List.suffix_append ['-'] _
    · obtain ⟨-, rfl⟩ := Prod.mk.inj parts
      exact List.suffix_rfl
  simp only [Option.bind_eq_bind, Option.bind_eq_some_iff, Prod.exists] at parsed
  obtain ⟨integer, first, one, fraction, second, two, exponent, rest, three, whole⟩ := parsed
  obtain ⟨-, rfl⟩ := Prod.mk.inj (Option.some.inj whole)
  have suffix : rest <:+ text :=
    (parseExponent_suffix three).trans <| (parseFraction_suffix two).trans <|
      (parseInteger_suffix one).trans below
  rw [Nat.zero_add]
  exact textWeight_le_of_suffix suffix

end Numbers

/-! ### Values -/

/-- What the four functions of the descent may cost. A value pays for itself; the
elements and members behind the first one also pay for the closing bracket. -/
structure Pays (engine : Engine) (fuel : ℕ) : Prop where
  value : ∀ text, Within (textWeight text) weight (parseValue engine fuel text)
  elements : ∀ before text, Within (elementsWeight before + textWeight text)
    (fun elements => elementsWeight elements + 1) (parseElements engine fuel before text)
  member : ∀ before text, Within (membersWeight before + 1 + textWeight text)
    membersWeight (parseMember engine fuel before text)
  members : ∀ before text, Within (membersWeight before + textWeight text)
    (fun members => membersWeight members + 1) (parseMembers engine fuel before text)

section Descent

variable {engine : Engine}

theorem Pays.zero : Pays engine 0 where
  value _ := .none
  elements _ _ := .none
  member _ _ := .none
  members _ _ := .none

variable {fuel : ℕ} (pays : Pays engine fuel)

include pays

theorem Pays.value_succ (text : List Char) :
    Within (textWeight text) weight (parseValue engine (fuel + 1) text) := by
  refine Within.mono ?_ (textWeight_skipWhitespace text)
  rw [parseValue]
  generalize skipWhitespace text = start
  have quoteWeight : charWeight '\x22' = 1 := rfl
  have bracketWeight : charWeight '[' = 1 := rfl
  have braceWeight : charWeight '\x7b' = 1 := rfl
  split
  · exact .literal ['n', 'u', 'l', 'l'] _ (by decide)
  · exact .literal ['t', 'r', 'u', 'e'] _ (by decide)
  · exact .literal ['f', 'a', 'l', 's', 'e'] _ (by decide)
  · rename_i rest
    refine (parseString_within rest).map Value.str fun s behind paid => ?_
    rw [textWeight_cons, weight]
    omega
  · rename_i rest
    have skipped := textWeight_skipWhitespace rest
    split
    · rename_i tail closing
      rw [closing, textWeight_cons] at skipped
      refine .some ?_
      rw [textWeight_cons, weight, elementsWeight]
      omega
    · split
      · rename_i element tail first
        -- the bracket pays for the array, the text of each element for the element
        have paid := pays.value _ element tail first
        refine (pays.elements [element] tail).map Value.arr fun elements behind others => ?_
        rw [elementsWeight, elementsWeight] at others
        rw [textWeight_cons, weight]
        omega
      · exact .none
  · rename_i rest
    have skipped := textWeight_skipWhitespace rest
    split
    · rename_i tail closing
      rw [closing, textWeight_cons] at skipped
      refine .some ?_
      rw [textWeight_cons, weight, membersWeight]
      omega
    · split
      · rename_i members tail first
        have paid := pays.member [] _ members tail first
        refine (pays.members members tail).map Value.obj fun members behind others => ?_
        rw [membersWeight] at paid
        rw [textWeight_cons, weight]
        omega
      · exact .none
  · exact (parseNumeral_within _).map (fun token => Value.num (engine.numeral token))
      fun token behind paid => paid

theorem Pays.elements_succ (before : List Value) (text : List Char) :
    Within (elementsWeight before + textWeight text) (fun elements => elementsWeight elements + 1)
      (parseElements engine (fuel + 1) before text) := by
  refine Within.mono ?_ (Nat.add_le_add_left (textWeight_skipWhitespace text) _)
  rw [parseElements]
  generalize skipWhitespace text = start
  split
  · have closing : charWeight ']' = 1 := rfl
    refine .some ?_
    rw [textWeight_cons]
    omega
  · split
    · rename_i element tail next
      have comma : charWeight ',' = 1 := rfl
      have paid := pays.value _ element tail next
      refine (pays.elements (before ++ [element]) tail).mono ?_
      rw [elementsWeight_append, elementsWeight, elementsWeight, textWeight_cons]
      omega
    · exact .none
  · exact .none

theorem Pays.member_succ (before : List (Str × Value)) (text : List Char) :
    Within (membersWeight before + 1 + textWeight text) membersWeight
      (parseMember engine (fuel + 1) before text) := by
  refine Within.mono ?_ (Nat.add_le_add_left (textWeight_skipWhitespace text) _)
  rw [parseMember]
  generalize skipWhitespace text = start
  split
  · split
    · rename_i key behind name
      have paid : strWeight key + 1 + textWeight behind ≤ _ := parseString_within _ key behind name
      have skipped := textWeight_skipWhitespace behind
      split
      · rename_i rest colon
        have colonWeight : charWeight ':' = 1 := rfl
        have quoteWeight : charWeight '\x22' = 1 := rfl
        rw [colon, textWeight_cons] at skipped
        refine (pays.value rest).map (defineMember key · before) fun value tail cost => ?_
        have defined := membersWeight_defineMember key value before
        rw [textWeight_cons]
        omega
      · exact .none
    · exact .none
  · exact .none

theorem Pays.members_succ (before : List (Str × Value)) (text : List Char) :
    Within (membersWeight before + textWeight text) (fun members => membersWeight members + 1)
      (parseMembers engine (fuel + 1) before text) := by
  refine Within.mono ?_ (Nat.add_le_add_left (textWeight_skipWhitespace text) _)
  rw [parseMembers]
  generalize skipWhitespace text = start
  split
  · have closing : charWeight '\x7d' = 1 := rfl
    refine .some ?_
    rw [textWeight_cons]
    omega
  · split
    · rename_i members tail next
      have comma : charWeight ',' = 1 := rfl
      have paid := pays.member before _ members tail next
      refine (pays.members members tail).mono ?_
      rw [textWeight_cons]
      omega
    · exact .none
  · exact .none

end Descent

/-- By induction on the fuel, each function uses the others with less of it. -/
theorem Pays.all (engine : Engine) (fuel : ℕ) : Pays engine fuel := by
  induction fuel with
  | zero => exact .zero
  | succ fuel ih => exact ⟨ih.value_succ, ih.elements_succ, ih.member_succ, ih.members_succ⟩

/-- A text pays for the value that is parsed from it. -/
theorem weight_le_of_parse {engine : Engine} {text : List Char} {value : Value}
    (parsed : parse engine text = some value) : weight value ≤ textWeight text := by
  rw [parse] at parsed
  split at parsed
  · rename_i read rest found
    have paid := (Pays.all engine _).value text read rest found
    split_ifs at parsed
    obtain rfl := Option.some.inj parsed
    omega
  · cases parsed

end Js
