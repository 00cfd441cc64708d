import Tether.Js.Stringify

/-!
# JSON.parse

A recursive descent over the text, with fuel for the nesting. Escapes denote
code units, so `\ud800` on its own is a string like any other. A member that
occurs twice keeps its place and takes the later value.

## Main definitions

* `Js.parseString`, `Js.parseNumeral`, `Js.parseValue` — the grammar
* `Js.parse` — `JSON.parse`, where `none` is the exception it throws
* `Js.Canonical` — values that the parser builds and the engine prints back

## Main results

* `parseString_quoteBody` — every string survives
* `parse_stringify` — every canonical value survives
-/

namespace Js

open Text

/-! ### The grammar -/

def skipWhitespace (text : List Char) : List Char :=
  text.dropWhile fun c => c = ' ' || c = '\t' || c = '\n' || c = '\r'

/-- The value of a hexadecimal digit. -/
def hexValue? (c : Char) : Option ℕ :=
  if 48 ≤ c.toNat ∧ c.toNat ≤ 57 then some (c.toNat - 48)
  else if 97 ≤ c.toNat ∧ c.toNat ≤ 102 then some (c.toNat - 87)
  else if 65 ≤ c.toNat ∧ c.toNat ≤ 70 then some (c.toNat - 55)
  else none

/-- The code unit that `\uXXXX` denotes. -/
def hexUnit? (a b c d : Char) : Option UInt16 := do
  let a ← hexValue? a
  let b ← hexValue? b
  let c ← hexValue? c
  let d ← hexValue? d
  some (UInt16.ofNat (4096 * a + 256 * b + 16 * c + d))

/-- The code unit that a short escape denotes. -/
def escapedUnit? : Char → Option UInt16
  | 'b' => some 8
  | 't' => some 9
  | 'n' => some 10
  | 'f' => some 12
  | 'r' => some 13
  | '\x22' => some 34
  | '\\' => some 92
  | '/' => some 47
  | _ => none

/-- The rest of a string behind its opening quote, and the text behind it. -/
def parseString : List Char → Option (Str × List Char)
  | [] => none
  | '\x22' :: rest => some ([], rest)
  | '\\' :: 'u' :: a :: b :: c :: d :: rest =>
    match hexUnit? a b c d, parseString rest with
    | some u, some (s, tail) => some (u :: s, tail)
    | _, _ => none
  | '\\' :: c :: rest =>
    match escapedUnit? c, parseString rest with
    | some u, some (s, tail) => some (u :: s, tail)
    | _, _ => none
  | c :: rest =>
    if c.toNat < 32 || c = '\\' then none
    else (parseString rest).map fun (s, tail) => (utf16Char c ++ s, tail)

/-- An optional part of a number token: a mark and at least one digit. -/
def parseDigitsAfter (mark : List Char) (text : List Char) :
    Option (List Char × List Char) :=
  match text.span Char.isDigit with
  | ([], _) => none
  | (digits, rest) => some (mark ++ digits, rest)

def parseFraction : List Char → Option (List Char × List Char)
  | '.' :: rest => parseDigitsAfter ['.'] rest
  | text => some ([], text)

def parseExponent : List Char → Option (List Char × List Char)
  | 'e' :: '+' :: rest => parseDigitsAfter ['e', '+'] rest
  | 'e' :: '-' :: rest => parseDigitsAfter ['e', '-'] rest
  | 'e' :: rest => parseDigitsAfter ['e'] rest
  | 'E' :: '+' :: rest => parseDigitsAfter ['E', '+'] rest
  | 'E' :: '-' :: rest => parseDigitsAfter ['E', '-'] rest
  | 'E' :: rest => parseDigitsAfter ['E'] rest
  | text => some ([], text)

/-- The integer part: a zero, or digits that do not start with one. -/
def parseInteger : List Char → Option (List Char × List Char)
  | '0' :: rest => some (['0'], rest)
  | text => parseDigitsAfter [] text

/-- A number token and the text behind it. -/
def parseNumeral (text : List Char) : Option (List Char × List Char) := do
  let (sign, text) := match text with
    | '-' :: rest => (['-'], rest)
    | text => ([], text)
  let (integer, text) ← parseInteger text
  let (fraction, text) ← parseFraction text
  let (exponent, text) ← parseExponent text
  some (sign ++ integer ++ fraction ++ exponent, text)

mutual

/-- A value and the text behind it. -/
def parseValue (engine : Engine) : ℕ → List Char → Option (Value × List Char)
  | 0, _ => none
  | fuel + 1, text =>
    match skipWhitespace text with
    | 'n' :: 'u' :: 'l' :: 'l' :: rest => some (.null, rest)
    | 't' :: 'r' :: 'u' :: 'e' :: rest => some (.bool true, rest)
    | 'f' :: 'a' :: 'l' :: 's' :: 'e' :: rest => some (.bool false, rest)
    | '\x22' :: rest => (parseString rest).map fun (s, tail) => (.str s, tail)
    | '[' :: rest =>
      match skipWhitespace rest with
      | ']' :: tail => some (.arr [], tail)
      | rest =>
        match parseValue engine fuel rest with
        | some (element, tail) =>
          (parseElements engine fuel [element] tail).map fun (elements, tail) =>
            (.arr elements, tail)
        | none => none
    | '\x7b' :: rest =>
      match skipWhitespace rest with
      | '\x7d' :: tail => some (.obj [], tail)
      | rest =>
        match parseMember engine fuel [] rest with
        | some (members, tail) =>
          (parseMembers engine fuel members tail).map fun (members, tail) =>
            (.obj members, tail)
        | none => none
    | text => (parseNumeral text).map fun (token, tail) => (.num (engine.numeral token), tail)

/-- The elements behind the first one, up to the closing bracket. -/
def parseElements (engine : Engine) :
    ℕ → List Value → List Char → Option (List Value × List Char)
  | 0, _, _ => none
  | fuel + 1, elements, text =>
    match skipWhitespace text with
    | ']' :: tail => some (elements, tail)
    | ',' :: rest =>
      match parseValue engine fuel rest with
      | some (element, tail) => parseElements engine fuel (elements ++ [element]) tail
      | none => none
    | _ => none

/-- One member, added to those before it. -/
def parseMember (engine : Engine) :
    ℕ → List (Str × Value) → List Char → Option (List (Str × Value) × List Char)
  | 0, _, _ => none
  | fuel + 1, members, text =>
    match skipWhitespace text with
    | '\x22' :: rest =>
      match parseString rest with
      | some (key, rest) =>
        match skipWhitespace rest with
        | ':' :: rest =>
          (parseValue engine fuel rest).map fun (value, tail) =>
            (defineMember key value members, tail)
        | _ => none
      | none => none
    | _ => none

/-- The members behind the first one, up to the closing brace. -/
def parseMembers (engine : Engine) :
    ℕ → List (Str × Value) → List Char → Option (List (Str × Value) × List Char)
  | 0, _, _ => none
  | fuel + 1, members, text =>
    match skipWhitespace text with
    | '\x7d' :: tail => some (members, tail)
    | ',' :: rest =>
      match parseMember engine fuel members rest with
      | some (members, tail) => parseMembers engine fuel members tail
      | none => none
    | _ => none

end

/-- `JSON.parse(text)`; `none` where it throws. -/
def parse (engine : Engine) (text : List Char) : Option Value :=
  match parseValue engine (text.length + 1) text with
  | some (value, rest) => if skipWhitespace rest = [] then some value else none
  | none => none

/-! ### A concrete engine -/

/-- A numeral of decimal digits. -/
def decimal (token : List Char) : Numeral :=
  if digits : token ≠ [] ∧ ∀ c ∈ token, c.isDigit then
    { value := .fin (token.foldl (fun n c => 10 * n + (c.toNat - 48)) 0)
      text := token
      nonempty := digits.1
      digits := fun c member => .inl (digits.2 c member) }
  else { value := .fin 0, text := ['0'], nonempty := by decide, digits := by decide }

/-- The conversions on ASCII letters and on numerals without a sign, a fraction
or an exponent, where nothing but a number is read as one. -/
def asciiEngine : Engine where
  stringToNumber _ := .nan
  objectToNumber _ := some .nan
  toUpperCase text := text.map fun u => if 97 ≤ u ∧ u ≤ 122 then u - 32 else u
  numeral := decimal

/-! ### Strings survive -/

private theorem hexValue?_hexDigit : ∀ n < 16, hexValue? (hexDigit n) = some n := by decide

theorem hexUnit?_unicodeEscape (u : UInt16) :
    hexUnit? (hexDigit (u.toNat / 4096)) (hexDigit (u.toNat / 256 % 16))
      (hexDigit (u.toNat / 16 % 16)) (hexDigit (u.toNat % 16)) = some u := by
  have bound := u.toNat_lt
  have digits : 4096 * (u.toNat / 4096) + 256 * (u.toNat / 256 % 16) +
      16 * (u.toNat / 16 % 16) + u.toNat % 16 = u.toNat := by omega
  simp only [hexUnit?, hexValue?_hexDigit _ (show u.toNat / 4096 < 16 by omega),
    hexValue?_hexDigit _ (Nat.mod_lt _ (show 0 < 16 by decide)), Option.bind_eq_bind,
    Option.bind_some, digits, UInt16.ofNat_toNat]

/-- A character that needs no escape stands for its code units. -/
theorem parseString_char {c : Char} (notQuote : c ≠ '\x22') (notBackslash : c ≠ '\\')
    (printable : 32 ≤ c.toNat) (text : List Char) :
    parseString (c :: text) = (parseString text).map fun (s, tail) => (utf16Char c ++ s, tail) := by
  rw [parseString.eq_def]
  split
  · simp_all
  · simp_all
  · simp_all
  · simp_all
  · rename_i same
    obtain ⟨rfl, rfl⟩ := List.cons.inj same
    simp [notBackslash, Nat.not_lt.mpr printable]

/-- A short escape denotes its code unit. -/
theorem parseString_escape {c : Char} {u : UInt16} (escape : escapedUnit? c = some u)
    (text : List Char) :
    parseString ('\\' :: c :: text) =
      (parseString text).map fun (s, tail) => (u :: s, tail) := by
  rw [parseString.eq_def]
  split
  · simp_all
  · simp_all
  · rename_i same
    simp only [List.cons.injEq, true_and] at same
    obtain ⟨rfl, -⟩ := same
    simp [escapedUnit?] at escape
  · rename_i same
    simp only [List.cons.injEq, true_and] at same
    obtain ⟨rfl, rfl⟩ := same
    rw [escape]
    cases parseString text <;> rfl
  · rename_i different same
    obtain ⟨first, rest⟩ := List.cons.inj same
    exact absurd rest.symm (different c text first.symm)

theorem parseString_quoteUnit (u : UInt16) (text : List Char) :
    parseString (quoteUnit u ++ text) =
      (parseString text).map fun (s, tail) => (u :: s, tail) := by
  have unit (n : ℕ) (h : u.toNat = n) : UInt16.ofNat n = u := by rw [← h, UInt16.ofNat_toNat]
  rw [quoteUnit]
  split
  case h_1 h => exact parseString_escape (unit _ h ▸ rfl) text
  case h_2 h => exact parseString_escape (unit _ h ▸ rfl) text
  case h_3 h => exact parseString_escape (unit _ h ▸ rfl) text
  case h_4 h => exact parseString_escape (unit _ h ▸ rfl) text
  case h_5 h => exact parseString_escape (unit _ h ▸ rfl) text
  case h_6 h => exact parseString_escape (unit _ h ▸ rfl) text
  case h_7 h => exact parseString_escape (unit _ h ▸ rfl) text
  case h_8 notQuote notBackslash =>
    -- a control character or a lone surrogate is written as a number
    split_ifs with escaped
    · rw [unicodeEscape]
      simp only [List.cons_append, List.nil_append]
      rw [parseString, hexUnit?_unicodeEscape]
      cases parseString text <;> rfl
    · simp only [Bool.or_eq_true, decide_eq_true_eq, not_or, isHighSurrogate, isLowSurrogate,
        Bool.and_eq_true, not_and] at escaped
      have bound := u.toNat_lt
      -- no surrogate, so the unit is a character
      have valid : Nat.isValidChar u.toNat := by
        rcases Nat.lt_or_ge u.toNat 0xD800 with low | high
        · exact .inl low
        · exact .inr (by omega)
      have value := toNat_charOfNat valid
      rw [List.singleton_append, parseString_char (fun same => notQuote (by rw [← value, same]; rfl))
        (fun same => notBackslash (by rw [← value, same]; rfl)) (by omega)]
      rw [utf16Char, value, if_pos (by omega), UInt16.ofNat_toNat]
      rfl

theorem utf16Char_pairChar {u v : UInt16} (high : isHighSurrogate u) (low : isLowSurrogate v) :
    utf16Char (pairChar u v) = [u, v] := by
  simp only [isHighSurrogate, isLowSurrogate, Bool.and_eq_true, decide_eq_true_eq] at high low
  have valid : Nat.isValidChar
      (0x10000 + (u.toNat - 0xD800) * 0x400 + (v.toNat - 0xDC00)) := .inr (by omega)
  rw [pairChar, utf16Char, toNat_charOfNat valid, if_neg (by omega)]
  have first : 0xD800 + (0x10000 + (u.toNat - 0xD800) * 0x400 + (v.toNat - 0xDC00) - 0x10000) /
      0x400 = u.toNat := by omega
  have second : 0xDC00 + (0x10000 + (u.toNat - 0xD800) * 0x400 + (v.toNat - 0xDC00) - 0x10000) %
      0x400 = v.toNat := by omega
  rw [first, second, UInt16.ofNat_toNat, UInt16.ofNat_toNat]

/-- Every string survives, unpaired surrogates included. -/
theorem parseString_quoteBody (s : Str) (tail : List Char) :
    parseString (quoteBody s ++ '\x22' :: tail) = some (s, tail) := by
  induction s using quoteBody.induct with
  | case1 => rfl
  | case2 u => rw [quoteBody, parseString_quoteUnit]; rfl
  | case3 u v rest pair ih =>
    obtain ⟨high, low⟩ := Bool.and_eq_true .. ▸ pair
    have wide := pairChar_wide high low
    have ne (c : Char) (ascii : c.toNat < 128) : pairChar u v ≠ c := by
      rintro rfl
      omega
    rw [quoteBody, if_pos pair, List.cons_append, parseString_char (ne _ (by decide))
      (ne _ (by decide)) (by omega), ih, utf16Char_pairChar high low]
    rfl
  | case4 u v rest single ih =>
    rw [quoteBody, if_neg single, List.append_assoc, parseString_quoteUnit, ih]
    rfl

/-- A serialised string determines the string. -/
theorem body_injective : Function.Injective body := by
  intro first second same
  have texts : quoteBody first = quoteBody second := utf8_injective same
  have read := parseString_quoteBody first []
  rw [texts, parseString_quoteBody] at read
  exact (congrArg Prod.fst (Option.some.inj read)).symm

/-! ### Canonical values survive -/

/-- A text that ends a number token: the end, a comma or a closing bracket. -/
def EndsToken (text : List Char) : Prop :=
  text = [] ∨ ∃ c rest, text = c :: rest ∧ (c = ',' ∨ c = ']' ∨ c = '\x7d')

/-- The engine reads the numeral's own text back as the numeral. -/
def Reads (engine : Engine) (n : Numeral) : Prop :=
  (∃ q, n.value = .fin q) ∧ engine.numeral n.text = n ∧
    ∀ rest, EndsToken rest → parseNumeral (n.text ++ rest) = some (n.text, rest)

mutual

/-- Values that the parser can build: finite numbers that the engine prints and
reads alike, members in the order in which their creation leaves them. -/
def Canonical (engine : Engine) : Value → Prop
  | .null | .bool _ | .str _ => True
  | .num n => Reads engine n
  | .arr elements => CanonicalElements engine elements
  | .obj members => CanonicalMembers engine [] members

def CanonicalElements (engine : Engine) : List Value → Prop
  | [] => True
  | element :: rest => Canonical engine element ∧ CanonicalElements engine rest

def CanonicalMembers (engine : Engine) (before : List (Str × Value)) :
    List (Str × Value) → Prop
  | [] => True
  | (key, value) :: rest =>
    defineMember key value before = before ++ [(key, value)] ∧ Canonical engine value ∧
      CanonicalMembers engine (before ++ [(key, value)]) rest

end

/-- The characters that whitespace skipping and the empty containers look for. -/
private def Opening (c : Char) : Prop :=
  c ≠ ' ' ∧ c ≠ '\t' ∧ c ≠ '\n' ∧ c ≠ '\r' ∧ c ≠ ']' ∧ c ≠ '\x7d'

private instance : DecidablePred Opening := fun _ =>
  inferInstanceAs (Decidable (_ ∧ _ ∧ _ ∧ _ ∧ _ ∧ _))

private theorem skipWhitespace_cons {c : Char} (opening : Opening c) (text : List Char) :
    skipWhitespace (c :: text) = c :: text := by
  obtain ⟨space, tab, newline, carriage, -, -⟩ := opening
  simp [skipWhitespace, space, tab, newline, carriage]

private theorem numeralChar_opening {c : Char}
    (kind : c.isDigit ∨ c = '+' ∨ c = '-' ∨ c = '.' ∨ c = 'e') :
    Opening c ∧ c ≠ 'n' ∧ c ≠ 't' ∧ c ≠ 'f' ∧ c ≠ '\x22' ∧ c ≠ '[' ∧ c ≠ '\x7b' := by
  rcases kind with digit | rfl | rfl | rfl | rfl
  · refine ⟨⟨?_, ?_, ?_, ?_, ?_, ?_⟩, ?_, ?_, ?_, ?_, ?_, ?_⟩ <;>
      (rintro rfl; exact absurd digit (by decide))
  all_goals decide

private theorem head_stringify (value : Value) :
    ∃ c text, stringify value = c :: text ∧ Opening c := by
  cases value with
  | null => exact ⟨_, _, rfl, by decide⟩
  | bool value => cases value <;> exact ⟨_, _, rfl, by decide⟩
  | num n =>
    rw [stringify]
    split
    · obtain ⟨c, text, shape⟩ := List.exists_cons_of_ne_nil n.nonempty
      exact ⟨c, text, shape, (numeralChar_opening (n.digits c (by simp [shape]))).1⟩
    · exact ⟨_, _, rfl, by decide⟩
  | str s => exact ⟨_, _, rfl, by decide⟩
  | arr elements =>
    cases elements with
    | nil => exact ⟨_, _, rfl, by decide⟩
    | cons element rest => exact ⟨'[', _, by rw [stringify, List.cons_append], by decide⟩
  | obj members =>
    rcases members with - | ⟨⟨key, value⟩, rest⟩
    · exact ⟨_, _, rfl, by decide⟩
    · exact ⟨'\x7b', _, by rw [stringify, List.cons_append, List.cons_append], by decide⟩

private theorem endsToken_elements (elements : List Value) (rest : List Char) :
    EndsToken (stringifyElements elements ++ rest) := by
  cases elements with
  | nil => exact .inr ⟨_, _, rfl, by decide⟩
  | cons element more =>
    exact .inr ⟨',', _, by rw [stringifyElements, List.cons_append, List.cons_append], by decide⟩

private theorem endsToken_members (members : List (Str × Value)) (rest : List Char) :
    EndsToken (stringifyMembers members ++ rest) := by
  rcases members with - | ⟨⟨key, value⟩, more⟩
  · exact .inr ⟨_, _, rfl, by decide⟩
  · exact .inr ⟨',', _, by
      rw [stringifyMembers, List.cons_append, List.cons_append, List.cons_append], by decide⟩

variable (engine : Engine)

private theorem parseValue_numeral {n : Numeral} (reads : Reads engine n) {fuel : ℕ}
    {rest : List Char} (ends : EndsToken rest) :
    parseValue engine (fuel + 1) (n.text ++ rest) = some (.num n, rest) := by
  obtain ⟨-, back, token⟩ := reads
  obtain ⟨c, text, shape⟩ := List.exists_cons_of_ne_nil n.nonempty
  obtain ⟨opening, different⟩ := numeralChar_opening (n.digits c (by simp [shape]))
  have numeral := token rest ends
  have start : skipWhitespace (n.text ++ rest) = n.text ++ rest := by
    rw [shape]
    exact skipWhitespace_cons opening _
  have head (d : Char) (more : List Char) (same : n.text ++ rest = d :: more) : c = d := by
    rw [shape] at same
    exact (List.cons.inj same).1
  rw [parseValue, start]
  split
  case h_7 => simp only [numeral, Option.map_some, back]
  all_goals
    have := head _ _ (by assumption)
    simp_all

private theorem parseMember_stringify {key : Str} {value : Value} {before : List (Str × Value)}
    (fresh : defineMember key value before = before ++ [(key, value)]) {fuel : ℕ}
    {rest : List Char}
    (inner : parseValue engine fuel (stringify value ++ rest) = some (value, rest)) :
    parseMember engine (fuel + 1) before (quoteText key ++ ':' :: (stringify value ++ rest)) =
      some (before ++ [(key, value)], rest) := by
  simp only [quoteText, List.cons_append, List.append_assoc, List.nil_append]
  rw [parseMember, skipWhitespace_cons (by decide)]
  simp only [parseString_quoteBody, skipWhitespace_cons (show Opening ':' by decide), inner,
    Option.map_some, fresh]

mutual

/-- The parser reads a canonical value off its own serialisation. -/
theorem parseValue_stringify (value : Value) (canonical : Canonical engine value) (fuel : ℕ)
    (enough : (stringify value).length ≤ fuel) (rest : List Char) (ends : EndsToken rest) :
    parseValue engine fuel (stringify value ++ rest) = some (value, rest) := by
  obtain ⟨fuel, rfl⟩ : ∃ more, fuel = more + 1 := by
    obtain ⟨c, text, shape, -⟩ := head_stringify value
    rw [shape, List.length_cons] at enough
    exact ⟨fuel - 1, by omega⟩
  match value with
  | .null => rfl
  | .bool true => rfl
  | .bool false => rfl
  | .str s =>
    rw [stringify, quoteText, List.append_assoc, List.cons_append, parseValue,
      skipWhitespace_cons (by decide)]
    simp only [List.singleton_append]
    rw [parseString_quoteBody]
    rfl
  | .num n =>
    obtain ⟨q, finite⟩ := canonical.1
    rw [stringify, finite]
    exact parseValue_numeral engine canonical ends
  | .arr [] => rfl
  | .arr (element :: more) =>
    simp only [stringify, List.cons_append, List.length_cons, List.length_append] at enough ⊢
    obtain ⟨c, text, shape, opening⟩ := head_stringify element
    have first := parseValue_stringify element canonical.1 fuel (by omega)
      (stringifyElements more ++ rest) (endsToken_elements more rest)
    -- each element needs less fuel than the list, as its text is shorter
    have others := parseElements_stringify more canonical.2 fuel (by omega) [element] rest
    have start : skipWhitespace (stringify element ++ (stringifyElements more ++ rest)) =
        stringify element ++ (stringifyElements more ++ rest) := by
      rw [shape]
      exact skipWhitespace_cons opening _
    rw [List.append_assoc, parseValue, skipWhitespace_cons (by decide)]
    simp only [start]
    split
    · rename_i same
      rw [shape, List.cons_append, List.cons.injEq] at same
      -- no element starts with the closing bracket
      exact absurd same.1 opening.2.2.2.2.1
    · rw [first]
      simp only [others]
      rfl
  | .obj [] => rfl
  | .obj ((key, inner) :: more) =>
    simp only [stringify, List.cons_append, List.length_cons, List.length_append] at enough ⊢
    obtain ⟨fuel, rfl⟩ : ∃ less, fuel = less + 1 := ⟨fuel - 1, by omega⟩
    have first := parseMember_stringify engine canonical.1
      (parseValue_stringify inner canonical.2.1 fuel (by omega) (stringifyMembers more ++ rest)
        (endsToken_members more rest))
    have others := parseMembers_stringify more [(key, inner)] canonical.2.2 (fuel + 1)
      (by omega) rest
    have start (text : List Char) : skipWhitespace (quoteText key ++ text) =
        quoteText key ++ text := skipWhitespace_cons (by decide) _
    rw [List.append_assoc, List.append_assoc, List.cons_append, parseValue,
      skipWhitespace_cons (by decide)]
    simp only [start]
    split
    · rename_i same
      exact absurd (List.cons.inj same).1 (by decide)
    · rw [first]
      simp only [List.nil_append, others]
      rfl

theorem parseElements_stringify (elements : List Value)
    (canonical : CanonicalElements engine elements) (fuel : ℕ)
    (enough : (stringifyElements elements).length ≤ fuel) (before : List Value)
    (rest : List Char) :
    parseElements engine fuel before (stringifyElements elements ++ rest) =
      some (before ++ elements, rest) := by
  match elements, fuel with
  | [], 0 => simp [stringifyElements] at enough
  | [], fuel + 1 => rw [List.append_nil]; rfl
  | element :: more, 0 => simp [stringifyElements] at enough
  | element :: more, fuel + 1 =>
    simp only [stringifyElements, List.cons_append, List.length_cons,
      List.length_append] at enough ⊢
    have first := parseValue_stringify element canonical.1 fuel (by omega)
      (stringifyElements more ++ rest) (endsToken_elements more rest)
    have others := parseElements_stringify more canonical.2 fuel (by omega)
      (before ++ [element]) rest
    rw [List.append_assoc, parseElements, skipWhitespace_cons (by decide)]
    simp only [first, others, List.append_assoc, List.singleton_append]

theorem parseMembers_stringify (members before : List (Str × Value))
    (canonical : CanonicalMembers engine before members) (fuel : ℕ)
    (enough : (stringifyMembers members).length ≤ fuel) (rest : List Char) :
    parseMembers engine fuel before (stringifyMembers members ++ rest) =
      some (before ++ members, rest) := by
  match members, fuel with
  | [], 0 => simp [stringifyMembers] at enough
  | [], fuel + 1 => rw [List.append_nil]; rfl
  | (key, value) :: more, 0 => simp [stringifyMembers] at enough
  | (key, value) :: more, fuel + 1 =>
    simp only [stringifyMembers, List.cons_append, List.length_cons,
      List.length_append] at enough ⊢
    obtain ⟨fuel, rfl⟩ : ∃ less, fuel = less + 1 := ⟨fuel - 1, by omega⟩
    have first := parseMember_stringify engine canonical.1
      (parseValue_stringify value canonical.2.1 fuel (by omega) (stringifyMembers more ++ rest)
        (endsToken_members more rest))
    have others := parseMembers_stringify more (before ++ [(key, value)]) canonical.2.2
      (fuel + 1) (by omega) rest
    rw [List.append_assoc, List.append_assoc, List.cons_append, parseMembers,
      skipWhitespace_cons (by decide)]
    simp only [first, others, List.append_assoc, List.singleton_append]

end

/-- Every canonical value survives the way through its text. -/
theorem parse_stringify {value : Value} (canonical : Canonical engine value) :
    parse engine (stringify value) = some value := by
  have whole := parseValue_stringify engine value canonical ((stringify value).length + 1)
    (by omega) [] (.inl rfl)
  rw [List.append_nil] at whole
  rw [parse, whole]
  rfl

end Js
