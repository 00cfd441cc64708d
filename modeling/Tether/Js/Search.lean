import Tether.Js.Stringify

/-!
# Searching serialised JSON for a name

A textual search for a quoted name does not see the structure of the value it
runs over. On compact output it finds the first member, at any depth, whose key
is the name or ends in a quote followed by the name, provided the member's
value is a string.

## Main definitions

* `Js.hits` — the keys that a textual search takes for the name
* `Js.firstHit` — the string value of the first such member, in textual order

## Main results

* `scan_stringify` — a textual search over a serialised value finds `firstHit`
* `strstr_stringify` — so does `strstr` with the text that opens a string member
-/

namespace Js

open Text

/-- A key that a textual search cannot tell from `name`: the name itself, or a
key that ends in a quote followed by the name. -/
def hits (name key : Str) : Bool := decide (key = name) || (34 :: name).isSuffixOf key

/-- The string a member holds, if a textual search for `name` stops at it. -/
def hitMember (name : Str) : Str × Value → Option Str
  | (key, .str s) => if hits name key then some s else none
  | _ => none

mutual

/-- The string value of the first member, in textual order and at any depth,
that a textual search for `name` stops at. -/
def firstHit (name : Str) : Value → Option Str
  | .null | .bool _ | .num _ | .str _ => none
  | .arr elements => firstHitElements name elements
  | .obj members => firstHitMembers name members

def firstHitElements (name : Str) : List Value → Option Str
  | [] => none
  | element :: rest => (firstHit name element).or (firstHitElements name rest)

def firstHitMembers (name : Str) : List (Str × Value) → Option Str
  | [] => none
  | (key, value) :: rest =>
    ((hitMember name (key, value)).or (firstHit name value)).or (firstHitMembers name rest)

end

/-! ### Appending and assigning members -/

theorem firstHitMembers_append (name : Str) (first second : List (Str × Value)) :
    firstHitMembers name (first ++ second) =
      (firstHitMembers name first).or (firstHitMembers name second) := by
  induction first with
  | nil => rfl
  | cons member rest ih =>
    obtain ⟨key, value⟩ := member
    rw [List.cons_append, firstHitMembers, firstHitMembers, ih, Option.or_assoc, Option.or_assoc,
      Option.or_assoc]

/-- Assignment does not change what another name finds, if neither the new value
nor the old one holds anything to find. -/
theorem firstHitMembers_setMember_of_ne {name key : Str} (noHit : hits name key = false)
    {value : Value} (empty : firstHit name value = none) {members : List (Str × Value)}
    (old : ∀ value, members.lookup key = some value → firstHit name value = none) :
    firstHitMembers name (setMember key value members) = firstHitMembers name members := by
  have ignored (value : Value) : hitMember name (key, value) = none := by
    cases value <;> simp [hitMember, noHit]
  induction members with
  | nil => simp [setMember, firstHitMembers, ignored, empty]
  | cons member rest ih =>
    obtain ⟨other, there⟩ := member
    rw [setMember]
    by_cases same : other = key
    · subst same
      have nothing := old there (by simp)
      rw [if_pos rfl, firstHitMembers, firstHitMembers, ignored, ignored, empty, nothing]
    · rw [if_neg same, firstHitMembers, firstHitMembers, ih]
      intro value found
      exact old value (by simpa [List.lookup_cons, beq_eq_false_iff_ne.mpr (Ne.symm same)] using found)

/-! ### The textual search -/

section Search

variable {α : Type*} {name : Bytes} {m : Bytes → Option α} {result : Bytes → α}

private theorem numeralChar_bytes {c : Char}
    (kind : c.isDigit ∨ c = '+' ∨ c = '-' ∨ c = '.' ∨ c = 'e') :
    ∃ b, String.utf8EncodeChar c = [b] ∧ b ≠ quote ∧ b ≠ 58 ∧ b ≠ 32 := by
  rcases kind with digit | rfl | rfl | rfl | rfl
  · simp only [Char.isDigit, Bool.and_eq_true, decide_eq_true_eq, ge_iff_le,
      UInt32.le_iff_toNat_le] at digit
    have low : 48 ≤ c.toNat := digit.1
    have high : c.toNat ≤ 57 := digit.2
    have code : (UInt8.ofNat c.toNat).toNat = c.toNat :=
      UInt8.toNat_ofNat_of_lt' (lt_of_le_of_lt high (by decide))
    have distinct (k : UInt8) (far : k.toNat < 48 ∨ 57 < k.toNat) : UInt8.ofNat c.toNat ≠ k := by
      rintro rfl
      omega
    exact ⟨_, utf8EncodeChar_ascii (by omega), distinct 34 (by decide), distinct 58 (by decide),
      distinct 32 (by decide)⟩
  all_goals exact ⟨_, rfl, by decide, by decide, by decide⟩

private theorem noQuote_numeral (n : Numeral) : ∀ b ∈ utf8 n.text, b ≠ quote := by
  intro b member
  obtain ⟨c, inText, inChar⟩ := List.mem_flatMap.mp member
  obtain ⟨only, shape, notQuote, -⟩ := numeralChar_bytes (n.digits c inText)
  rw [shape, List.mem_singleton] at inChar
  rwa [inChar]

theorem hits_iff (matcher : NameMatcher name m result) (key : Str) :
    (body key = name ∨ EndsQuoted name (body key)) ↔ hits (ofAscii name) key := by
  have plain : ∀ b ∈ name, PlainByte b := by
    intro b member
    rcases matcher.letters b member with rfl | ⟨low, high⟩
    · decide
    · refine ⟨by omega, by omega, ?_, ?_⟩ <;> rintro rfl <;> exact absurd low (by decide)
  rw [body_eq_iff plain, endsQuoted_body plain]
  simp [hits]

/-- In value position a string token is passed over. -/
theorem scan_string (matcher : NameMatcher name m result) (s : Str) {rest : Bytes}
    (after : Boundary rest) : scan m (utf8 (quoteText s) ++ rest) = scan m rest := by
  rw [utf8_quoteText, List.append_assoc, List.singleton_append,
    matcher.scan_token (body_wellFormed s) (.inl after), matcher.other rest (.inl after)]
  simp

/-- What a serialised value that is no string starts with. -/
private theorem opening_stringify (value : Value) :
    (∃ s, value = .str s) ∨
      ∃ b rest, utf8 (stringify value) = b :: rest ∧ b ≠ quote ∧ b ≠ 58 ∧ b ≠ 32 := by
  have ascii (c : Char) (text : List Char) (b : UInt8) (shape : String.utf8EncodeChar c = [b])
      (clean : b ≠ quote ∧ b ≠ 58 ∧ b ≠ 32) :
      ∃ b rest, utf8 (c :: text) = b :: rest ∧ b ≠ quote ∧ b ≠ 58 ∧ b ≠ 32 :=
    ⟨b, utf8 text, by rw [utf8_cons, shape]; rfl, clean⟩
  cases value with
  | str s => exact .inl ⟨s, rfl⟩
  | null => exact .inr (ascii 'n' _ 110 rfl (by decide))
  | bool value =>
    cases value with
    | false => exact .inr (ascii 'f' _ 102 rfl (by decide))
    | true => exact .inr (ascii 't' _ 116 rfl (by decide))
  | num n =>
    right
    rw [stringify]
    split
    · obtain ⟨c, text, shape⟩ := List.exists_cons_of_ne_nil n.nonempty
      obtain ⟨b, code, clean⟩ := numeralChar_bytes (n.digits c (by simp [shape]))
      rw [shape]
      exact ascii c text b code clean
    · exact ascii 'n' _ 110 rfl (by decide)
  | arr elements =>
    right
    cases elements with
    | nil => exact ascii '[' _ 91 rfl (by decide)
    | cons element rest => exact ascii '[' _ 91 rfl (by decide)
  | obj members =>
    right
    rcases members with - | ⟨⟨key, value⟩, rest⟩
    · exact ascii '\x7b' _ 123 rfl (by decide)
    · exact ascii '\x7b' _ 123 rfl (by decide)

/-- Punctuation matches nothing. -/
private theorem scan_punctuation (matcher : NameMatcher name m result) {c : Char} {b : UInt8}
    (code : String.utf8EncodeChar c = [b]) (notQuote : b ≠ quote) (text : List Char)
    (rest : Bytes) : scan m (utf8 (c :: text) ++ rest) = scan m (utf8 text ++ rest) := by
  rw [utf8_cons, code, List.append_assoc, List.singleton_append]
  exact scan_of_none (matcher.miss_of_ne notQuote _)

/-- A member in textual order: its key first, then its value. -/
private theorem scan_member (matcher : NameMatcher name m result) (key : Str) (value : Value)
    (rest : Bytes) :
    scan m (utf8 (quoteText key) ++ 58 :: (utf8 (stringify value) ++ rest)) =
      ((hitMember (ofAscii name) (key, value)).map fun s => result (body s)).or
        (scan m (utf8 (stringify value) ++ rest)) := by
  have colon : scan m (58 :: (utf8 (stringify value) ++ rest)) =
      scan m (utf8 (stringify value) ++ rest) :=
    scan_of_none (matcher.miss_of_ne (by decide) _)
  rw [utf8_quoteText, List.append_assoc, List.singleton_append,
    matcher.scan_token (body_wellFormed key) (.inr ⟨_, rfl⟩), colon]
  simp only [hits_iff matcher]
  rcases opening_stringify value with ⟨s, rfl⟩ | ⟨b, text, shape, different⟩
  · -- a string value: the matcher answers if the key is a hit
    have found := matcher.string (body s) rest (body_wellFormed s)
    have text : utf8 (stringify (.str s)) ++ rest = quote :: (body s ++ quote :: rest) := by
      rw [stringify, utf8_quoteText]
      simp
    simp only [List.cons_append, List.append_assoc] at found
    rw [text, List.cons_append, found, hitMember]
    split_ifs <;> simp
  · have miss : m (quote :: name ++ quote :: 58 :: (utf8 (stringify value) ++ rest)) = none := by
      refine matcher.other _ (.inr ⟨b, text ++ rest, ?_, different⟩)
      rw [shape, List.cons_append]
    have notString : hitMember (ofAscii name) (key, value) = none := by
      cases value with
      | str s =>
        rw [stringify, utf8_quoteText, List.cons_append, List.cons.injEq] at shape
        exact absurd shape.1.symm different.1
      | _ => rfl
    rw [miss, notString]
    simp

theorem boundary_elements (elements : List Value) (rest : Bytes) :
    Boundary (utf8 (stringifyElements elements) ++ rest) := by
  cases elements with
  | nil => exact .inr ⟨93, rest, rfl, by decide⟩
  | cons element more => exact .inr ⟨44, _, rfl, by decide⟩

theorem boundary_members (members : List (Str × Value)) (rest : Bytes) :
    Boundary (utf8 (stringifyMembers members) ++ rest) := by
  rcases members with - | ⟨⟨key, value⟩, more⟩
  · exact .inr ⟨125, rest, rfl, by decide⟩
  · exact .inr ⟨44, _, rfl, by decide⟩

variable (matcher : NameMatcher name m result)
include matcher

mutual

/-- A textual search over a serialised value finds the first member it cannot
tell from a member of that name, and otherwise goes on behind the value. -/
theorem scan_stringify (value : Value) {rest : Bytes} (after : Boundary rest) :
    scan m (utf8 (stringify value) ++ rest) =
      ((firstHit (ofAscii name) value).map fun s => result (body s)).or (scan m rest) := by
  have skip {text : List Char} (clean : ∀ b ∈ utf8 text, b ≠ quote) :
      scan m (utf8 text ++ rest) = ((none : Option Str).map fun s => result (body s)).or
        (scan m rest) := by
    rw [matcher.scan_skip clean]
    rfl
  match value with
  | .null => exact skip (by decide)
  | .bool true => exact skip (by decide)
  | .bool false => exact skip (by decide)
  | .str s => exact scan_string matcher s after
  | .num n =>
    rw [stringify, firstHit]
    split
    · exact skip (noQuote_numeral n)
    · exact skip (by decide)
  | .arr [] => exact skip (by decide)
  | .arr (element :: more) =>
    -- a match inside an element ends inside it, so the elements can be searched one by one
    rw [stringify, firstHit, firstHitElements, List.cons_append,
      scan_punctuation matcher (b := 91) rfl (by decide), utf8_append, List.append_assoc,
      scan_stringify element (boundary_elements more rest),
      scan_stringifyElements more after, Option.map_or, Option.or_assoc]
  | .obj [] => exact skip (by decide)
  | .obj ((key, value) :: more) =>
    rw [stringify, firstHit, firstHitMembers, List.cons_append, List.cons_append,
      scan_punctuation matcher (b := 123) rfl (by decide), utf8_append, utf8_append, utf8_cons,
      List.append_assoc, List.append_assoc, List.append_assoc]
    refine (scan_member matcher key value _).trans ?_
    rw [scan_stringify value (boundary_members more rest), scan_stringifyMembers more after,
      Option.map_or, Option.map_or, Option.or_assoc, Option.or_assoc]

theorem scan_stringifyElements (elements : List Value) {rest : Bytes} (after : Boundary rest) :
    scan m (utf8 (stringifyElements elements) ++ rest) =
      ((firstHitElements (ofAscii name) elements).map fun s => result (body s)).or
        (scan m rest) := by
  match elements with
  | [] => exact scan_of_none (matcher.miss_of_ne (by decide) _)
  | element :: more =>
    rw [stringifyElements, firstHitElements, List.cons_append,
      scan_punctuation matcher (b := 44) rfl (by decide), utf8_append, List.append_assoc,
      scan_stringify element (boundary_elements more rest),
      scan_stringifyElements more after, Option.map_or, Option.or_assoc]

theorem scan_stringifyMembers (members : List (Str × Value)) {rest : Bytes}
    (after : Boundary rest) :
    scan m (utf8 (stringifyMembers members) ++ rest) =
      ((firstHitMembers (ofAscii name) members).map fun s => result (body s)).or
        (scan m rest) := by
  match members with
  | [] => exact scan_of_none (matcher.miss_of_ne (by decide) _)
  | (key, value) :: more =>
    rw [stringifyMembers, firstHitMembers, List.cons_append, List.cons_append,
      scan_punctuation matcher (b := 44) rfl (by decide), utf8_append, utf8_append, utf8_cons,
      List.append_assoc, List.append_assoc, List.append_assoc]
    refine (scan_member matcher key value _).trans ?_
    rw [scan_stringify value (boundary_members more rest), scan_stringifyMembers more after,
      Option.map_or, Option.map_or, Option.or_assoc, Option.or_assoc]

end

/-- A textual search over one serialised value. -/
theorem scan_value (value : Value) :
    scan m (utf8 (stringify value)) =
      (firstHit (ofAscii name) value).map fun s => result (body s) := by
  have nowhere : Boundary [] := .inl rfl
  have whole := scan_stringify matcher value nowhere
  have nothing : scan m [] = none := matcher.shape [] (by simp)
  rwa [List.append_nil, nothing, Option.or_none] at whole

end Search

/-! ### The search for a fixed member pattern -/

/-- The text that opens a string member of this name: `"name":"`. -/
def memberPattern (name : Bytes) : Bytes := quote :: name ++ [quote, 58, quote]

/-- `strstr` for a member pattern, followed by a reader that stays within the
member's value, reads the first hit. -/
theorem strstr_stringify {α : Type*} {name : Bytes} (nonempty : name ≠ [])
    (letters : ∀ b ∈ name, b = 95 ∨ 97 ≤ b.toNat ∧ b.toNat ≤ 122)
    {read : Bytes → α} {result : Bytes → α}
    (reads : ∀ body tail, Body body → read (body ++ quote :: tail) = result body)
    (value : Value) :
    (strstr (memberPattern name) (utf8 (stringify value))).map
        (fun found => read (found.drop (memberPattern name).length)) =
      (firstHit (ofAscii name) value).map fun s => result (body s) := by
  rw [strstr_eq_scan, scan_map]
  refine scan_value ⟨nonempty, letters, ?_, ?_, ?_⟩ value
  · intro suffix absent
    have longer : ¬ memberPattern name <+: suffix := by
      refine fun found => absent (List.IsPrefix.trans ?_ found)
      exact ⟨[58, quote], by simp [memberPattern]⟩
    rw [if_neg (by simpa using longer)]
    rfl
  · intro text tail wellFormed
    have split : quote :: name ++ quote :: 58 :: quote :: text ++ quote :: tail =
        memberPattern name ++ (text ++ quote :: tail) := by
      simp [memberPattern]
    rw [split, if_pos (by simp), Option.map_some, List.drop_left, reads text tail wellFormed]
  · intro tail notString
    have absent : ¬ memberPattern name <+: quote :: name ++ quote :: tail := by
      intro found
      have after : [58, quote] <+: tail := by
        simpa [memberPattern] using found
      rcases notString with (rfl | ⟨b, rest, rfl, separator⟩) | ⟨b, rest, rfl, notQuote, -⟩
      · simp at after
      · obtain rfl := (List.cons_prefix_cons.mp after).1
        exact absurd separator (by decide)
      · simp only [List.cons_prefix_cons, true_and] at after
        exact notQuote after.1.symm
    rw [if_neg (by simpa using absent)]
    rfl

end Js
