import Tether.Text.Bytes

/-!
# Textual search inside quoted text

A scanner tries one matcher at every position of a text and keeps the first
success. The rules here say what a scanner that looks for a quoted name finds
inside a quoted token, where an escaped quote can stand in for the opening one.

## Main definitions

* `Text.scan` — the first success of a matcher over the suffixes of a text
* `Text.Body` — what may stand between two quotes, escapes included
* `Text.EndsQuoted` — the body ends in an escaped quote followed by the name
* `Text.NameMatcher` — a matcher that fires only on a quoted name, and on what
  follows it only when that is a string value

## Main results

* `strstr_eq_scan` — `strstr` is a scanner
* `scan_token` — what a name matcher finds from the opening quote of a token
-/

namespace Text

variable {α β : Type*}

/-- The first success of a matcher over the suffixes of a text. -/
def scan (m : Bytes → Option α) : Bytes → Option α
  | [] => m []
  | b :: rest => (m (b :: rest)).or (scan m rest)

theorem scan_of_none {m : Bytes → Option α} {b : UInt8} {rest : Bytes} (miss : m (b :: rest) = none) :
    scan m (b :: rest) = scan m rest := by
  rw [scan, miss, Option.none_or]

theorem scan_map (m : Bytes → Option α) (f : α → β) (text : Bytes) :
    (scan m text).map f = scan (fun suffix => (m suffix).map f) text := by
  induction text with
  | nil => rfl
  | cons b rest ih => rw [scan, scan, Option.map_or, ih]

theorem strstr_eq_scan (needle hay : Bytes) :
    strstr needle hay =
      scan (fun suffix => if needle.isPrefixOf suffix then some suffix else none) hay := by
  induction hay with
  | nil => rfl
  | cons b rest ih =>
    rw [strstr, scan, ih]
    split_ifs <;> rfl

/-! ### Bodies of quoted tokens -/

/-- What may stand between the quotes of a token: neither a NUL nor a quote or
backslash, unless a backslash precedes it. -/
inductive Body : Bytes → Prop
  | nil : Body []
  | plain {b : UInt8} {rest : Bytes} :
      b ≠ 0 → b ≠ quote → b ≠ backslash → Body rest → Body (b :: rest)
  | escape {b : UInt8} {rest : Bytes} : b ≠ 0 → Body rest → Body (backslash :: b :: rest)

theorem Body.append {first second : Bytes} (left : Body first) (right : Body second) :
    Body (first ++ second) := by
  induction left with
  | nil => exact right
  | plain nonzero notQuote notBackslash _ ih => exact .plain nonzero notQuote notBackslash ih
  | escape nonzero _ ih => exact .escape nonzero ih

/-- A text of bytes that need no escape is a body. -/
theorem Body.of_plain {text : Bytes}
    (plain : ∀ b ∈ text, b ≠ 0 ∧ b ≠ quote ∧ b ≠ backslash) : Body text := by
  induction text with
  | nil => exact .nil
  | cons b rest ih =>
    obtain ⟨nonzero, notQuote, notBackslash⟩ := plain b (by simp)
    exact .plain nonzero notQuote notBackslash (ih fun c member => plain c (by simp [member]))

/-- What stands before the first quote of a body is all of it, unless that quote
is escaped. -/
theorem Body.eq_takeWhile {body : Bytes} (wellFormed : Body body)
    (noEscape : backslash ∉ body.takeWhile (· != quote)) :
    body.takeWhile (· != quote) = body := by
  induction wellFormed with
  | nil => rfl
  | plain _ notQuote _ _ ih =>
    rw [List.takeWhile_cons_of_pos (by simpa using notQuote)] at noEscape ⊢
    rw [ih fun member => noEscape (List.mem_cons_of_mem _ member)]
  | escape =>
    rw [List.takeWhile_cons_of_pos (by decide)] at noEscape
    exact absurd List.mem_cons_self noEscape

/-- The body ends in an escaped quote followed by exactly this name. -/
def EndsQuoted (name : Bytes) : Bytes → Bool
  | 92 :: b :: rest => (b = quote && rest = name) || EndsQuoted name rest
  | _ :: rest => EndsQuoted name rest
  | [] => false

theorem endsQuoted_escape (name : Bytes) (b : UInt8) (rest : Bytes) :
    EndsQuoted name (backslash :: b :: rest) =
      ((b = quote && rest = name) || EndsQuoted name rest) := rfl

theorem endsQuoted_plain (name : Bytes) {b : UInt8} (notBackslash : b ≠ backslash) (rest : Bytes) :
    EndsQuoted name (b :: rest) = EndsQuoted name rest := by
  rw [EndsQuoted.eq_def]
  split
  · simp_all
  · simp_all
  · simp_all

/-- A body followed by a quote is determined by the text up to that quote. -/
theorem Body.eq_of_prefix {body name tail : Bytes} (wellFormed : Body body)
    (bare : ∀ b ∈ name, b ≠ quote ∧ b ≠ backslash)
    (starts : name ++ [quote] <+: body ++ quote :: tail) : body = name := by
  induction name generalizing body with
  | nil =>
    cases wellFormed with
    | nil => rfl
    | plain _ notQuote => simp_all
    | escape => exact absurd (List.cons_prefix_cons.mp starts).1 (by decide)
  | cons b name ih =>
    have bareHead := bare b (by simp)
    cases wellFormed with
    | nil =>
      obtain ⟨more, same⟩ := starts
      simp only [List.cons_append, List.nil_append, List.cons.injEq] at same
      exact absurd same.1 bareHead.1
    | plain _ _ _ inner =>
      simp only [List.cons_append, List.cons_prefix_cons] at starts
      rw [starts.1, ih inner (fun c member => bare c (by simp [member])) starts.2]
    | escape =>
      simp only [List.cons_append, List.cons_prefix_cons] at starts
      exact absurd starts.1 bareHead.2

/-! ### Matchers for a quoted name -/

/-- A text that no string value starts: the end, or a character that closes or
separates members. -/
def Boundary (text : Bytes) : Prop :=
  text = [] ∨ ∃ b rest, text = b :: rest ∧ (b = 44 ∨ b = 93 ∨ b = 125)

/-- What follows a name that is not the key of a string member: the end of a
value, or a colon and the beginning of another kind of value. -/
def NotString (text : Bytes) : Prop :=
  Boundary text ∨ ∃ b rest, text = 58 :: b :: rest ∧ b ≠ quote ∧ b ≠ 58 ∧ b ≠ 32

/-- A matcher for the quoted name `name` that answers `result body` when a
string value with that body follows, and nothing otherwise. -/
structure NameMatcher (name : Bytes) (m : Bytes → Option α) (result : Bytes → α) : Prop where
  nonempty : name ≠ []
  letters : ∀ b ∈ name, b = 95 ∨ 97 ≤ b.toNat ∧ b.toNat ≤ 122
  shape : ∀ suffix, ¬ quote :: name ++ [quote] <+: suffix → m suffix = none
  string : ∀ body tail, Body body →
    m (quote :: name ++ quote :: 58 :: quote :: body ++ quote :: tail) = some (result body)
  other : ∀ tail, NotString tail → m (quote :: name ++ quote :: tail) = none

namespace NameMatcher

variable {name : Bytes} {m : Bytes → Option α} {result : Bytes → α}

theorem bare (matcher : NameMatcher name m result) :
    ∀ b ∈ name, b ≠ quote ∧ b ≠ backslash := by
  intro b member
  rcases matcher.letters b member with rfl | ⟨low, high⟩
  · decide
  · constructor <;> rintro rfl <;> exact absurd low (by decide)

/-- Where no quote stands, nothing matches. -/
theorem miss_of_ne (matcher : NameMatcher name m result) {b : UInt8} (notQuote : b ≠ quote)
    (rest : Bytes) : m (b :: rest) = none :=
  matcher.shape _ fun starts => notQuote (List.cons_prefix_cons.mp starts).1.symm

theorem scan_skip (matcher : NameMatcher name m result) {text : Bytes}
    (noQuote : ∀ b ∈ text, b ≠ quote) (rest : Bytes) : scan m (text ++ rest) = scan m rest := by
  induction text with
  | nil => rfl
  | cons b text ih =>
    rw [List.cons_append, scan_of_none (matcher.miss_of_ne (noQuote b (by simp)) _)]
    exact ih fun c member => noQuote c (by simp [member])

/-- The closing quote of a token matches nothing, whatever separator follows. -/
theorem scan_close (matcher : NameMatcher name m result) {tail : Bytes}
    (after : Boundary tail ∨ ∃ rest, tail = 58 :: rest) :
    scan m (quote :: tail) = scan m tail := by
  refine scan_of_none (matcher.shape _ fun starts => ?_)
  obtain ⟨first, letters, rfl⟩ := List.exists_cons_of_ne_nil matcher.nonempty
  have letter := matcher.letters first (by simp)
  simp only [List.cons_append, List.cons_prefix_cons, true_and] at starts
  rcases after with (rfl | ⟨b, rest, rfl, separator⟩) | ⟨rest, rfl⟩
  · simp at starts
  · obtain rfl := (List.cons_prefix_cons.mp starts).1
    rcases separator with rfl | rfl | rfl <;> revert letter <;> decide
  · obtain rfl := (List.cons_prefix_cons.mp starts).1
    revert letter
    decide

/-- From inside a token the matcher can fire only at an escaped quote that the
name alone separates from the closing one. -/
theorem scan_body (matcher : NameMatcher name m result) {body : Bytes} (wellFormed : Body body)
    (tail : Bytes) :
    scan m (body ++ quote :: tail) =
      if EndsQuoted name body then
        (m (quote :: name ++ quote :: tail)).or (scan m (quote :: tail))
      else scan m (quote :: tail) := by
  induction wellFormed with
  | nil => rfl
  | @plain b rest _ notQuote notBackslash _ ih =>
    rw [List.cons_append, scan_of_none (matcher.miss_of_ne notQuote _), ih,
      endsQuoted_plain name notBackslash]
  | @escape b rest _ inner ih =>
    rw [List.cons_append, List.cons_append,
      scan_of_none (matcher.miss_of_ne (by decide) _), endsQuoted_escape]
    by_cases escaped : b = quote
    · subst escaped
      by_cases exact_ : rest = name
      · -- the name fills the rest of the token, so the later positions are its letters
        subst exact_
        have skip := matcher.scan_skip (fun c member => (matcher.bare c member).1) (quote :: tail)
        simp [scan, skip]
      · have miss : m (quote :: (rest ++ quote :: tail)) = none := by
          refine matcher.shape _ fun starts => exact_ ?_
          simp only [List.cons_append, List.cons_prefix_cons, true_and] at starts
          exact inner.eq_of_prefix matcher.bare starts
        rw [scan_of_none miss, ih]
        simp [exact_]
    · rw [scan_of_none (matcher.miss_of_ne escaped _), ih]
      simp [escaped]

/-- From the opening quote of a token the matcher fires at most once, when the
token is the name or ends in an escaped quote followed by the name. -/
theorem scan_token (matcher : NameMatcher name m result) {body : Bytes} (wellFormed : Body body)
    {tail : Bytes} (after : Boundary tail ∨ ∃ rest, tail = 58 :: rest) :
    scan m (quote :: body ++ quote :: tail) =
      if body = name ∨ EndsQuoted name body then
        (m (quote :: name ++ quote :: tail)).or (scan m tail)
      else scan m tail := by
  rw [List.cons_append, scan, matcher.scan_body wellFormed, matcher.scan_close after]
  by_cases same : body = name
  · subst same
    have skip := matcher.scan_skip (fun c member => (matcher.bare c member).1) (quote :: tail)
    rw [matcher.scan_close after, matcher.scan_body wellFormed, matcher.scan_close after] at skip
    simp only [List.cons_append, true_or, ↓reduceIte]
    cases m (quote :: (body ++ quote :: tail)) <;> simp_all
  · have miss : m (quote :: (body ++ quote :: tail)) = none := by
      refine matcher.shape _ fun starts => same ?_
      simp only [List.cons_append, List.cons_prefix_cons, true_and] at starts
      exact wellFormed.eq_of_prefix matcher.bare starts
    rw [miss, Option.none_or]
    simp [same]

end NameMatcher

end Text
