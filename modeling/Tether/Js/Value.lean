import Tether.Js.Double
import Tether.Text.Bytes

/-!
# JavaScript values that JSON can carry

Strings are lists of UTF-16 code units, so an unpaired surrogate is a string
like any other. Numbers are rationals together with the two infinities and
NaN, and arithmetic rounds to doubles; a number read from or written to JSON
also carries its decimal text.
Object members stand in the order in which JavaScript enumerates them.

## Main definitions

* `Js.Str`, `Js.utf16` — strings of code units and the string of a text
* `Js.Number` — numbers with the comparison and coercion rules the code relies on
* `Js.Value` — JSON values; `Value.get?` reads a property
* `Js.setMember`, `Js.defineMember` — assignment to a property
* `Js.Engine` — the conversions left to the JavaScript engine
-/

namespace Js

open Text

/-! ### Strings -/

/-- A string: its UTF-16 code units. -/
abbrev Str := List UInt16

/-- The code units of one character, a surrogate pair beyond the first plane. -/
def utf16Char (c : Char) : Str :=
  if c.toNat < 0x10000 then [UInt16.ofNat c.toNat]
  else [UInt16.ofNat (0xD800 + (c.toNat - 0x10000) / 0x400),
    UInt16.ofNat (0xDC00 + (c.toNat - 0x10000) % 0x400)]

/-- The string that holds a text. -/
def utf16 (text : List Char) : Str := text.flatMap utf16Char

/-- A string literal. -/
def str (literal : String) : Str := utf16 literal.toList

/-- The string whose code units are these (ASCII) bytes. -/
def ofAscii (text : Bytes) : Str := text.map fun b => UInt16.ofNat b.toNat

theorem ofNat_toNat_injective {a b : UInt8} (same : UInt16.ofNat a.toNat = UInt16.ofNat b.toNat) :
    a = b := by
  have bound (x : UInt8) : (UInt16.ofNat x.toNat).toNat = x.toNat :=
    UInt16.toNat_ofNat_of_lt' (lt_trans x.toNat_lt (by decide))
  have numbers := congrArg UInt16.toNat same
  rw [bound, bound] at numbers
  exact UInt8.toNat_inj.mp numbers

theorem ofAscii_injective : Function.Injective ofAscii :=
  List.map_injective_iff.mpr fun _ _ => ofNat_toNat_injective

/-! ### Numbers -/

/-- A number. A finite one is the rational that the double stands for. -/
inductive Number
  | nan
  | negInf
  | posInf
  | fin (value : ℚ)
  deriving DecidableEq

namespace Number

/-- `!x` is true of zero and NaN only. -/
def isFalsy : Number → Bool
  | nan => true
  | fin value => value = 0
  | _ => false

/-- `x > y`; a comparison with NaN is false. -/
def gt : Number → Number → Bool
  | nan, _ | _, nan => false
  | negInf, _ | _, posInf => false
  | posInf, _ | _, negInf => true
  | fin x, fin y => y < x

/-- The double for an exact result. -/
def rounded (x : ℚ) : Number :=
  if 2 ^ 1024 ≤ nearestDouble x then posInf
  else if nearestDouble x ≤ -2 ^ 1024 then negInf
  else fin (nearestDouble x)

/-- `x + y` -/
def add : Number → Number → Number
  | nan, _ | _, nan => nan
  | posInf, negInf | negInf, posInf => nan
  | posInf, _ | _, posInf => posInf
  | negInf, _ | _, negInf => negInf
  | fin x, fin y => rounded (x + y)

/-- `x * k` for a positive constant. -/
def scale (k : ℚ) : Number → Number
  | fin x => rounded (x * k)
  | x => x

/-- `Math.min(x, y)` -/
def min : Number → Number → Number
  | nan, _ | _, nan => nan
  | negInf, _ | _, negInf => negInf
  | posInf, y => y
  | x, posInf => x
  | fin x, fin y => fin (if x ≤ y then x else y)

/-- What is at most a whole number is that after rounding, or it is without bound below. -/
theorem rounded_le {x : ℚ} {n : ℕ} (small : n < 2 ^ 53) (le : x ≤ n) :
    rounded x = negInf ∨ ∃ y ≤ (n : ℚ), rounded x = fin y := by
  have upper := nearestDouble_le small le
  have huge : (n : ℚ) < 2 ^ 1024 :=
    lt_of_lt_of_le (by exact_mod_cast small) (pow_le_pow_right₀ one_le_two (by decide))
  rw [rounded, if_neg (not_le.mpr (upper.trans_lt huge))]
  split_ifs
  · exact .inl rfl
  · exact .inr ⟨_, upper, rfl⟩

/-- What is at least a whole number is that after rounding, or it is without bound above. -/
theorem le_rounded {x : ℚ} {n : ℕ} (small : n < 2 ^ 53) (le : n ≤ x) :
    rounded x = posInf ∨ ∃ y, (n : ℚ) ≤ y ∧ rounded x = fin y := by
  have lower := le_nearestDouble small le
  have huge : -2 ^ 1024 < nearestDouble x := by
    have negative : -(2 : ℚ) ^ 1024 < 0 := neg_neg_of_pos (pow_pos two_pos _)
    exact negative.trans_le ((Nat.cast_nonneg n).trans lower)
  rw [rounded]
  split_ifs with large low
  · exact .inl rfl
  · exact absurd low (not_le.mpr huge)
  · exact .inr ⟨_, lower, rfl⟩

end Number

/-- A number as JSON carries it: its value and its shortest decimal text. -/
structure Numeral where
  value : Number
  text : List Char
  nonempty : text ≠ []
  digits : ∀ c ∈ text, c.isDigit ∨ c = '+' ∨ c = '-' ∨ c = '.' ∨ c = 'e'

/-! ### Values -/

/-- A JSON value. -/
inductive Value
  | null
  | bool (value : Bool)
  | num (value : Numeral)
  | str (value : Str)
  | arr (elements : List Value)
  | obj (members : List (Str × Value))

namespace Value

/-- `value.key`, where `none` is `undefined`: only objects have such properties. -/
def get? (key : Str) : Value → Option Value
  | obj members => members.lookup key
  | _ => none

/-- `!value` of a property that may be absent. -/
def isFalsy : Option Value → Bool
  | none | some null => true
  | some (bool value) => !value
  | some (num value) => value.value.isFalsy
  | some (str value) => value.isEmpty
  | some (arr _) | some (obj _) => false

/-- `value ?? fallback` -/
def orElse (fallback : Value) : Option Value → Value
  | none | some null => fallback
  | some value => value

/-- `value === literal` for a string literal. -/
def isStr (literal : Str) : Option Value → Bool
  | some (str value) => value = literal
  | _ => false

@[simp] theorem isStr_some_str (literal value : Str) :
    isStr literal (some (str value)) = decide (value = literal) := rfl

theorem isStr_iff {literal : Str} {value : Option Value} :
    isStr literal value ↔ value = some (str literal) := by
  cases value with
  | none => simp [isStr]
  | some value => cases value <;> simp [isStr]

end Value

/-! ### Members -/

/-- Assignment to a property: an existing member keeps its place, a new one
goes to the end. -/
def setMember (key : Str) (value : Value) : List (Str × Value) → List (Str × Value)
  | [] => [(key, value)]
  | (other, old) :: rest =>
    if other = key then (key, value) :: rest else (other, old) :: setMember key value rest

theorem lookup_setMember_of_ne {key other : Str} (different : other ≠ key) (value : Value)
    (members : List (Str × Value)) :
    (setMember key value members).lookup other = members.lookup other := by
  induction members with
  | nil => simp [setMember, different]
  | cons member rest ih =>
    obtain ⟨name, old⟩ := member
    rw [setMember]
    split_ifs with same
    · subst same
      simp [List.lookup_cons, beq_eq_false_iff_ne.mpr different]
    · simp only [List.lookup_cons, ih]

theorem setMember_eq (key : Str) (value : Value) (members : List (Str × Value)) :
    setMember key value members = members.takeWhile (·.1 ≠ key) ++
      (key, value) :: (members.dropWhile (·.1 ≠ key)).tail := by
  induction members with
  | nil => rfl
  | cons member rest ih =>
    obtain ⟨other, old⟩ := member
    rw [setMember]
    by_cases same : other = key
    · simp [same]
    · simp [same, ih]

/-- The array index a property name denotes: a decimal numeral below 2³² - 1
without leading zeros. -/
def arrayIndex? (key : Str) : Option ℕ :=
  let index := key.foldl (fun n u => 10 * n + (u.toNat - 48)) 0
  if key ≠ [] ∧ (∀ u ∈ key, 48 ≤ u.toNat ∧ u.toNat ≤ 57) ∧
      (key.head? = some 48 → key = [48]) ∧ index < 4294967295 then some index
  else none

/-- Creation of a property: array indices come first, in ascending order, the
other names after them, in order of creation. -/
def defineMember (key : Str) (value : Value) (members : List (Str × Value)) :
    List (Str × Value) :=
  match arrayIndex? key, members.lookup key with
  | none, _ | _, some _ => setMember key value members
  | some index, none =>
    let before := fun member : Str × Value => (arrayIndex? member.1).any (· < index)
    members.takeWhile before ++ (key, value) :: members.dropWhile before

/-! ### The engine -/

/-- The conversions of the JavaScript engine that are not spelled out here. -/
structure Engine where
  /-- `Number(text)` -/
  stringToNumber : Str → Number
  /-- `Number(value)` of an object or array, through its primitive value; without
  one the conversion throws, here `none` -/
  objectToNumber : Value → Option Number
  /-- `text.toUpperCase()` -/
  toUpperCase : Str → Str
  /-- The number that a JSON number token denotes -/
  numeral : List Char → Numeral

/-- `Number(value)`, as arithmetic coerces its operands, unless it throws. -/
def Engine.toNumber (engine : Engine) : Value → Option Number
  | .null => some (.fin 0)
  | .bool value => some (.fin (if value then 1 else 0))
  | .num value => some value.value
  | .str value => some (engine.stringToNumber value)
  | value => engine.objectToNumber value

end Js
