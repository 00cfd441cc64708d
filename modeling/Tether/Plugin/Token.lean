import Tether.Token.Format

/-!
# Tokens in the plugin

A token is drawn from a padded alphabet, recognised by a scanner over groups, and
read from what a user has pasted. `isspace` and `toupper` are those of the C
locale. A pointer is the rest of the string; at its end stands the terminator,
which is what `headD 0` reads.

## Main definitions

* `tokenGenerate` — a token from random bytes
* `tokenIsWellFormed` — the scanner
* `tokenNormalise` — a pasted text in its canonical form, if that is a token
* `canonical` — the canonical form of the whole text

## Main results

* `tokenIsWellFormed_iff` — the scanner accepts the texts of tokens
* `tokenGenerate_spec` — what is generated is one
* `tokenNormalise_text` — a token's text is its own canonical form
* `normalises_iff` — when normalisation is exact
-/

namespace Tether.Plugin

open Text

/-! ### Alphabets -/

def kAlphabet : Bytes := bytes "ABCDEFGHJKMNPQRSTUVWXYZ23456789"

/-- K is duplicated. -/
def kAlphabetPadded : Bytes := bytes "ABCDEFGHJKKMNPQRSTUVWXYZ23456789"

def charInAlphabet (c : UInt8) : Bool := kAlphabet.any (· = c)

/-! ### Generation -/

/-- The characters that four of the random bytes select. -/
def generateGroup (random : Fin 12 → UInt8) (g : Fin 3) : Bytes :=
  (List.finRange 4).map fun i : Fin 4 =>
    kAlphabetPadded.getD (random ⟨g * 4 + i, by omega⟩ &&& 0x1F).toNat 0

/-- `tether_token_generate`; `random` is none if there is no source of random
bytes. -/
def tokenGenerate (outSize : ℕ) (random : Option (Fin 12 → UInt8)) : Option Bytes :=
  if outSize < 20 then none
  else random.map fun random =>
    bytes "TTHR-" ++ generateGroup random 0 ++
      45 :: generateGroup random 1 ++ 45 :: generateGroup random 2

/-! ### Recognition -/

/-- The pointer behind `n` characters of the alphabet. -/
def skipGroup : ℕ → Bytes → Option Bytes
  | 0, p => some p
  | n + 1, p => if charInAlphabet (p.headD 0) then skipGroup n p.tail else none

/-- The pointer behind this many groups, with dashes between them. -/
def skipGroups : ℕ → Bytes → Option Bytes
  | 0, p => some p
  | g + 1, p =>
    match skipGroup 4 p with
    | none => none
    | some p =>
      if g = 0 then some p
      else if p.headD 0 = 45 then skipGroups g p.tail
      else none

def tokenIsWellFormed (s : Bytes) : Bool :=
  if (bytes "TTHR-").isPrefixOf s then
    match skipGroups 3 (s.drop 5) with
    | none => false
    | some p => p.headD 0 = 0
  else false

/-! ### Normalisation -/

/-- `isspace`: a space, or a tab to a carriage return. -/
def isspace (c : UInt8) : Bool := c = 32 || 9 ≤ c && c ≤ 13

def toupper (c : UInt8) : UInt8 := if 97 ≤ c ∧ c ≤ 122 then c - 32 else c

/-- Whitespace, or a double or single quote. -/
def isStripped (c : UInt8) : Bool := isspace c || c = 34 || c = 39

/-- Upper case, with O for a zero and I and L for a one. -/
def collapse (c : UInt8) : UInt8 :=
  match toupper c with
  | 79 => 48
  | 73 => 49
  | 76 => 49
  | c => c

/-- The loop over the input; `out` is what has been written. -/
def normaliseLoop (outSize : ℕ) (out : Bytes) : Bytes → Bytes
  | [] => out
  | c :: p =>
    if out.length + 1 < outSize then
      if isStripped c then normaliseLoop outSize out p
      else normaliseLoop outSize (out ++ [collapse c]) p
    else out

/-- `tether_token_normalise`: what it writes, if that is a token. -/
def tokenNormalise (input : Bytes) (outSize : ℕ) : Option Bytes :=
  if outSize < 20 then none
  else
    let out := normaliseLoop outSize [] input
    if tokenIsWellFormed out then some out else none

/-! ### The scanner -/

theorem charInAlphabet_iff (c : UInt8) : charInAlphabet c ↔ IsTokenByte c :=
  Token.forall_byte (fun c => charInAlphabet c ↔ IsTokenByte c) (by decide +kernel) c

/-- A group is read as its characters. -/
theorem skipGroup_eq_some {n : ℕ} {p rest : Bytes} :
    skipGroup n p = some rest ↔
      ∃ group, group.length = n ∧ (∀ b ∈ group, IsTokenByte b) ∧ p = group ++ rest := by
  induction n generalizing p with
  | zero =>
    rw [skipGroup, Option.some.injEq]
    constructor
    · rintro rfl
      exact ⟨[], rfl, by simp, rfl⟩
    · rintro ⟨group, empty, -, rfl⟩
      rw [List.length_eq_zero_iff.mp empty, List.nil_append]
  | succ n ih =>
    rw [skipGroup]
    constructor
    · intro skipped
      split_ifs at skipped with known
      obtain ⟨group, count, all, same⟩ := ih.mp skipped
      -- the terminator is not in the alphabet
      cases p with
      | nil => exact absurd ((charInAlphabet_iff 0).mp known) (by decide)
      | cons b p =>
        obtain rfl : p = group ++ rest := same
        refine ⟨b :: group, by simp [count], ?_, rfl⟩
        simpa using ⟨(charInAlphabet_iff b).mp known, all⟩
    · rintro ⟨group, count, all, rfl⟩
      cases group with
      | nil => simp at count
      | cons b group =>
        have known : charInAlphabet b := (charInAlphabet_iff b).mpr (all b List.mem_cons_self)
        rw [List.cons_append, List.headD_cons, if_pos known, List.tail_cons]
        apply ih.mpr
        refine ⟨group, by simpa using count, ?_, rfl⟩
        exact fun c member => all c (List.mem_cons_of_mem _ member)

theorem skipGroup_group (group : Token.Group) (rest : Bytes) :
    skipGroup 4 (group.text ++ rest) = some rest :=
  skipGroup_eq_some.mpr ⟨group.text, group.length, group.characters, rfl⟩

/-- One group, at the end of the string. -/
theorem skipGroups_one {p : Bytes} : skipGroups 1 p = skipGroup 4 p := by
  rw [skipGroups]
  cases skipGroup 4 p <;> rfl

/-- A group, a dash and more groups. -/
theorem skipGroups_succ {g : ℕ} {p rest : Bytes} :
    skipGroups (g + 2) p = some rest ↔
      ∃ (group : Token.Group) (more : Bytes), p = group.text ++ Token.dash :: more ∧
        skipGroups (g + 1) more = some rest := by
  rw [skipGroups]
  constructor
  · intro skipped
    split at skipped
    · cases skipped
    · rename_i behind read
      obtain ⟨group, count, all, rfl⟩ := skipGroup_eq_some.mp read
      rw [if_neg (by omega)] at skipped
      split_ifs at skipped with dashed
      -- nor is it a dash
      cases behind with
      | nil => cases dashed
      | cons b more =>
        obtain rfl : b = Token.dash := dashed
        exact ⟨⟨group, count, all⟩, more, rfl, skipped⟩
  · rintro ⟨group, more, rfl, skipped⟩
    rw [skipGroup_group]
    exact skipped

/-- The scanner accepts the texts of tokens and nothing else. -/
theorem tokenIsWellFormed_iff {s : Bytes} (noNul : 0 ∉ s) :
    tokenIsWellFormed s ↔ ∃ token : Token, s = token.text := by
  rw [tokenIsWellFormed]
  constructor
  · intro accepted
    split_ifs at accepted with starts
    obtain ⟨p, rfl⟩ := List.isPrefixOf_iff_prefix.mp starts
    -- three groups are read off behind the prefix
    have behind : (bytes "TTHR-" ++ p).drop 5 = p := List.drop_left' rfl
    rw [behind] at accepted
    split at accepted
    · cases accepted
    · rename_i rest skipped
      obtain ⟨first, q, rfl, afterFirst⟩ := skipGroups_succ.mp skipped
      obtain ⟨second, r, rfl, afterSecond⟩ := skipGroups_succ.mp afterFirst
      rw [skipGroups_one] at afterSecond
      obtain ⟨third, count, all, rfl⟩ := skipGroup_eq_some.mp afterSecond
      refine ⟨⟨first, second, ⟨third, count, all⟩⟩, ?_⟩
      cases rest with
      | nil => simp [Token.text]
      | cons b rest =>
        -- only the terminator ends the string
        obtain rfl : b = 0 := by simpa using accepted
        simp at noNul
  · rintro ⟨token, rfl⟩
    have starts : (bytes "TTHR-").isPrefixOf token.text := by
      rw [List.isPrefixOf_iff_prefix, Token.text, List.append_assoc]
      exact List.prefix_append _ _
    have behind : token.text.drop 5 = token.first.text ++
        Token.dash :: (token.second.text ++ Token.dash :: (token.third.text ++ [])) := by
      rw [Token.text, List.append_assoc, List.append_nil]
      exact List.drop_left' rfl
    have skipped : skipGroups 3 (token.text.drop 5) = some [] := by
      rw [behind]
      apply skipGroups_succ.mpr
      refine ⟨token.first, _, rfl, ?_⟩
      apply skipGroups_succ.mpr
      refine ⟨token.second, _, rfl, ?_⟩
      rw [skipGroups_one]
      exact skipGroup_group token.third []
    rw [if_pos starts, skipped]
    rfl

theorem text_noNul (token : Token) : 0 ∉ token.text := by
  intro member
  have nonzero : ∀ b ∈ token.text, b ≠ 0 :=
    Token.forall_mem_text (· ≠ 0) (by decide) (fun b known => known.ne (by decide)) token
  exact nonzero 0 member rfl

theorem tokenIsWellFormed_text (token : Token) : tokenIsWellFormed token.text :=
  (tokenIsWellFormed_iff (text_noNul token)).mpr ⟨token, rfl⟩

/-! ### Generated tokens -/

theorem generateGroup_characters (random : Fin 12 → UInt8) (g : Fin 3) :
    ∀ b ∈ generateGroup random g, IsTokenByte b := by
  intro b member
  obtain ⟨i, -, rfl⟩ := List.mem_map.mp member
  -- every draw hits the padded alphabet
  have padded : ∀ n < 32, IsTokenByte (kAlphabetPadded.getD n 0) := by decide +kernel
  apply padded
  rw [UInt8.toNat_and]
  exact Nat.lt_succ_of_le Nat.and_le_right

/-- The group that four of the random bytes select. -/
def drawn (random : Fin 12 → UInt8) (g : Fin 3) : Token.Group where
  text := generateGroup random g
  length := by simp [generateGroup]
  characters := generateGroup_characters random g

/-- With enough room and random bytes, a token is generated. -/
theorem tokenGenerate_spec {outSize : ℕ} (room : 20 ≤ outSize) (random : Fin 12 → UInt8) :
    tokenGenerate outSize (some random) =
      some (Token.text ⟨drawn random 0, drawn random 1, drawn random 2⟩) := by
  rw [tokenGenerate, if_neg (by omega), Option.map_some]
  simp [Token.text, drawn]

/-! ### Canonical forms -/

/-- What needs no change is copied, as far as there is room. -/
theorem normaliseLoop_kept {outSize : ℕ} {out p : Bytes}
    (room : out.length + p.length + 1 ≤ outSize)
    (kept : ∀ b ∈ p, isStripped b = false ∧ collapse b = b) :
    normaliseLoop outSize out p = out ++ p := by
  induction p generalizing out with
  | nil => simp [normaliseLoop]
  | cons b p ih =>
    obtain ⟨stays, same⟩ := kept b List.mem_cons_self
    rw [List.length_cons] at room
    rw [normaliseLoop, if_pos (by omega), stays, if_neg (by simp), same,
      ih (by simp; omega) fun c member => kept c (List.mem_cons_of_mem _ member)]
    simp

theorem toupper_isTokenByte {b : UInt8} (known : IsTokenByte b) : toupper b = b := by
  rw [toupper, if_neg]
  rintro ⟨small, -⟩
  rw [UInt8.le_iff_toNat_le] at small
  have large : 97 ≤ b.toNat := small
  rw [IsTokenByte] at known
  omega

/-- The characters of tokens are kept. -/
theorem collapse_isTokenByte {b : UInt8} : IsTokenByte b → isStripped b = false ∧ collapse b = b :=
  Token.forall_byte (fun b => IsTokenByte b → isStripped b = false ∧ collapse b = b)
    (by decide +kernel) b

/-- A token's text is its own canonical form. -/
theorem tokenNormalise_text {outSize : ℕ} (room : 20 ≤ outSize) (token : Token) :
    tokenNormalise token.text outSize = some token.text := by
  have kept : ∀ b ∈ token.text, isStripped b = false ∧ collapse b = b :=
    Token.forall_mem_text (fun b => isStripped b = false ∧ collapse b = b)
      (by decide) (fun _ => collapse_isTokenByte) token
  have same : normaliseLoop outSize [] token.text = token.text :=
    normaliseLoop_kept (by rw [Token.text_length, List.length_nil]; omega) kept
  rw [tokenNormalise, if_neg (by omega), same]
  exact if_pos (tokenIsWellFormed_text token)

/-- The loop writes no NUL if it reads none. -/
theorem normaliseLoop_noNul {outSize : ℕ} {out p : Bytes} (written : 0 ∉ out) (noNul : 0 ∉ p) :
    0 ∉ normaliseLoop outSize out p := by
  -- no other byte collapses to the terminator
  have nonzero (b : UInt8) : b ≠ 0 → collapse b ≠ 0 :=
    Token.forall_byte (fun b => b ≠ 0 → collapse b ≠ 0) (by decide +kernel) b
  induction p generalizing out with
  | nil => exact written
  | cons b p ih =>
    rw [List.mem_cons, not_or] at noNul
    rw [normaliseLoop]
    split_ifs
    · exact ih written noNul.2
    · apply ih _ noNul.2
      rw [List.mem_append, List.mem_singleton, not_or]
      exact ⟨written, (nonzero b (Ne.symm noNul.1)).symm⟩
    · exact written

/-- Normalisation yields the texts of tokens only. -/
theorem eq_text_of_tokenNormalise {input t : Bytes} {outSize : ℕ} (noNul : 0 ∉ input)
    (succeeds : tokenNormalise input outSize = some t) : ∃ token : Token, t = token.text := by
  simp only [tokenNormalise] at succeeds
  split_ifs at succeeds with small accepted
  obtain rfl := Option.some.inj succeeds
  exact (tokenIsWellFormed_iff (normaliseLoop_noNul (by simp) noNul)).mp accepted

/-! ### Sloppy spellings -/

/-- The whole of a text without what is stripped, in canonical letters. -/
def canonical (input : Bytes) : Bytes := (input.filter fun c => !isStripped c).map collapse

/-- The loop copies the canonical form as far as there is room. -/
theorem normaliseLoop_eq {outSize : ℕ} {out : Bytes} (room : out.length + 1 ≤ outSize)
    (input : Bytes) :
    normaliseLoop outSize out input = out ++ (canonical input).take (outSize - 1 - out.length) := by
  induction input generalizing out with
  | nil => simp [normaliseLoop, canonical]
  | cons c rest ih =>
    rw [normaliseLoop]
    by_cases free : out.length + 1 < outSize
    · rw [if_pos free]
      by_cases stripped : isStripped c
      · have same : canonical (c :: rest) = canonical rest := by simp [canonical, stripped]
        rw [if_pos stripped, ih room, same]
      · have more : canonical (c :: rest) = collapse c :: canonical rest := by
          simp [canonical, stripped]
        have left : outSize - 1 - out.length = outSize - 1 - (out ++ [collapse c]).length + 1 := by
          rw [List.length_append, List.length_singleton]
          omega
        rw [if_neg stripped, ih (by rw [List.length_append, List.length_singleton]; omega), more,
          left, List.take_succ_cons, List.append_assoc, List.singleton_append]
    · -- the last byte is the terminator's
      have full : outSize - 1 - out.length = 0 := by omega
      rw [if_neg free, full, List.take_zero, List.append_nil]

/-- Normalisation is exact: it succeeds for the sloppy spellings of tokens, with the
token, which is its own canonical form. -/
structure Normalises (input : Bytes) (outSize : ℕ) : Prop where
  exact : tokenNormalise input outSize =
    if tokenIsWellFormed (canonical input) then some (canonical input) else none
  again : ∀ t size, tokenNormalise input outSize = some t → 20 ≤ size →
    tokenNormalise t size = some t

/-- Something follows a complete token. -/
def Trails (input : Bytes) : Prop :=
  19 < (canonical input).length ∧ tokenIsWellFormed ((canonical input).take 19)

theorem canonical_noNul {input : Bytes} (noNul : 0 ∉ input) : 0 ∉ canonical input := by
  have whole : normaliseLoop ((canonical input).length + 1) [] input = canonical input := by
    rw [normaliseLoop_eq (by simp)]
    simp
  rw [← whole]
  exact normaliseLoop_noNul (by simp) noNul

theorem length_of_wellFormed {s : Bytes} (noNul : 0 ∉ s) (wellFormed : tokenIsWellFormed s) :
    s.length = 19 := by
  obtain ⟨token, rfl⟩ := (tokenIsWellFormed_iff noNul).mp wellFormed
  exact token.text_length

theorem tokenNormalise_eq {outSize : ℕ} (room : 20 ≤ outSize) (input : Bytes) :
    tokenNormalise input outSize =
      if tokenIsWellFormed ((canonical input).take (outSize - 1)) then
        some ((canonical input).take (outSize - 1))
      else none := by
  rw [tokenNormalise, if_neg (by omega), normaliseLoop_eq (by simp; omega)]
  simp

/-- Normalisation is exact unless the buffer is as small as a token and the input has
something behind one. -/
theorem normalises_iff {input : Bytes} {outSize : ℕ} (noNul : 0 ∉ input) (room : 20 ≤ outSize) :
    Normalises input outSize ↔ ¬ (outSize = 20 ∧ Trails input) := by
  have clean := canonical_noNul noNul
  have cleanTake (n : ℕ) : 0 ∉ (canonical input).take n := fun member =>
    clean (List.mem_of_mem_take member)
  constructor
  · rintro ⟨exact_, -⟩ ⟨rfl, longer, wellFormed⟩
    have whole : ¬ tokenIsWellFormed (canonical input) := by
      intro wellFormed
      have := length_of_wellFormed clean wellFormed
      omega
    rw [tokenNormalise_eq room, if_neg whole, if_pos wellFormed] at exact_
    cases exact_
  · intro sound
    refine ⟨?_, ?_⟩
    · rw [tokenNormalise_eq room]
      by_cases fits : (canonical input).length ≤ outSize - 1
      · rw [List.take_of_length_le fits]
      · -- neither the cut text nor the whole one is a token
        have whole : ¬ tokenIsWellFormed (canonical input) := by
          intro wellFormed
          have := length_of_wellFormed clean wellFormed
          omega
        have cut : ¬ tokenIsWellFormed ((canonical input).take (outSize - 1)) := by
          intro wellFormed
          have length := length_of_wellFormed (cleanTake _) wellFormed
          rw [List.length_take] at length
          obtain rfl : outSize = 20 := by omega
          exact sound ⟨rfl, by omega, wellFormed⟩
        rw [if_neg whole, if_neg cut]
    · intro t size succeeds large
      obtain ⟨token, rfl⟩ := eq_text_of_tokenNormalise noNul succeeds
      exact tokenNormalise_text large token

/-- Spaces, quotes and small letters are no obstacle. -/
theorem normalises_iff_pasted :
    tokenNormalise (bytes "'tthr-abcd-efgh-jkm2' ") 20 = some (bytes "TTHR-ABCD-EFGH-JKM2") := by
  have noNul : 0 ∉ bytes "'tthr-abcd-efgh-jkm2' " := by decide
  have exact_ := ((normalises_iff noNul Nat.le.refl).mpr fun trails =>
    absurd trails.2.1 (by decide +kernel)).exact
  rw [exact_]
  decide +kernel

/-- A letter behind a token is cut off in a buffer that just holds the token. -/
theorem trailing_letter_accepted :
    ¬ Normalises (bytes "TTHR-ABCD-EFGH-JKM2X") 20 := by
  rintro ⟨exact_, -⟩
  revert exact_
  decide +kernel

end Tether.Plugin
