import Tether.Backend.Room
import Tether.Js.Regex
import Tether.Token.Format

/-!
# The edge

The worker in front of the rooms: it mints tokens, checks the form of the ones
that it is given, and hands a connection to the room of that name.

## Main definitions

* `tokenRegex`, `generateToken` — the form of a token, and a new one
* `edgeFetch` — where a request goes

## Main results

* `test_tokenRegex` — the expression matches the texts of tokens
* `generateToken_spec` — what is minted is one
-/

namespace Tether.Backend

open Text Js

/-! ### Tokens -/

/-- `[A-HJKMNPQRSTUVWXYZ2-9]` -/
def tokenClass : List (Char × Char) :=
  [('A', 'H'), ('J', 'J'), ('K', 'K'), ('M', 'M'), ('N', 'N'), ('P', 'P'), ('Q', 'Q'),
    ('R', 'R'), ('S', 'S'), ('T', 'T'), ('U', 'U'), ('V', 'V'), ('W', 'W'), ('X', 'X'),
    ('Y', 'Y'), ('Z', 'Z'), ('2', '9')]

/-- `TOKEN_REGEX`: a prefix and three groups of four. -/
def tokenRegex : Pattern :=
  literal "TTHR-" * (charClass tokenClass ^ 4 * (literal "-" * (charClass tokenClass ^ 4 *
    (literal "-" * charClass tokenClass ^ 4))))

/-- `ALPHABET` -/
def alphabet : Bytes := bytes "ABCDEFGHJKMNPQRSTUVWXYZ23456789"

/-- The characters that one buffer of random bytes selects. -/
def mintGroup (buf : Fin 4 → UInt8) : Bytes :=
  (List.finRange 4).map fun i => alphabet.getD ((buf i).toNat % alphabet.length) 0

/-- `generateToken`, with what `crypto.getRandomValues` puts into the buffers. -/
def generateToken (bufs : Fin 3 → Fin 4 → UInt8) : Str :=
  ofAscii (bytes "TTHR-" ++ mintGroup (bufs 0) ++
    45 :: mintGroup (bufs 1) ++ 45 :: mintGroup (bufs 2))

/-! ### Requests -/

/-- What the worker looks at; `tokenParam` is the decoded query parameter. -/
structure Request where
  pathname : Str
  upgrade : Option Str
  tokenParam : Option Str

/-- An answer of the worker itself, or the room that the request is handed to,
under its name in `X-Tether-Room`. -/
inductive Routed
  | response (body : String) (status : ℕ)
  | room (name : Str)
  deriving DecidableEq

/-- `fetch`; `bufs` is the randomness of a token that is minted here. -/
def edgeFetch (engine : Engine) (bufs : Fin 3 → Fin 4 → UInt8) (request : Request) : Routed :=
  if request.pathname = str "/health" then .response "ok" 200
  else if request.pathname ≠ str "/v1" then .response "not found" 404
  else if request.upgrade ≠ some (str "websocket") then .response "expected websocket" 426
  else match request.tokenParam.getD [] with
    | [] => .room (generateToken bufs)
    | tokenParam =>
      let normalised := engine.toUpperCase tokenParam
      if test tokenRegex normalised then .room normalised
      else .response "invalid token" 400

/-! ### The expression -/

theorem mem_tokenClass_of_isTokenByte (b : UInt8) :
    IsTokenByte b → UInt16.ofNat b.toNat ∈ classUnits tokenClass :=
  Token.forall_byte (fun b => IsTokenByte b → UInt16.ofNat b.toNat ∈ classUnits tokenClass)
    (by decide +kernel) b

/-- The units of the class are the characters of tokens. -/
theorem exists_isTokenByte {u : UInt16} (member : u ∈ classUnits tokenClass) :
    ∃ b, IsTokenByte b ∧ u = UInt16.ofNat b.toNat := by
  have all : ∀ u ∈ classUnits tokenClass, IsTokenByte (UInt8.ofNat u.toNat) ∧
      u = UInt16.ofNat (UInt8.ofNat u.toNat).toNat := by
    decide +kernel
  exact ⟨_, all u member⟩

/-- Four times the class is a group. -/
theorem mem_tokenClass_pow {s : Str} :
    s ∈ (charClass tokenClass ^ 4).matches' ↔ ∃ group : Token.Group, s = ofAscii group.text := by
  rw [mem_charClass_pow]
  constructor
  · rintro ⟨count, all⟩
    let narrow (u : UInt16) : UInt8 := UInt8.ofNat u.toNat
    have each (u : UInt16) (member : u ∈ s) :
        IsTokenByte (narrow u) ∧ UInt16.ofNat (narrow u).toNat = u := by
      obtain ⟨b, character, rfl⟩ := exists_isTokenByte (all u member)
      have same : narrow (UInt16.ofNat b.toNat) = b := by
        have bound : (UInt16.ofNat b.toNat).toNat = b.toNat :=
          UInt16.toNat_ofNat_of_lt' (lt_trans b.toNat_lt (by decide))
        simp only [narrow, bound, UInt8.ofNat_toNat]
      rw [same]
      exact ⟨character, rfl⟩
    refine ⟨⟨s.map narrow, by simpa using count, ?_⟩, ?_⟩
    · intro b member
      obtain ⟨u, old, rfl⟩ := List.mem_map.mp member
      exact (each u old).1
    · rw [ofAscii, List.map_map]
      symm
      calc s.map _ = s.map id := List.map_congr_left fun u member => (each u member).2
        _ = s := List.map_id s
  · rintro ⟨group, rfl⟩
    refine ⟨by simpa [ofAscii] using group.length, ?_⟩
    intro u member
    obtain ⟨b, character, rfl⟩ := List.mem_map.mp member
    exact mem_tokenClass_of_isTokenByte b (group.characters b character)

/-- The expression matches the texts of tokens and nothing else. -/
theorem test_tokenRegex {s : Str} :
    test tokenRegex s ↔ ∃ token : Token, s = ofAscii token.text := by
  have spelled (token : Token) : ofAscii token.text =
      str "TTHR-" ++ (ofAscii token.first.text ++ (str "-" ++ (ofAscii token.second.text ++
        (str "-" ++ ofAscii token.third.text)))) := by
    have start : ofAscii (bytes "TTHR-") = str "TTHR-" := rfl
    have dash : ofAscii [Token.dash] = str "-" := rfl
    simp only [← start, ← dash, ofAscii, Token.text, List.map_append, List.map_cons,
      List.append_assoc, List.map_nil, List.cons_append, List.nil_append]
  rw [test_iff, tokenRegex]
  -- the pieces of a match are the pieces of a token
  simp only [RegularExpression.matches'_mul, Language.mem_mul, mem_literal]
  constructor
  · rintro ⟨_, rfl, _, ⟨a, inFirst, _, ⟨_, rfl, _, ⟨b, inSecond, _, ⟨_, rfl, c, inThird, rfl⟩,
      rfl⟩, rfl⟩, rfl⟩, rfl⟩
    obtain ⟨first, rfl⟩ := mem_tokenClass_pow.mp inFirst
    obtain ⟨second, rfl⟩ := mem_tokenClass_pow.mp inSecond
    obtain ⟨third, rfl⟩ := mem_tokenClass_pow.mp inThird
    exact ⟨⟨first, second, third⟩, (spelled ⟨first, second, third⟩).symm⟩
  · rintro ⟨token, rfl⟩
    rw [spelled]
    exact ⟨_, rfl, _, ⟨_, mem_tokenClass_pow.mpr ⟨token.first, rfl⟩, _, ⟨_, rfl, _,
      ⟨_, mem_tokenClass_pow.mpr ⟨token.second, rfl⟩, _, ⟨_, rfl, _,
        mem_tokenClass_pow.mpr ⟨token.third, rfl⟩, rfl⟩, rfl⟩, rfl⟩, rfl⟩, rfl⟩

/-! ### Minted tokens -/

theorem mintGroup_characters (buf : Fin 4 → UInt8) : ∀ b ∈ mintGroup buf, IsTokenByte b := by
  intro b member
  obtain ⟨i, -, rfl⟩ := List.mem_map.mp member
  have characters : ∀ n < alphabet.length, IsTokenByte (alphabet.getD n 0) := by decide +kernel
  exact characters _ (Nat.mod_lt _ (by decide))

/-- The group of one buffer. -/
def minted (buf : Fin 4 → UInt8) : Token.Group where
  text := mintGroup buf
  length := by simp [mintGroup]
  characters := mintGroup_characters buf

/-- The worker mints tokens. -/
theorem generateToken_spec (bufs : Fin 3 → Fin 4 → UInt8) :
    generateToken bufs =
      ofAscii (Token.text ⟨minted (bufs 0), minted (bufs 1), minted (bufs 2)⟩) := by
  simp [generateToken, Token.text, minted]

end Tether.Backend
