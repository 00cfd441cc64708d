import Tether.Backend.Edge
import Tether.EndToEnd.Delivery
import Tether.Plugin.ReceiveSession
import Tether.Plugin.Token

/-!
# One grammar of tokens

The plugin's scanner, the edge's expression, both generators and the normaliser
speak about the same texts. So a token that a receiver types leads it to the room
of that name, and its hello names the token of that room.

## Main definitions

* `spell` — an ASCII byte string as a text
* `ReadsAscii` — what the engine does with ASCII texts and with zero
* `helloValue` — the object of a receiver's hello

## Main results

* `one_token_grammar` — recognition, generation and routing agree
-/

namespace Tether.EndToEnd

open Text Js Plugin
open Backend (Room Routed Request tokenRegex generateToken edgeFetch)

/-! ### ASCII texts -/

/-- The text of ASCII bytes. -/
def spell (s : Bytes) : List Char := s.map fun b => Char.ofNat b.toNat

section Ascii

variable {s : Bytes} (ascii : ∀ b ∈ s, b.toNat < 128)

theorem toNat_ofNat_ascii {b : UInt8} (low : b.toNat < 128) : (Char.ofNat b.toNat).toNat = b.toNat :=
  toNat_charOfNat (.inl (by omega))

include ascii in
theorem utf8_spell : utf8 (spell s) = s := by
  induction s with
  | nil => rfl
  | cons b rest ih =>
    have low := ascii b List.mem_cons_self
    have code := toNat_ofNat_ascii low
    rw [spell, List.map_cons, utf8_cons, utf8EncodeChar_ascii (by omega), code, UInt8.ofNat_toNat,
      ← spell, ih fun c member => ascii c (List.mem_cons_of_mem _ member), List.singleton_append]

include ascii in
theorem utf16_spell : utf16 (spell s) = ofAscii s := by
  induction s with
  | nil => rfl
  | cons b rest ih =>
    have low := ascii b List.mem_cons_self
    have code := toNat_ofNat_ascii low
    have unit : utf16Char (Char.ofNat b.toNat) = [UInt16.ofNat b.toNat] := by
      rw [utf16Char, if_pos (by omega), code]
    have others := ih fun c member => ascii c (List.mem_cons_of_mem _ member)
    rw [utf16, spell] at others
    rw [utf16, spell, List.map_cons, List.flatMap_cons, unit, others]
    rfl

/-- A character that starts with an ASCII unit is that unit. -/
theorem utf16Char_ascii {c : Char} {b : UInt8} (low : b.toNat < 128) {units more : Str}
    (same : utf16Char c ++ more = UInt16.ofNat b.toNat :: units) :
    c = Char.ofNat b.toNat ∧ more = units := by
  have unit : (UInt16.ofNat b.toNat).toNat = b.toNat :=
    UInt16.toNat_ofNat_of_lt' (lt_trans low (by decide))
  rw [utf16Char] at same
  split_ifs at same with basic
  · obtain ⟨head, rfl⟩ := List.cons.inj same
    have number := congrArg UInt16.toNat head
    rw [unit, UInt16.toNat_ofNat_of_lt' basic] at number
    refine ⟨?_, rfl⟩
    rw [← number, Char.ofNat_toNat]
  · obtain ⟨head, -⟩ := List.cons.inj same
    have number := congrArg UInt16.toNat head
    -- a surrogate is no ASCII unit
    have bound : c.toNat < 0x110000 := by
      have valid := c.valid
      have value : c.toNat = c.val.toNat := rfl
      rcases valid with below | ⟨-, above⟩
      · omega
      · omega
    rw [unit, UInt16.toNat_ofNat_of_lt' (by simp [UInt16.size]; omega)] at number
    omega

include ascii in
/-- A text with the units of ASCII bytes is spelled by them. -/
theorem eq_spell {text : List Char} (same : utf16 text = ofAscii s) : text = spell s := by
  induction s generalizing text with
  | nil =>
    cases text with
    | nil => rfl
    | cons c text =>
      rw [utf16, List.flatMap_cons, utf16Char] at same
      split_ifs at same <;> cases same
  | cons b rest ih =>
    cases text with
    | nil => cases same
    | cons c text =>
      obtain ⟨rfl, others⟩ := utf16Char_ascii (ascii b List.mem_cons_self) same
      rw [ih (fun c member => ascii c (List.mem_cons_of_mem _ member)) others]
      rfl

end Ascii

/-! ### Tokens as texts -/

theorem text_ascii (token : Token) : ∀ b ∈ token.text, b.toNat < 128 :=
  Token.forall_mem_text (fun b => b.toNat < 128) (by decide) (fun _ known => known.ascii) token

theorem text_upper (token : Token) : token.text.map toupper = token.text := by
  have upper : ∀ b ∈ token.text, toupper b = b :=
    Token.forall_mem_text (fun b => toupper b = b) (by decide)
      (fun _ known => toupper_isTokenByte known) token
  calc token.text.map toupper = token.text.map id := List.map_congr_left upper
    _ = token.text := List.map_id _

theorem body_text (token : Token) : body (ofAscii token.text) = token.text := by
  have plain : ∀ b ∈ token.text, PlainByte b := by
    refine Token.forall_mem_text PlainByte (by decide) (fun b known => ?_) token
    have printable : 32 ≤ b.toNat := by
      rw [IsTokenByte] at known
      omega
    exact ⟨printable, known.ascii, known.ne (by decide), known.ne (by decide)⟩
  exact body_ofAscii plain

/-- The scanner accepts the encodings of the texts that the expression matches. -/
theorem tokenIsWellFormed_iff_test {s : Bytes} (noNul : 0 ∉ s) :
    tokenIsWellFormed s ↔ ∃ text, s = utf8 text ∧ test tokenRegex (utf16 text) := by
  rw [tokenIsWellFormed_iff noNul]
  constructor
  · rintro ⟨token, rfl⟩
    refine ⟨spell token.text, (utf8_spell (text_ascii token)).symm, ?_⟩
    exact Backend.test_tokenRegex.mpr ⟨token, utf16_spell (text_ascii token)⟩
  · rintro ⟨text, rfl, matched⟩
    obtain ⟨token, same⟩ := Backend.test_tokenRegex.mp matched
    refine ⟨token, ?_⟩
    rw [eq_spell (text_ascii token) same, utf8_spell (text_ascii token)]

/-! ### The engine -/

/-- On ASCII texts `toUpperCase` changes the small letters; `0` is read as a
number that is written like this. -/
structure ReadsAscii (engine : Engine) : Prop where
  upperCase : ∀ text : Bytes, (∀ b ∈ text, b.toNat < 128) →
    engine.toUpperCase (ofAscii text) = ofAscii (text.map toupper)
  zero : (engine.numeral ['0']).value = .fin 0 ∧ (engine.numeral ['0']).text = ['0']

theorem readsAscii_asciiEngine : ReadsAscii asciiEngine := by
  constructor
  · intro text ascii
    have each : ∀ b : UInt8, (fun u : UInt16 => if 97 ≤ u ∧ u ≤ 122 then u - 32 else u)
        (UInt16.ofNat b.toNat) = UInt16.ofNat (toupper b).toNat :=
      Token.forall_byte _ (by decide +kernel)
    have mapped : asciiEngine.toUpperCase (ofAscii text) = (ofAscii text).map
        fun u => if 97 ≤ u ∧ u ≤ 122 then u - 32 else u := rfl
    rw [mapped, ofAscii, ofAscii, List.map_map, List.map_map]
    exact List.map_congr_left fun b _ => each b
  · exact ⟨by decide +kernel, rfl⟩

/-- A text that every part of the program takes for a token as it is. -/
structure Agreed (engine : Engine) (t : Bytes) : Prop where
  wellFormed : tokenIsWellFormed t
  matched : test tokenRegex (ofAscii t)
  normalised : ∀ outSize, 20 ≤ outSize → tokenNormalise t outSize = some t
  upperCase : engine.toUpperCase (ofAscii t) = ofAscii t

section Engine

variable {engine : Engine} (reads : ReadsAscii engine)

include reads

/-- A token's text has no other case. -/
theorem toUpperCase_text (token : Token) :
    engine.toUpperCase (ofAscii token.text) = ofAscii token.text := by
  rw [reads.upperCase _ (text_ascii token), text_upper]

/-! ### Routing -/

/-- The edge hands a request with a token to the room of that name. -/
theorem edgeFetch_text (bufs : Fin 3 → Fin 4 → UInt8) (token : Token) :
    edgeFetch engine bufs ⟨str "/v1", some (str "websocket"), some (ofAscii token.text)⟩ =
      .room (ofAscii token.text) := by
  have other : str "/v1" ≠ str "/health" := by decide
  have matched : test tokenRegex (ofAscii token.text) :=
    Backend.test_tokenRegex.mpr ⟨token, rfl⟩
  -- an empty parameter would be a request for a new room
  obtain ⟨u, rest, nonempty⟩ : ∃ u rest, ofAscii token.text = u :: rest := by
    cases shape : ofAscii token.text with
    | nil =>
      have length := congrArg List.length shape
      rw [ofAscii, List.length_map, Token.text_length] at length
      cases length
    | cons u rest => exact ⟨u, rest, rfl⟩
  have upper := toUpperCase_text reads token
  rw [edgeFetch, if_neg other, if_neg (by simp), if_neg (by simp), Option.getD_some]
  rw [nonempty] at upper matched ⊢
  simp only [upper, matched, if_true]

/-! ### The hello -/

/-- The object of a receiver's hello. -/
def helloValue (engine : Engine) (token : Str) : Value :=
  .obj [(str "type", .str (str "hello")), (str "role", .str (str "receiver")),
    (str "name", .str (str "Tether")), (str "token", .str token),
    (str "ttl_minutes", .num (engine.numeral ['0'])), (str "reusable", .bool false)]

theorem reads_zero : Reads engine (engine.numeral ['0']) := by
  obtain ⟨value, text⟩ := reads.zero
  refine ⟨⟨0, value⟩, by rw [text], fun rest ends => ?_⟩
  rw [text]
  rcases ends with rfl | ⟨c, more, rfl, rfl | rfl | rfl⟩ <;> rfl

theorem parse_helloValue (token : Str) :
    parse engine (stringify (helloValue engine token)) = some (helloValue engine token) := by
  apply parse_stringify
  exact ⟨rfl, trivial, rfl, trivial, rfl, trivial, rfl, trivial, rfl, reads_zero reads, rfl, trivial,
    trivial⟩

/-- The hello of a receiving session is the text of this object. -/
theorem helloText_eq (token : Token) :
    helloText (ReceiveSession.signaling token.text) =
      utf8 (stringify (helloValue engine (ofAscii token.text))) := by
  obtain ⟨value, text⟩ := reads.zero
  have zero : stringify (.num (engine.numeral ['0'])) = ['0'] := by
    rw [stringify, value, text]
  -- the members behind the token do not depend on it
  have tail : utf8 (stringifyMembers [(str "ttl_minutes", .num (engine.numeral ['0'])),
      (str "reusable", .bool false)]) =
      44 :: bytes "\"ttl_minutes\":" ++ bytes (toString (0 : ℤ)) ++
        44 :: bytes "\"reusable\":" ++ bytes "false" ++ [125] := by
    rw [stringifyMembers, stringifyMembers, stringifyMembers, zero]
    decide +kernel
  -- one member after the other, as the client writes them
  have shape : stringify (helloValue engine (ofAscii token.text)) =
      '\x7b' :: ((quoteText (str "type") ++ ':' :: stringify (.str (str "hello"))) ++
        ',' :: ((quoteText (str "role") ++ ':' :: stringify (.str (str "receiver"))) ++
          ',' :: ((quoteText (str "name") ++ ':' :: stringify (.str (str "Tether"))) ++
            ',' :: ((quoteText (str "token") ++ ':' :: stringify (.str (ofAscii token.text))) ++
              stringifyMembers [(str "ttl_minutes", .num (engine.numeral ['0'])),
                (str "reusable", .bool false)])))) := by
    simp [helloValue, stringify, stringifyMembers]
  have literals : body (str "hello") = bytes "hello" ∧ body (str "receiver") = bytes "receiver" ∧
      body (str "Tether") = bytes "Tether" := by
    decide +kernel
  obtain ⟨hello, receiver, tether⟩ := literals
  have opening : String.utf8EncodeChar '\x7b' = [123] := rfl
  have comma : String.utf8EncodeChar ',' = [44] := rfl
  rw [shape]
  simp only [utf8_cons, utf8_append _ (',' :: _), opening, comma]
  rw [utf8_append _ (stringifyMembers _), tail, utf8_member "type" (by decide) (by decide),
    utf8_member "role" (by decide) (by decide), utf8_member "name" (by decide) (by decide),
    utf8_member "token" (by decide) (by decide), hello, receiver, tether, body_text token]
  simp [helloText, ReceiveSession.signaling, braced]

/-! ### Agreement -/

theorem agreed_text (token : Token) : Agreed engine token.text where
  wellFormed := tokenIsWellFormed_text token
  matched := Backend.test_tokenRegex.mpr ⟨token, rfl⟩
  normalised := fun _ room => tokenNormalise_text room token
  upperCase := toUpperCase_text reads token

/-- The scanner accepts exactly what the expression matches; what either side
generates is a token for every part; and a text that a receiver can normalise
leads to the room of that name, whose token its hello claims. -/
theorem one_token_grammar :
    (∀ s : Bytes, 0 ∉ s →
      (tokenIsWellFormed s ↔ ∃ text, s = utf8 text ∧ test tokenRegex (utf16 text))) ∧
    (∀ outSize random, 20 ≤ outSize →
      ∃ t, tokenGenerate outSize (some random) = some t ∧ Agreed engine t) ∧
    (∀ bufs, ∃ t, generateToken bufs = ofAscii t ∧ Agreed engine t) ∧
    ∀ input outSize t, 0 ∉ input → tokenNormalise input outSize = some t →
      (∀ bufs, edgeFetch engine bufs
        ⟨str "/v1", some (str "websocket"), some (ofAscii t)⟩ = .room (ofAscii t)) ∧
      ∀ room : Room, (room.fetch (some (ofAscii t)) (some (ofAscii t))).token = some (ofAscii t) ∧
        ∃ text msg, helloText (ReceiveSession.signaling t) = utf8 text ∧
          parse engine text = some msg ∧
          Room.claimed engine (some (ofAscii t)) msg =
            (room.fetch (some (ofAscii t)) (some (ofAscii t))).token := by
  refine ⟨fun s noNul => tokenIsWellFormed_iff_test noNul, ?_, ?_, ?_⟩
  · intro outSize random room
    exact ⟨_, tokenGenerate_spec room random, agreed_text reads _⟩
  · intro bufs
    exact ⟨_, Backend.generateToken_spec bufs, agreed_text reads _⟩
  · intro input outSize t noNul succeeds
    obtain ⟨token, rfl⟩ := eq_text_of_tokenNormalise noNul succeeds
    refine ⟨fun bufs => edgeFetch_text reads bufs token, fun room => ?_⟩
    have named : (room.fetch (some (ofAscii token.text)) (some (ofAscii token.text))).token =
        some (ofAscii token.text) := by
      have nonempty : ofAscii token.text ≠ [] := by
        intro empty
        have length := congrArg List.length empty
        rw [ofAscii, List.length_map, Token.text_length] at length
        cases length
      -- a room takes the name that the edge has given it
      by_cases same : room.token = some (ofAscii token.text)
      · simp [Room.fetch, same]
      · simp [Room.fetch, nonempty, same]
    refine ⟨named, _, _, helloText_eq reads token, parse_helloValue reads _, ?_⟩
    rw [named]
    exact congrArg some (toUpperCase_text reads token)

end Engine

/-- A token as a user types it. -/
def typedToken : Bytes := bytes " tthr-abcd-efgh-jkm2"

/-- The sample leads to the room of its canonical form. -/
theorem one_token_grammar_typed :
    edgeFetch asciiEngine (fun _ _ => 0)
      ⟨str "/v1", some (str "websocket"), some (ofAscii (bytes "TTHR-ABCD-EFGH-JKM2"))⟩ =
        .room (ofAscii (bytes "TTHR-ABCD-EFGH-JKM2")) := by
  have typed : tokenNormalise typedToken 20 = some (bytes "TTHR-ABCD-EFGH-JKM2") := by
    decide +kernel
  have grammar := (one_token_grammar readsAscii_asciiEngine).2.2.2
  exact (grammar typedToken 20 _ (by decide) typed).1 _

end Tether.EndToEnd
