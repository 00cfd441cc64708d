import Tether.Backend.Room
import Tether.Plugin.Signaling

/-!
# From the room to the client

The room writes JSON with a serialiser, the client looks for names in the text.
Here the event that a message of the room raises is expressed by the message
itself.

## Main definitions

* `raised` — the event of a message, by what the textual lookup finds in it

## Main results

* `handleMessage_stringify` — the client raises this event
* `raised_of_sdp`, `raised_of_ice`, `type_of_raised` — the events of the exchange
-/

namespace Tether.EndToEnd

open Text Js Plugin

/-! ### Literals -/

/-- An ASCII literal has the same code units as bytes. -/
theorem ofAscii_bytes {literal : String} (ascii : ∀ c ∈ literal.toList, c.toNat < 128) :
    ofAscii (bytes literal) = str literal := by
  rw [bytes, str]
  generalize literal.toList = text at ascii
  induction text with
  | nil => rfl
  | cons c rest ih =>
    have low : c.toNat < 128 := ascii c List.mem_cons_self
    have code : (UInt8.ofNat c.toNat).toNat = c.toNat :=
      UInt8.toNat_ofNat_of_lt' (lt_trans low (by decide))
    have unit : utf16Char c = [UInt16.ofNat c.toNat] := if_pos (lt_trans low (by decide))
    have rest' := ih fun d member => ascii d (List.mem_cons_of_mem _ member)
    rw [utf8_cons, utf8EncodeChar_ascii low, utf16, List.flatMap_cons, unit]
    simp only [ofAscii, List.map_append, List.map_cons, List.map_nil, code]
    exact congrArg _ rest'

/-- A string member of the serialiser is one of the client's format strings. -/
theorem utf8_member (name : String) (plain : ∀ b ∈ bytes name, PlainByte b)
    (ascii : ∀ c ∈ name.toList, c.toNat < 128) (s : Str) :
    utf8 (quoteText (str name) ++ ':' :: stringify (.str s)) = member name (body s) := by
  have colon : String.utf8EncodeChar ':' = [58] := rfl
  rw [utf8_append, utf8_cons, stringify, utf8_quoteText, utf8_quoteText, ← ofAscii_bytes ascii,
    body_ofAscii plain, colon, member]
  simp

/-- The identifier of a record in the client's text. -/
theorem body_uuid (id : Backend.Uuid) : body id.str = id.text := by
  refine body_ofAscii fun b member => ?_
  have digit := id.digits b member
  refine ⟨?_, ?_, ?_, ?_⟩
  · rcases digit with ⟨low, -⟩ | ⟨low, -⟩ | rfl
    · omega
    · omega
    · decide
  · rcases digit with ⟨-, high⟩ | ⟨-, high⟩ | rfl
    · omega
    · omega
    · decide
  · rintro rfl
    revert digit
    decide
  · rintro rfl
    revert digit
    decide

/-! ### The event of a message -/

/-- The event that a message raises, by the members that the textual lookup
finds. -/
def raised (value : Value) : Option (SignalingEvent × Msg) :=
  let json := utf8 (stringify value)
  let found (name : String) : Option Str := firstHit (str name) value
  let ofType (type : String) : Prop := found "type" = some (str type)
  let peer := (found "peer_id").map body
  if ofType "token" then some (.tokenIssued, ⟨none, (found "token").map body⟩)
  else if ofType "pending" then some (.requestPending, ⟨peer, some json⟩)
  else if ofType "peer_gone" then some (.peerGone, ⟨peer, none⟩)
  else if ofType "accepted" then some (.requestAccepted, ⟨none, none⟩)
  else if ofType "rejected" then some (.requestRejected, ⟨none, none⟩)
  else if ofType "token_invalid" then some (.tokenInvalid, ⟨none, none⟩)
  else if ofType "token_locked_out" then some (.tokenLockedOut, ⟨none, some json⟩)
  else if ofType "sdp" then
    let offer := found "sdp_type" = some (str "offer")
    some (if offer then .sdpOffer else .sdpAnswer, ⟨peer, some json⟩)
  else if ofType "ice" then some (.iceCandidate, ⟨peer, some json⟩)
  else none

theorem handleMessage_stringify (value : Value) :
    handleMessage (utf8 (stringify value)) = raised value := by
  have find (name : String) (nonempty : bytes name ≠ [])
      (letters : ∀ b ∈ bytes name, b = 95 ∨ 97 ≤ b.toNat ∧ b.toNat ≤ 122)
      (ascii : ∀ c ∈ name.toList, c.toNat < 128) :
      jsonDupStr (utf8 (stringify value)) (bytes name) =
        (firstHit (str name) value).map body := by
    rw [← ofAscii_bytes ascii]
    exact jsonFindStr_stringify nonempty letters value
  have compare (name text : String) (nonempty : bytes name ≠ [])
      (letters : ∀ b ∈ bytes name, b = 95 ∨ 97 ≤ b.toNat ∧ b.toNat ≤ 122)
      (plain : ∀ b ∈ bytes text, PlainByte b) (asciiName : ∀ c ∈ name.toList, c.toNat < 128)
      (asciiText : ∀ c ∈ text.toList, c.toNat < 128) :
      jsonEqStr (utf8 (stringify value)) (bytes name) (bytes text) =
        decide (firstHit (str name) value = some (str text)) := by
    rw [← ofAscii_bytes asciiName, ← ofAscii_bytes asciiText]
    exact jsonEqStr_stringify nonempty letters plain value
  have type (text : String) (plain : ∀ b ∈ bytes text, PlainByte b)
      (ascii : ∀ c ∈ text.toList, c.toNat < 128) :=
    compare "type" text (by decide) (by decide) plain (by decide) ascii
  rw [handleMessage, raised]
  simp only [type "token" (by decide) (by decide), type "pending" (by decide) (by decide),
    type "peer_gone" (by decide) (by decide), type "accepted" (by decide) (by decide),
    type "rejected" (by decide) (by decide), type "token_invalid" (by decide) (by decide),
    type "token_locked_out" (by decide) (by decide), type "sdp" (by decide) (by decide),
    type "ice" (by decide) (by decide), decide_eq_true_eq,
    find "peer_id" (by decide) (by decide) (by decide),
    find "token" (by decide) (by decide) (by decide),
    compare "sdp_type" "offer" (by decide) (by decide) (by decide) (by decide) (by decide)]

/-! ### The exchange of descriptions and candidates -/

section Raised

variable {frame : Value}

theorem raised_of_sdp (type : firstHit (str "type") frame = some (str "sdp")) :
    raised frame = some
      (if firstHit (str "sdp_type") frame = some (str "offer") then .sdpOffer else .sdpAnswer,
        ⟨(firstHit (str "peer_id") frame).map body, some (utf8 (stringify frame))⟩) := by
  have ne (other : String) (different : str "sdp" ≠ str other) :
      ¬ firstHit (str "type") frame = some (str other) := by
    rw [type]
    exact fun same => different (Option.some.inj same)
  simp only [raised, if_neg (ne "token" (by decide)), if_neg (ne "pending" (by decide)),
    if_neg (ne "peer_gone" (by decide)), if_neg (ne "accepted" (by decide)),
    if_neg (ne "rejected" (by decide)), if_neg (ne "token_invalid" (by decide)),
    if_neg (ne "token_locked_out" (by decide)), if_pos type]

theorem raised_of_ice (type : firstHit (str "type") frame = some (str "ice")) :
    raised frame = some (.iceCandidate,
      ⟨(firstHit (str "peer_id") frame).map body, some (utf8 (stringify frame))⟩) := by
  have ne (other : String) (different : str "ice" ≠ str other) :
      ¬ firstHit (str "type") frame = some (str other) := by
    rw [type]
    exact fun same => different (Option.some.inj same)
  simp only [raised, if_neg (ne "token" (by decide)), if_neg (ne "pending" (by decide)),
    if_neg (ne "peer_gone" (by decide)), if_neg (ne "accepted" (by decide)),
    if_neg (ne "rejected" (by decide)), if_neg (ne "token_invalid" (by decide)),
    if_neg (ne "token_locked_out" (by decide)), if_neg (ne "sdp" (by decide)), if_pos type]

/-- Other types raise other events. -/
theorem type_of_raised {evt : SignalingEvent} {m : Msg} (event : raised frame = some (evt, m)) :
    (evt = .sdpOffer ∨ evt = .sdpAnswer → firstHit (str "type") frame = some (str "sdp")) ∧
      (evt = .iceCandidate → firstHit (str "type") frame = some (str "ice")) := by
  by_cases sdp : firstHit (str "type") frame = some (str "sdp")
  · rw [raised_of_sdp sdp] at event
    obtain ⟨rfl, -⟩ := Prod.mk.inj (Option.some.inj event)
    refine ⟨fun _ => sdp, fun ice => ?_⟩
    split_ifs at ice
  by_cases ice : firstHit (str "type") frame = some (str "ice")
  · rw [raised_of_ice ice] at event
    obtain ⟨rfl, -⟩ := Prod.mk.inj (Option.some.inj event)
    exact ⟨nofun, fun _ => ice⟩
  simp only [raised, if_neg sdp, if_neg ice] at event
  split_ifs at event
  all_goals
    obtain ⟨rfl, -⟩ := Prod.mk.inj (Option.some.inj event)
    exact ⟨nofun, nofun⟩

end Raised

end Tether.EndToEnd
