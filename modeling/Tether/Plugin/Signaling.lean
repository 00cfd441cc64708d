import Tether.Js.Search

/-!
# The signaling client

What the client reads out of a text frame, and the text frames it sends. The
reader looks for string members by name and takes the first textual match, so
its results are stated for every byte string and then for serialised JSON.

A frame has no NUL byte in it, and `NULL` is `none`.

## Main definitions

* `jsonFindStr` — the string member lookup
* `handleMessage` — the event a frame raises
* `Signal`, `Signal.text` — the calls that send a frame, and the frame
* `helloText` — the first frame of a connection
* `FlatMembers` — the members of a message without nesting

## Main results

* `jsonFindStr_stringify` — on serialised JSON the lookup finds `Js.firstHit`
* `lookup_flat` — on flat messages it finds the member
-/

namespace Tether.Plugin

open Text Js

/-! ### Data -/

inductive Role
  | sender
  | receiver
  deriving DecidableEq

/-- What the client has been created with. The token is the receiver's own, or
the one that was issued. -/
structure Signaling where
  role : Role
  displayName : Bytes
  token : Option Bytes
  tokenTtlMinutes : ℤ
  reusableToken : Bool

/-- The events that a frame can raise. -/
inductive SignalingEvent
  | tokenIssued
  | requestPending
  | peerGone
  | requestAccepted
  | requestRejected
  | tokenInvalid
  | tokenLockedOut
  | sdpOffer
  | sdpAnswer
  | iceCandidate
  deriving DecidableEq

structure Msg where
  peerId : Option Bytes
  jsonPayload : Option Bytes
  deriving DecidableEq

/-! ### JSON helpers -/

/-- The bytes of a string behind its opening quote: up to the closing one. -/
def stringSpan : Bytes → Bytes
  | 92 :: b :: rest => 92 :: b :: stringSpan rest
  | b :: rest => if b = quote then [] else b :: stringSpan rest
  | [] => []

/-- What `json_find_str` makes of an occurrence of the key: `previous` is the
byte before it, and the suffix `p` starts with it. -/
def stringAt (key : Bytes) (previous : Option UInt8) (p : Bytes) : Option Bytes :=
  -- Require quote-key-quote.
  if previous = some quote ∧ key ++ [quote] <+: p then
    match (p.drop (key.length + 1)).dropWhile fun b => b = 58 || b = 32 with
    | 34 :: start => some (stringSpan start)
    -- the value of some other key, or a member that holds no string
    | _ => none
  else none

/-- The search of `json_find_str` from some position on. -/
def jsonFindFrom (key : Bytes) (previous : Option UInt8) : Bytes → Option Bytes
  | [] => stringAt key previous []
  | b :: rest => (stringAt key previous (b :: rest)).or (jsonFindFrom key (some b) rest)

/-- `json_find_str`: the value's bytes, escapes included. -/
def jsonFindStr (json key : Bytes) : Option Bytes := jsonFindFrom key none json

def jsonEqStr (json key value : Bytes) : Bool := jsonFindStr json key = some value

def jsonDupStr (json key : Bytes) : Option Bytes := jsonFindStr json key

/-! ### Incoming frames -/

/-- `handle_message`: the event that is raised, with its data. -/
def handleMessage (json : Bytes) : Option (SignalingEvent × Msg) :=
  let ofType (type : String) : Bool := jsonEqStr json (bytes "type") (bytes type)
  let peer := jsonDupStr json (bytes "peer_id")
  if ofType "token" then some (.tokenIssued, ⟨none, jsonDupStr json (bytes "token")⟩)
  else if ofType "pending" then some (.requestPending, ⟨peer, some json⟩)
  else if ofType "peer_gone" then some (.peerGone, ⟨peer, none⟩)
  else if ofType "accepted" then some (.requestAccepted, ⟨none, none⟩)
  else if ofType "rejected" then some (.requestRejected, ⟨none, none⟩)
  else if ofType "token_invalid" then some (.tokenInvalid, ⟨none, none⟩)
  else if ofType "token_locked_out" then some (.tokenLockedOut, ⟨none, some json⟩)
  else if ofType "sdp" then
    let offer := jsonEqStr json (bytes "sdp_type") (bytes "offer")
    some (if offer then .sdpOffer else .sdpAnswer, ⟨peer, some json⟩)
  else if ofType "ice" then some (.iceCandidate, ⟨peer, some json⟩)
  else none

/-- A result that names no peer, or the one that the frame names. -/
def NamesPeerOf (json : Bytes) (result : Option (SignalingEvent × Msg)) : Prop :=
  ∀ raised ∈ result,
    raised.2.peerId = none ∨ raised.2.peerId = jsonDupStr json (bytes "peer_id")

theorem handleMessage_namesPeerOf (json : Bytes) : NamesPeerOf json (handleMessage json) := by
  have nobody (evt : SignalingEvent) (payload : Option Bytes) :
      NamesPeerOf json (some (evt, ⟨none, payload⟩)) := by
    rintro _ ⟨⟩
    exact .inl rfl
  have named (evt : SignalingEvent) (payload : Option Bytes) :
      NamesPeerOf json (some (evt, ⟨jsonDupStr json (bytes "peer_id"), payload⟩)) := by
    rintro _ ⟨⟩
    exact .inr rfl
  rw [handleMessage]
  -- one type after the other, in the order of the comparisons
  refine iteInduction (fun _ => nobody _ _) fun _ => iteInduction (fun _ => named _ _) fun _ => ?_
  refine iteInduction (fun _ => named _ _) fun _ => iteInduction (fun _ => nobody _ _) fun _ => ?_
  refine iteInduction (fun _ => nobody _ _) fun _ => iteInduction (fun _ => nobody _ _) fun _ => ?_
  refine iteInduction (fun _ => nobody _ _) fun _ => iteInduction (fun _ => named _ _) fun _ => ?_
  exact iteInduction (fun _ => named _ _) fun _ raised none => by cases none

/-- An issued token replaces the one the client has. -/
def Signaling.keepToken (sig : Signaling) : SignalingEvent × Msg → Signaling
  | (.tokenIssued, msg) => { sig with token := msg.jsonPayload }
  | _ => sig

/-! ### Outgoing frames -/

/-- The escape of one byte of an SDP text. -/
def escapeByte (b : UInt8) : Bytes :=
  match b with
  | 92 => [backslash, backslash]
  | 34 => [backslash, quote]
  | 10 => [backslash, 110]
  | 13 => [backslash, 114]
  | 9 => [backslash, 116]
  | b => [b]

def escape (sdp : Bytes) : Bytes := sdp.flatMap escapeByte

/-- `"name":"value"`, as the format strings put it. -/
def member (name : String) (value : Bytes) : Bytes :=
  quote :: bytes name ++ [quote, 58, quote] ++ value ++ [quote]

/-- `{…}` -/
def braced (members : Bytes) : Bytes := 123 :: members ++ [125]

/-- A call of `tether_signaling_accept` and its siblings. -/
inductive Signal
  | accept (peerId : Bytes)
  | reject (peerId : Bytes)
  | revokeToken
  | sendSdp (peerId sdpType sdp : Bytes)
  | sendIce (peerId candidate mid : Bytes) (mlineIndex : ℤ)
  deriving DecidableEq

/-- The frame that the call sends. -/
def Signal.text : Signal → Bytes
  | accept peerId => braced (member "type" (bytes "accept") ++ 44 :: member "peer_id" peerId)
  | reject peerId => braced (member "type" (bytes "reject") ++ 44 :: member "peer_id" peerId)
  | revokeToken => braced (member "type" (bytes "revoke"))
  | sendSdp peerId sdpType sdp =>
    braced (member "type" (bytes "sdp") ++ 44 :: member "peer_id" peerId ++
      44 :: member "sdp_type" sdpType ++ 44 :: member "sdp" (escape sdp))
  | sendIce peerId candidate mid mlineIndex =>
    braced (member "type" (bytes "ice") ++ 44 :: member "peer_id" peerId ++
      44 :: member "candidate" candidate ++ 44 :: member "mid" mid ++
      44 :: bytes "\"mline\":" ++ bytes (toString mlineIndex))

/-- The frame that `on_open` sends. The display name is not escaped. -/
def helloText (sig : Signaling) : Bytes :=
  braced (member "type" (bytes "hello") ++
    44 :: member "role" (bytes (if sig.role = .sender then "sender" else "receiver")) ++
    44 :: member "name" sig.displayName ++
    (if sig.role = .receiver then 44 :: member "token" (sig.token.getD []) else []) ++
    44 :: bytes "\"ttl_minutes\":" ++ bytes (toString sig.tokenTtlMinutes) ++
    44 :: bytes "\"reusable\":" ++ bytes (if sig.reusableToken then "true" else "false"))

/-! ### The lookup as a scan -/

/-- The lookup reads a quoted key from its opening quote on. -/
def quotedString (key : Bytes) : Bytes → Option Bytes
  | [] => none
  | b :: rest => stringAt key (some b) rest

theorem jsonFindFrom_eq_scan (key : Bytes) (b : UInt8) (rest : Bytes) :
    jsonFindFrom key (some b) rest = scan (quotedString key) (b :: rest) := by
  induction rest generalizing b with
  | nil =>
    have nothing : scan (quotedString key) [] = none := rfl
    rw [jsonFindFrom, scan, nothing, Option.or_none, quotedString]
  | cons c rest ih =>
    have here : scan (quotedString key) (b :: c :: rest) =
        (stringAt key (some b) (c :: rest)).or (scan (quotedString key) (c :: rest)) := rfl
    rw [jsonFindFrom, ih, here]

theorem jsonFindStr_eq_scan (json key : Bytes) :
    jsonFindStr json key = scan (quotedString key) json := by
  have start (p : Bytes) : stringAt key none p = none := if_neg (by simp)
  cases json with
  | nil => exact start []
  | cons b rest => rw [jsonFindStr, jsonFindFrom, start, Option.none_or, jsonFindFrom_eq_scan]

/-- Within a token the span is the body. -/
theorem stringSpan_body {body : Bytes} (wellFormed : Body body) (tail : Bytes) :
    stringSpan (body ++ quote :: tail) = body := by
  induction wellFormed with
  | nil =>
    have opening : stringSpan (quote :: tail) = if quote = quote then [] else quote :: stringSpan tail :=
      rfl
    exact opening
  | @plain b rest _ notQuote notBackslash _ ih =>
    rw [List.cons_append, stringSpan.eq_def]
    split
    · rename_i same
      exact absurd (List.cons.inj same).1 notBackslash
    · rename_i same
      obtain ⟨rfl, rfl⟩ := List.cons.inj same
      rw [if_neg notQuote, ih]
    · contradiction
  | escape _ _ ih => rw [List.cons_append, List.cons_append, stringSpan, ih]

/-- The lookup matches a quoted key, and answers when a string follows. -/
theorem nameMatcher_quotedString {key : Bytes} (nonempty : key ≠ [])
    (letters : ∀ b ∈ key, b = 95 ∨ 97 ≤ b.toNat ∧ b.toNat ≤ 122) :
    NameMatcher key (quotedString key) id := by
  have at_key (tail : Bytes) : quotedString key (quote :: key ++ quote :: tail) =
      match tail.dropWhile fun b => b = 58 || b = 32 with
      | 34 :: start => some (stringSpan start)
      | _ => none := by
    have starts : key ++ [quote] <+: key ++ quote :: tail := ⟨tail, by simp⟩
    have behind : (key ++ quote :: tail).drop (key.length + 1) = tail := by
      rw [← List.drop_drop, List.drop_left]
      rfl
    rw [List.cons_append, quotedString, stringAt, if_pos ⟨rfl, starts⟩, behind]
  refine ⟨nonempty, letters, ?_, ?_, ?_⟩
  · intro suffix absent
    cases suffix with
    | nil => rfl
    | cons b rest =>
      rw [quotedString, stringAt, if_neg]
      rintro ⟨opening, starts⟩
      obtain rfl := Option.some.inj opening
      exact absent (by simpa using starts)
  · intro body tail wellFormed
    have assoc : quote :: key ++ quote :: 58 :: quote :: body ++ quote :: tail =
        quote :: key ++ quote :: (58 :: quote :: (body ++ quote :: tail)) := by
      simp
    have separator : (58 :: quote :: (body ++ quote :: tail)).dropWhile
        (fun b => b = 58 || b = 32) = quote :: (body ++ quote :: tail) := rfl
    rw [assoc, at_key, separator]
    exact congrArg some (stringSpan_body wellFormed tail)
  · intro tail notString
    rw [at_key]
    rcases notString with (rfl | ⟨b, rest, rfl, separator⟩) | ⟨b, rest, rfl, notQuote, clean⟩
    · rfl
    · rcases separator with rfl | rfl | rfl <;> rfl
    · have skipped : (58 :: b :: rest).dropWhile (fun b => b = 58 || b = 32) = b :: rest := by
        simp [clean]
      rw [skipped]
      split
      · rename_i same
        exact absurd (List.cons.inj same).1 notQuote
      · rfl

/-- On serialised JSON the lookup finds the first member, at any depth, that it
cannot tell from a string member of that name. -/
theorem jsonFindStr_stringify {key : Bytes} (nonempty : key ≠ [])
    (letters : ∀ b ∈ key, b = 95 ∨ 97 ≤ b.toNat ∧ b.toNat ≤ 122) (value : Value) :
    jsonFindStr (utf8 (stringify value)) key = (firstHit (ofAscii key) value).map body := by
  rw [jsonFindStr_eq_scan]
  exact scan_value (nameMatcher_quotedString nonempty letters) value

/-- The comparison of a string member with a plain text, on serialised JSON. -/
theorem jsonEqStr_stringify {key text : Bytes} (nonempty : key ≠ [])
    (letters : ∀ b ∈ key, b = 95 ∨ 97 ≤ b.toNat ∧ b.toNat ≤ 122)
    (plain : ∀ b ∈ text, PlainByte b) (value : Value) :
    jsonEqStr (utf8 (stringify value)) key text =
      decide (firstHit (ofAscii key) value = some (ofAscii text)) := by
  rw [jsonEqStr, jsonFindStr_stringify nonempty letters]
  cases found : firstHit (ofAscii key) value with
  | none => simp
  | some s => simp [body_eq_iff plain]

/-! ### Flat messages -/

/-- A name in lower-case letters and underscores. -/
structure Identifier where
  text : Bytes
  nonempty : text ≠ []
  letters : ∀ b ∈ text, b = 95 ∨ 97 ≤ b.toNat ∧ b.toNat ≤ 122

/-- The name as a JavaScript string. -/
def Identifier.str (key : Identifier) : Str := ofAscii key.text

/-- The values without members of their own. -/
def IsScalar : Value → Prop
  | .null | .bool _ | .num _ | .str _ => True
  | .arr _ | .obj _ => False

/-- The members of an object whose keys are distinct identifiers and whose values
are scalars. -/
structure FlatMembers where
  members : List (Str × Value)
  distinct : (members.map Prod.fst).Nodup
  identifiers : ∀ member ∈ members, ∃ key : Identifier, member.1 = key.str
  scalars : ∀ member ∈ members, IsScalar member.2

namespace FlatMembers

/-- The message, as the room puts it on the wire. -/
def json (flat : FlatMembers) : Bytes := utf8 (stringify (.obj flat.members))

/-- The string that a key holds. -/
def string? (flat : FlatMembers) (key : Identifier) : Option Str :=
  match flat.members.lookup key.str with
  | some (.str s) => some s
  | _ => none

end FlatMembers

theorem firstHit_of_isScalar {value : Value} (scalar : IsScalar value) (name : Str) :
    firstHit name value = none := by
  cases value with
  | arr => exact scalar.elim
  | obj => exact scalar.elim
  | _ => rfl

/-- An identifier holds no quote, so that a search for a name stops at the name only. -/
theorem hits_identifier (name key : Identifier) :
    hits name.str key.str = decide (key.str = name.str) := by
  have bare : (34 :: name.str).isSuffixOf key.str = false := by
    rw [Bool.eq_false_iff]
    intro quoted
    have member : (34 : UInt16) ∈ key.str :=
      (List.isSuffixOf_iff_suffix.mp quoted).subset List.mem_cons_self
    obtain ⟨b, letter, same⟩ := List.mem_map.mp member
    obtain rfl : b = 34 := ofNat_toNat_injective same
    exact absurd (key.letters 34 letter) (by decide)
  rw [hits, bare, Bool.or_false]

/-- The first member that the search cannot tell from the key is the key's own. -/
theorem firstHitMembers_flat (name : Identifier) {members : List (Str × Value)}
    (distinct : (members.map Prod.fst).Nodup)
    (identifiers : ∀ member ∈ members, ∃ key : Identifier, member.1 = key.str)
    (scalars : ∀ member ∈ members, IsScalar member.2) :
    firstHitMembers name.str members =
      match members.lookup name.str with
      | some (.str s) => some s
      | _ => none := by
  induction members with
  | nil => rfl
  | cons member rest ih =>
    obtain ⟨name', value⟩ := member
    obtain ⟨key, rfl⟩ : ∃ key : Identifier, name' = key.str := identifiers _ List.mem_cons_self
    have scalar : IsScalar value := scalars _ List.mem_cons_self
    rw [List.map_cons, List.nodup_cons] at distinct
    have others := ih distinct.2 (fun m member => identifiers m (List.mem_cons_of_mem _ member))
      (fun m member => scalars m (List.mem_cons_of_mem _ member))
    rw [firstHitMembers, firstHit_of_isScalar scalar, Option.or_none, others, List.lookup_cons]
    by_cases same : key.str = name.str
    · -- no later member has this key
      have absent : rest.lookup name.str = none := by
        rw [List.lookup_eq_none_iff]
        intro m member
        rw [bne_iff_ne]
        rintro same'
        apply distinct.1
        rw [same, same']
        exact List.mem_map.mpr ⟨m, member, rfl⟩
      rw [absent, same, beq_self_eq_true]
      cases value with
      | str s => simp [hitMember, ← same, hits_identifier]
      | _ => rfl
    · have other : (name.str == key.str) = false := beq_eq_false_iff_ne.mpr (Ne.symm same)
      have ignored : hitMember name.str (key.str, value) = none := by
        cases value with
        | str s => simp [hitMember, hits_identifier, same]
        | _ => rfl
      rw [ignored, Option.none_or, other]

/-- On a flat message the lookup finds exactly the key's string, escapes included,
and the comparison and the copy agree with it. -/
theorem lookup_flat (flat : FlatMembers) (key : Identifier) :
    jsonFindStr flat.json key.text = (flat.string? key).map body ∧
    (∀ value, jsonEqStr flat.json key.text value ↔
      ∃ s, flat.string? key = some s ∧ body s = value) ∧
    jsonDupStr flat.json key.text = (flat.string? key).map body := by
  have found : jsonFindStr flat.json key.text = (flat.string? key).map body := by
    have hit : firstHit (ofAscii key.text) (.obj flat.members) = flat.string? key :=
      firstHitMembers_flat key flat.distinct flat.identifiers flat.scalars
    rw [FlatMembers.json, jsonFindStr_stringify key.nonempty key.letters, hit]
  refine ⟨found, fun value => ?_, found⟩
  rw [jsonEqStr, found, decide_eq_true_eq, Option.map_eq_some_iff]

end Tether.Plugin
