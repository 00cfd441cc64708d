import Mathlib.Data.List.TakeWhile
import Tether.Backend.Step
import Tether.EndToEnd.Delivery
import Tether.Plugin.ReceiveSession

/-!
# SDP texts from end to end

An SDP text is escaped into a frame, read and written again by the room, and
decoded at the other end. For these texts the client's escapes are those of the
serialiser, so that the frame is serialised JSON from the beginning; the receiver
resolves them, and the sender does not.

## Main definitions

* `IsSdpChar` — the characters of an SDP text
* `NeedsEscape` — the characters that are escaped
* `sdpFrame` — the object of an `sdp` frame

## Main results

* `offer_round_trip` — an offer arrives as it was sent
* `answer_applied_iff` — an answer does exactly when nothing in it is escaped
* `answer_mangled` — the line breaks of an answer arrive as escapes
-/

namespace Tether.EndToEnd

open Text Js Plugin
open Backend (PeerConn Room Env Millis Uuid)

/-! ### Escapes -/

/-- A printable character, a tab or a line break. -/
def IsSdpChar (c : Char) : Prop := c = '\t' ∨ c = '\n' ∨ c = '\r' ∨ 32 ≤ c.toNat

/-- A character that the client escapes. -/
def NeedsEscape (c : Char) : Prop :=
  c = '\\' ∨ c = '\x22' ∨ c = '\n' ∨ c = '\r' ∨ c = '\t'

instance : DecidablePred IsSdpChar := fun _ => inferInstanceAs (Decidable (_ ∨ _ ∨ _ ∨ _))

instance : DecidablePred NeedsEscape := fun _ =>
  inferInstanceAs (Decidable (_ ∨ _ ∨ _ ∨ _ ∨ _))

/-- The bytes of the characters that are escaped. -/
theorem escapeByte_cases (b : UInt8) :
    b = 92 ∨ b = 34 ∨ b = 10 ∨ b = 13 ∨ b = 9 ∨ b ≠ 92 ∧ b ≠ 34 ∧ escapeByte b = [b] := by
  by_cases special : b = 92 ∨ b = 34 ∨ b = 10 ∨ b = 13 ∨ b = 9
  · tauto
  · simp only [not_or] at special
    obtain ⟨backslash, quote, newline, carriage, tab⟩ := special
    refine .inr (.inr (.inr (.inr (.inr ⟨backslash, quote, ?_⟩))))
    rw [escapeByte] <;> assumption

theorem escape_cons (b : UInt8) (rest : Bytes) : escape (b :: rest) = escapeByte b ++ escape rest :=
  List.flatMap_cons

/-- The decoder of the receiver inverts the encoder. -/
theorem unescape_escape (sdp : Bytes) : unescape (escape sdp) = sdp := by
  induction sdp with
  | nil => rfl
  | cons b rest ih =>
    rw [escape_cons]
    rcases escapeByte_cases b with rfl | rfl | rfl | rfl | rfl | ⟨notBackslash, -, same⟩
    · exact congrArg _ ih
    · exact congrArg _ ih
    · exact congrArg _ ih
    · exact congrArg _ ih
    · exact congrArg _ ih
    · rw [same, List.singleton_append, unescape.eq_def]
      split
      · rename_i equal
        exact absurd (List.cons.inj equal).1 notBackslash
      · rename_i equal
        obtain ⟨rfl, rfl⟩ := List.cons.inj equal
        rw [ih]
      · contradiction

theorem escape_of_wide {encoded : Bytes} (top : ∀ b ∈ encoded, 128 ≤ b.toNat) :
    escape encoded = encoded := by
  induction encoded with
  | nil => rfl
  | cons b rest ih =>
    have wide := top b List.mem_cons_self
    rcases escapeByte_cases b with rfl | rfl | rfl | rfl | rfl | ⟨-, -, same⟩
    all_goals try exact absurd wide (by decide)
    rw [escape_cons, same, ih fun c member => top c (List.mem_cons_of_mem _ member)]
    rfl

/-- For the characters of an SDP text the client escapes like the serialiser. -/
theorem escape_utf8EncodeChar {c : Char} (sdp : IsSdpChar c) :
    escape (String.utf8EncodeChar c) = charBytes c := by
  rcases Nat.lt_or_ge c.toNat 128 with ascii | wide
  · have all : ∀ n < 128, n = 9 ∨ n = 10 ∨ n = 13 ∨ 32 ≤ n →
        escapeByte (UInt8.ofNat n) = unitBytes (UInt16.ofNat n) := by
      decide +kernel
    have code : c.toNat = 9 ∨ c.toNat = 10 ∨ c.toNat = 13 ∨ 32 ≤ c.toNat := by
      rcases sdp with rfl | rfl | rfl | printable
      · exact .inl rfl
      · exact .inr (.inl rfl)
      · exact .inr (.inr (.inl rfl))
      · exact .inr (.inr (.inr printable))
    rw [utf8EncodeChar_ascii ascii, charBytes, if_pos (lt_trans ascii (by decide)), escape_cons,
      all c.toNat ascii code]
    exact List.append_nil _
  · rw [escape_of_wide fun b member => le_of_mem_utf8EncodeChar wide member, charBytes_of_wide wide]

theorem escape_utf8 {text : List Char} (sdp : ∀ c ∈ text, IsSdpChar c) :
    escape (utf8 text) = body (utf16 text) := by
  induction text with
  | nil => rfl
  | cons c rest ih =>
    rw [body_utf16_cons, ← ih fun d member => sdp d (List.mem_cons_of_mem _ member),
      ← escape_utf8EncodeChar (sdp c List.mem_cons_self)]
    exact List.flatMap_append

/-! ### The frame -/

/-- The object of an `sdp` frame. -/
def sdpFrame (peerId sdpType : Str) (sdp : List Char) : Value :=
  .obj [(str "type", .str (str "sdp")), (str "peer_id", .str peerId),
    (str "sdp_type", .str sdpType), (str "sdp", .str (utf16 sdp))]

theorem utf8_braced (first second third fourth : List Char) :
    utf8 ('\x7b' :: (first ++ ',' :: (second ++ ',' :: (third ++ ',' :: (fourth ++ ['\x7d']))))) =
      braced (utf8 first ++ 44 :: utf8 second ++ 44 :: utf8 third ++ 44 :: utf8 fourth) := by
  have opening : String.utf8EncodeChar '\x7b' = [123] := rfl
  have comma : String.utf8EncodeChar ',' = [44] := rfl
  have closing : String.utf8EncodeChar '\x7d' = [125] := rfl
  simp [braced, opening, comma, closing]

/-- What the client sends is serialised JSON. -/
theorem sendSdp_text (peerId sdpType : Str) {sdp : List Char} (chars : ∀ c ∈ sdp, IsSdpChar c) :
    (Signal.sendSdp (body peerId) (body sdpType) (utf8 sdp)).text =
      utf8 (stringify (sdpFrame peerId sdpType sdp)) := by
  have shape : stringify (sdpFrame peerId sdpType sdp) =
      '\x7b' :: ((quoteText (str "type") ++ ':' :: stringify (.str (str "sdp"))) ++
        ',' :: ((quoteText (str "peer_id") ++ ':' :: stringify (.str peerId)) ++
          ',' :: ((quoteText (str "sdp_type") ++ ':' :: stringify (.str sdpType)) ++
            ',' :: ((quoteText (str "sdp") ++ ':' :: stringify (.str (utf16 sdp))) ++
              ['\x7d'])))) := by
    simp [sdpFrame, stringify, stringifyMembers]
  have type : body (str "sdp") = bytes "sdp" := rfl
  rw [shape, utf8_braced, utf8_member "type" (by decide) (by decide),
    utf8_member "peer_id" (by decide) (by decide), utf8_member "sdp_type" (by decide) (by decide),
    utf8_member "sdp" (by decide) (by decide), type, Signal.text, escape_utf8 chars]

/-- The room reads the object back. -/
theorem parse_sdpFrame (engine : Engine) (peerId sdpType : Str) (sdp : List Char) :
    parse engine (stringify (sdpFrame peerId sdpType sdp)) =
      some (sdpFrame peerId sdpType sdp) := by
  refine parse_stringify engine ?_
  exact ⟨rfl, trivial, rfl, trivial, rfl, trivial, rfl, trivial, trivial⟩

/-- The client sees an event of the exchange, under the frame's `peer_id`. -/
theorem handleMessage_sdpFrame (id : Uuid) (sdpType : Str) (sdp : List Char) :
    handleMessage (utf8 (stringify (sdpFrame id.str sdpType sdp))) =
      some (if sdpType = str "offer" then .sdpOffer else .sdpAnswer,
        ⟨some id.text, some (utf8 (stringify (sdpFrame id.str sdpType sdp)))⟩) := by
  have type : firstHit (str "type") (sdpFrame id.str sdpType sdp) = some (str "sdp") := rfl
  have peer : firstHit (str "peer_id") (sdpFrame id.str sdpType sdp) = some id.str := rfl
  have kind : firstHit (str "sdp_type") (sdpFrame id.str sdpType sdp) = some sdpType := rfl
  rw [handleMessage_stringify, raised_of_sdp type, peer, kind, Option.map_some, body_uuid]
  simp only [Option.some.injEq]

/-! ### The room -/

section Relay

variable (engine : Engine) (env : Env) {room : Room} {ws : ℕ} {tokenParam : Option Str}
  {source : PeerConn}

/-- The room relays the frame of a socket that has a record. -/
theorem handle_sdpFrame (listening : room.listeners.lookup ws = some tokenParam)
    (found : room.findPeerByWs ws = some source) (now : Millis) (uuid : Uuid)
    (peerId sdpType : Str) (sdp : List Char) :
    room.handle engine env (.message ws now uuid (stringify (sdpFrame peerId sdpType sdp))) =
      (room, room.relayToPeer source (sdpFrame peerId sdpType sdp)) := by
  have type : (sdpFrame peerId sdpType sdp).get? (str "type") = some (.str (str "sdp")) := rfl
  have other (name : String) (different : str "sdp" ≠ str name) :
      Room.isType name (sdpFrame peerId sdpType sdp) = false := by
    rw [Room.isType, type, Value.isStr_some_str, decide_eq_false different]
  have signal : Room.isSignal (sdpFrame peerId sdpType sdp) = true := by
    rw [Room.isSignal, Room.isType, type, Value.isStr_some_str, decide_eq_true rfl, Bool.true_or]
  have dispatched :
      room.handle engine env (.message ws now uuid (stringify (sdpFrame peerId sdpType sdp))) =
        room.dispatch engine env ws tokenParam now uuid (sdpFrame peerId sdpType sdp) := by
    rw [Room.handle, Room.onMessage, listening, parse_sdpFrame]
  rw [dispatched, Room.dispatch, other "hello" (by decide), found]
  simp only [other "accept" (by decide), other "reject" (by decide), other "revoke" (by decide),
    signal, Bool.false_eq_true, if_false, if_true]

/-- A receiver's frame for the alias goes to the sender, in the receiver's name. -/
theorem relay_to_sender {target : PeerConn} (receiver : source.role = .receiver)
    (opened : room.findSender = some target) (sdpType : Str) (sdp : List Char) :
    room.relayToPeer source (sdpFrame (str "sender") sdpType sdp) =
      room.send target.ws (sdpFrame source.id.str sdpType sdp) := by
  have byAlias : (source.role = .receiver &&
      Room.isAlias (sdpFrame (str "sender") sdpType sdp)) = true := by
    rw [receiver]
    rfl
  have attributed : Room.attributed source (sdpFrame (str "sender") sdpType sdp) =
      sdpFrame source.id.str sdpType sdp := rfl
  rw [Room.relayToPeer, if_pos byAlias, opened, attributed]

/-- The sender's frame for an accepted receiver goes there as it is. -/
theorem relay_to_receiver {target : PeerConn} (sender : source.role = .sender)
    (known : Backend.getPeer (some (.str target.id.str)) room.peers = some target)
    (receiver : target.role = .receiver) (accepted : target.accepted) (sdpType : Str) (sdp : List Char) :
    room.relayToPeer source (sdpFrame target.id.str sdpType sdp) =
      room.send target.ws (sdpFrame target.id.str sdpType sdp) := by
  have addressed : (sdpFrame target.id.str sdpType sdp).get? (str "peer_id") =
      some (.str target.id.str) := rfl
  have present : Value.isFalsy (some (.str target.id.str)) = false := by
    rw [Value.isFalsy, List.isEmpty_eq_false_iff]
    exact target.id.str_ne_nil
  rw [Room.relayToPeer, addressed, present, known]
  simp [sender, receiver, accepted]

end Relay

/-! ### The offer -/

/-- An offer that the sender's client sends to an accepted receiver is relayed to
that receiver's socket, and applied there as it was sent. -/
theorem offer_round_trip (engine : Engine) (env : Env) {room : Room} {ws : ℕ}
    {tokenParam : Option Str} {source target : PeerConn}
    (listening : room.listeners.lookup ws = some tokenParam)
    (found : room.findPeerByWs ws = some source) (sender : source.role = .sender)
    (known : Backend.getPeer (some (.str target.id.str)) room.peers = some target)
    (receiver : target.role = .receiver) (accepted : target.accepted)
    {state : ReceiveState} (ready : state = .awaitingAccept ∨ state = .accepted)
    {sdp : List Char} (chars : ∀ c ∈ sdp, IsSdpChar c) (now : Millis) (uuid : Uuid) :
    ∃ data frame,
      decodeUtf8 (Signal.sendSdp target.id.text (bytes "offer") (utf8 sdp)).text = some data ∧
      (room.handle engine env (.message ws now uuid data)).2 = room.send target.ws frame ∧
      ReceiveSession.onMessage state (utf8 (stringify frame)) =
        (.negotiating, [.onState .negotiating, .applyRemoteSdp (bytes "offer") (utf8 sdp)]) := by
  have kind : body (str "offer") = bytes "offer" := rfl
  refine ⟨stringify (sdpFrame target.id.str (str "offer") sdp),
    sdpFrame target.id.str (str "offer") sdp, ?_, ?_, ?_⟩
  · rw [← kind, ← body_uuid, sendSdp_text _ _ chars, decodeUtf8_utf8]
  · rw [handle_sdpFrame engine env listening found, relay_to_receiver sender known receiver accepted]
  · have text : ReceiveSession.offerText
        (utf8 (stringify (sdpFrame target.id.str (str "offer") sdp))) = some (utf8 sdp) := by
      -- the first member of this name is the text, escaped once
      have member : firstHit (ofAscii (bytes "sdp")) (sdpFrame target.id.str (str "offer") sdp) =
          some (utf16 sdp) := rfl
      rw [ReceiveSession.offerText_stringify, member, Option.map_some, ← escape_utf8 chars,
        unescape_escape]
    rw [ReceiveSession.onMessage, handleMessage_sdpFrame, if_pos rfl]
    rcases ready with rfl | rfl
    · simp [ReceiveSession.signalingEvent, ReceiveSession.ignoresOffer, ReceiveSession.setState,
        text]
    · simp [ReceiveSession.signalingEvent, ReceiveSession.ignoresOffer, ReceiveSession.setState,
        text]

/-- A sender, a receiver it has accepted, and their records. -/
def acceptedRun : List Backend.Event :=
  [Backend.connect, Backend.connect, Backend.arrival 0 0 0 (Backend.helloAs "sender"),
    Backend.arrival 1 1 1 (Backend.helloAs "receiver"),
    Backend.arrival 0 2 2 (Backend.message "accept" [("peer_id", .str (Backend.numbered 1).str)])]

def acceptedRoom : Room := Backend.after asciiEngine .deployed acceptedRun

-- the run is evaluated once
private theorem acceptedRoom_facts :
    (acceptedRoom.listeners.lookup 0 = some (some Backend.sampleToken) ∧
      acceptedRoom.listeners.lookup 1 = some (some Backend.sampleToken)) ∧
    (acceptedRoom.findPeerByWs 0).any (·.role = .sender) ∧
    (acceptedRoom.findPeerByWs 1).any
      (fun p => p.role = .receiver && p.id = Backend.numbered 1) ∧
    (Backend.getPeer (some (.str (Backend.numbered 1).str)) acceptedRoom.peers).any
      (fun p => p.role = .receiver && (p.accepted && (p.ws = 1 && p.id = Backend.numbered 1))) ∧
    acceptedRoom.findSender.any (·.ws = 0) := by
  decide +kernel

private theorem acceptedRoom_sender :
    ∃ source, acceptedRoom.findPeerByWs 0 = some source ∧ source.role = .sender := by
  obtain ⟨-, source, -⟩ := acceptedRoom_facts
  simpa using (Option.any_eq_true ..).mp source

private theorem acceptedRoom_receiver :
    ∃ target, Backend.getPeer (some (.str (Backend.numbered 1).str)) acceptedRoom.peers =
        some target ∧ target.role = .receiver ∧ target.accepted ∧ target.ws = 1 ∧
          target.id = Backend.numbered 1 := by
  obtain ⟨-, -, -, target, -⟩ := acceptedRoom_facts
  simpa using (Option.any_eq_true ..).mp target

/-- Quotes, backslashes and line breaks. -/
def sampleSdp : List Char := ['a', '=', '\x22', '\\', '\x22', '\r', '\n']

/-- The sample's offer arrives as it was sent. -/
theorem offer_round_trip_sample : ∃ data frame,
    decodeUtf8 (Signal.sendSdp (Backend.numbered 1).text (bytes "offer") (utf8 sampleSdp)).text =
      some data ∧
    (acceptedRoom.handle asciiEngine .deployed
      (.message 0 ⟨4, by decide⟩ (Backend.numbered 3) data)).2 = acceptedRoom.send 1 frame ∧
    ReceiveSession.onMessage .awaitingAccept (utf8 (stringify frame)) = (.negotiating,
      [.onState .negotiating, .applyRemoteSdp (bytes "offer") (utf8 sampleSdp)]) := by
  obtain ⟨⟨listening, -⟩, -⟩ := acceptedRoom_facts
  obtain ⟨source, found, sender⟩ := acceptedRoom_sender
  obtain ⟨target, known, receiver, accepted, socket, id⟩ := acceptedRoom_receiver
  rw [← id] at known
  have arrives := offer_round_trip asciiEngine .deployed listening found sender known receiver
    accepted (.inl rfl) (by decide : ∀ c ∈ sampleSdp, IsSdpChar c) ⟨4, by decide⟩
    (Backend.numbered 3)
  rwa [id, socket] at arrives

/-! ### The answer -/

theorem length_le_escape (sdp : Bytes) : sdp.length ≤ (escape sdp).length := by
  induction sdp with
  | nil => exact le_rfl
  | cons b rest ih =>
    have nonempty : 1 ≤ (escapeByte b).length := by
      rcases escapeByte_cases b with rfl | rfl | rfl | rfl | rfl | ⟨-, -, same⟩
      all_goals first | decide | rw [same, List.length_singleton]
    rw [escape_cons, List.length_append, List.length_cons]
    omega

/-- A text is its own escape only if nothing has been escaped. -/
theorem escape_eq_self_iff (sdp : Bytes) : escape sdp = sdp ↔ ∀ b ∈ sdp, escapeByte b = [b] := by
  induction sdp with
  | nil => exact iff_of_true rfl nofun
  | cons b rest ih =>
    have longer : escapeByte b = [b] ∨ (escapeByte b).length = 2 := by
      rcases escapeByte_cases b with rfl | rfl | rfl | rfl | rfl | ⟨-, -, same⟩
      all_goals first | exact .inr rfl | exact .inl same
    rw [escape_cons, List.forall_mem_cons]
    obtain same | two := longer
    · rw [same, List.singleton_append, List.cons.injEq, ih]
      simp only [true_and]
    · constructor
      · intro equal
        have lengths := congrArg List.length equal
        have shorter := length_le_escape rest
        rw [List.length_append, List.length_cons] at lengths
        omega
      · rintro ⟨same, -⟩
        rw [same] at two
        exact absurd two (by simp)

theorem quote_mem_escape {sdp : Bytes} (inside : quote ∈ escape sdp) : quote ∈ sdp := by
  obtain ⟨b, member, escaped⟩ := List.mem_flatMap.mp inside
  rcases escapeByte_cases b with rfl | rfl | rfl | rfl | rfl | ⟨-, -, same⟩
  · exact absurd escaped (by decide)
  · exact member
  · exact absurd escaped (by decide)
  · exact absurd escaped (by decide)
  · exact absurd escaped (by decide)
  · rw [same, List.mem_singleton] at escaped
    rwa [escaped]

/-- What stands before the first quote of an escaped text is the text itself only
if nothing has been escaped. -/
theorem takeWhile_escape_iff (sdp : Bytes) :
    (escape sdp).takeWhile (· != quote) = sdp ↔ ∀ b ∈ sdp, escapeByte b = [b] := by
  rw [← escape_eq_self_iff]
  constructor
  · intro same
    have noQuote : quote ∉ sdp := by
      intro inside
      rw [← same] at inside
      simpa using List.mem_takeWhile_imp inside
    have whole : (escape sdp).takeWhile (· != quote) = escape sdp := by
      refine List.takeWhile_eq_self_iff.mpr fun b member => ?_
      rw [bne_iff_ne]
      rintro rfl
      exact noQuote (quote_mem_escape member)
    exact whole.symm.trans same
  · intro same
    rw [same]
    refine List.takeWhile_eq_self_iff.mpr fun b member => ?_
    rw [bne_iff_ne]
    rintro rfl
    exact absurd ((escape_eq_self_iff sdp).mp same quote member) (by decide)

/-- The characters that are escaped, as bytes. -/
theorem escapes_nothing_iff (sdp : List Char) :
    (∀ b ∈ utf8 sdp, escapeByte b = [b]) ↔ ∀ c ∈ sdp, ¬ NeedsEscape c := by
  constructor
  · intro plain c member special
    have byte (b : UInt8) (code : String.utf8EncodeChar c = [b]) : escapeByte b = [b] :=
      plain b (List.mem_flatMap.mpr ⟨c, member, by simp [code]⟩)
    rcases special with rfl | rfl | rfl | rfl | rfl
    · exact absurd (byte 92 rfl) (by decide)
    · exact absurd (byte 34 rfl) (by decide)
    · exact absurd (byte 10 rfl) (by decide)
    · exact absurd (byte 13 rfl) (by decide)
    · exact absurd (byte 9 rfl) (by decide)
  · intro clean b member
    obtain ⟨c, inText, inChar⟩ := List.mem_flatMap.mp member
    have escapeFree := clean c inText
    -- bytes below 128 are characters of their own
    have char (n : ℕ) (small : n < 128) (same : b = UInt8.ofNat n) : c = Char.ofNat n := by
      rcases Nat.lt_or_ge c.toNat 128 with ascii | wide
      · rw [utf8EncodeChar_ascii ascii, List.mem_singleton, same] at inChar
        have codes := congrArg UInt8.toNat inChar
        rw [UInt8.toNat_ofNat_of_lt' (lt_trans small (by decide)),
          UInt8.toNat_ofNat_of_lt' (lt_trans ascii (by decide))] at codes
        rw [codes, Char.ofNat_toNat]
      · have top := le_of_mem_utf8EncodeChar wide inChar
        rw [same, UInt8.toNat_ofNat_of_lt' (lt_trans small (by decide))] at top
        omega
    rcases escapeByte_cases b with same | same | same | same | same | ⟨-, -, same⟩
    · exact absurd (.inl (char 92 (by decide) same)) escapeFree
    · exact absurd (.inr (.inl (char 34 (by decide) same))) escapeFree
    · exact absurd (.inr (.inr (.inl (char 10 (by decide) same)))) escapeFree
    · exact absurd (.inr (.inr (.inr (.inl (char 13 (by decide) same))))) escapeFree
    · exact absurd (.inr (.inr (.inr (.inr (char 9 (by decide) same))))) escapeFree
    · exact same

/-- An answer that a receiver's client sends is relayed to the sender and applied to
the receiver's connection. What is applied is the answer exactly when no character
of it is escaped. -/
theorem answer_applied_iff (engine : Engine) (env : Env) {room : Room} {ws : ℕ}
    {tokenParam : Option Str} {source target : PeerConn}
    (listening : room.listeners.lookup ws = some tokenParam)
    (found : room.findPeerByWs ws = some source) (receiver : source.role = .receiver)
    (opened : room.findSender = some target)
    {s : Sender} {r : Session} {wrtc : ℕ} (session : s.findSession source.id.text = some r)
    (live : r.wrtc = some wrtc)
    {sdp : List Char} (chars : ∀ c ∈ sdp, IsSdpChar c) (now : Millis) (uuid : Uuid)
    (clock : UInt64) (connected : Connected) :
    ∃ data frame applied,
      decodeUtf8 (Signal.sendSdp (bytes "sender") (bytes "answer") (utf8 sdp)).text = some data ∧
      (room.handle engine env (.message ws now uuid data)).2 = room.send target.ws frame ∧
      (s.onMessage (utf8 (stringify frame)) clock connected).2 =
        [.applyRemoteSdp wrtc (bytes "answer") applied] ∧
      (applied = utf8 sdp ↔ ∀ c ∈ sdp, ¬ NeedsEscape c) := by
  have kind : body (str "answer") = bytes "answer" := rfl
  have alias' : body (str "sender") = bytes "sender" := rfl
  refine ⟨stringify (sdpFrame (str "sender") (str "answer") sdp),
    sdpFrame source.id.str (str "answer") sdp, Sender.upToQuote (utf16 sdp), ?_, ?_, ?_, ?_⟩
  · rw [← kind, ← alias', sendSdp_text _ _ chars, decodeUtf8_utf8]
  · rw [handle_sdpFrame engine env listening found, relay_to_sender receiver opened]
  · have member : firstHit (ofAscii (bytes "sdp")) (sdpFrame source.id.str (str "answer") sdp) =
        some (utf16 sdp) := rfl
    -- the sender reads up to the quote and leaves the escapes in
    have text : Sender.textMember "sdp"
        (utf8 (stringify (sdpFrame source.id.str (str "answer") sdp))) =
          some (Sender.upToQuote (utf16 sdp)) := by
      rw [Sender.textMember_stringify (by decide) (by decide), member, Option.map_some]
    have notOffer : str "answer" ≠ str "offer" := by decide
    rw [Sender.onMessage, handleMessage_sdpFrame, if_neg notOffer]
    have same : (Sender.findSession { s with sig := s.sig } source.id.text) = some r := session
    simp only [Signaling.keepToken, Sender.onSignalingEvent, same, Option.bind_some, live, text]
  · rw [Sender.upToQuote, ← escape_utf8 chars, takeWhile_escape_iff, escapes_nothing_iff]

/-! ### An answer with line breaks -/

/-- The sender has accepted the receiver of the room. -/
def sessionRun : List Sender.Event :=
  [.message (Sender.pendingFrame (Backend.numbered 1).text) 0 none,
    .accept (Backend.numbered 1).text false (some [1])]

private theorem sessionRun_session : ∃ fresh r, Sender.create Sender.sampleConfig = some fresh ∧
    (fresh.after sessionRun).findSession (Backend.numbered 1).text = some r ∧ r.wrtc = some 0 := by
  have created : Sender.create Sender.sampleConfig = some _ := rfl
  have facts : ((Sender.create Sender.sampleConfig).any fun fresh =>
      ((fresh.after sessionRun).findSession (Backend.numbered 1).text).any
        (·.wrtc = some 0)) = true := by
    decide +kernel
  rw [created, Option.any_some, Option.any_eq_true] at facts
  obtain ⟨r, session, live⟩ := facts
  exact ⟨_, r, created, session, by simpa using live⟩

private theorem acceptedRoom_source :
    acceptedRoom.listeners.lookup 1 = some (some Backend.sampleToken) ∧
    (∃ source, acceptedRoom.findPeerByWs 1 = some source ∧ source.role = .receiver ∧
      source.id = Backend.numbered 1) ∧
    ∃ target, acceptedRoom.findSender = some target ∧ target.ws = 0 := by
  obtain ⟨⟨-, listening⟩, -, source, -, target⟩ := acceptedRoom_facts
  refine ⟨listening, ?_, ?_⟩
  · simpa using (Option.any_eq_true ..).mp source
  · simpa using (Option.any_eq_true ..).mp target

/-- An answer without anything to escape is applied as it was sent. -/
theorem answer_applied_iff_sample : ∃ s data frame applied,
    decodeUtf8 (Signal.sendSdp (bytes "sender") (bytes "answer") (utf8 ['v', '=', '0'])).text =
      some data ∧
    (acceptedRoom.handle asciiEngine .deployed
      (.message 1 ⟨4, by decide⟩ (Backend.numbered 3) data)).2 = acceptedRoom.send 0 frame ∧
    (Sender.onMessage s (utf8 (stringify frame)) 1 none).2 =
      [.applyRemoteSdp 0 (bytes "answer") applied] ∧
    (applied = utf8 ['v', '=', '0'] ↔ ∀ c ∈ ['v', '=', '0'], ¬ NeedsEscape c) := by
  obtain ⟨listening, ⟨source, found, receiver, id⟩, target, opened, socket⟩ := acceptedRoom_source
  obtain ⟨fresh, r, -, session, live⟩ := sessionRun_session
  rw [← id] at session
  have arrives := answer_applied_iff asciiEngine .deployed listening found receiver opened session
    live (by decide : ∀ c ∈ ['v', '=', '0'], IsSdpChar c) ⟨4, by decide⟩ (Backend.numbered 3) 1 none
  rw [socket] at arrives
  exact ⟨_, arrives⟩

/-- The line break behind `v=0` reaches the sender's connection as four characters:
the client's escapes are not resolved. -/
theorem answer_mangled : ∃ fresh data frame,
    Sender.create Sender.sampleConfig = some fresh ∧
    decodeUtf8 (Signal.sendSdp (bytes "sender") (bytes "answer")
      (utf8 ['v', '=', '0', '\r', '\n'])).text = some data ∧
    (acceptedRoom.handle asciiEngine .deployed
      (.message 1 ⟨4, by decide⟩ (Backend.numbered 3) data)).2 = acceptedRoom.send 0 frame ∧
    ((fresh.after sessionRun).onMessage (utf8 (stringify frame)) 1 none).2 =
      [.applyRemoteSdp 0 (bytes "answer") (bytes "v=0\\r\\n")] ∧
    bytes "v=0\\r\\n" ≠ utf8 ['v', '=', '0', '\r', '\n'] := by
  obtain ⟨listening, ⟨source, found, receiver, id⟩, target, opened, socket⟩ := acceptedRoom_source
  have created : Sender.create Sender.sampleConfig = some _ := rfl
  have applied : ((Sender.create Sender.sampleConfig).any fun fresh =>
      ((fresh.after sessionRun).onMessage (utf8 (stringify (sdpFrame (Backend.numbered 1).str
        (str "answer") ['v', '=', '0', '\r', '\n']))) 1 none).2 =
          [.applyRemoteSdp 0 (bytes "answer") (bytes "v=0\\r\\n")]) = true := by
    decide +kernel
  rw [created, Option.any_some, decide_eq_true_eq] at applied
  refine ⟨_, stringify (sdpFrame (str "sender") (str "answer") ['v', '=', '0', '\r', '\n']), _,
    created, ?_, ?_, applied, by decide⟩
  · have kind : body (str "answer") = bytes "answer" := rfl
    have alias' : body (str "sender") = bytes "sender" := rfl
    rw [← kind, ← alias', sendSdp_text _ _ (by decide), decodeUtf8_utf8]
  · rw [handle_sdpFrame asciiEngine .deployed listening found, relay_to_sender receiver opened, id,
      socket]

end Tether.EndToEnd
