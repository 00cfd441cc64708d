import Tether.EndToEnd.SdpRoundTrip
import Tether.Js.Escape
import Tether.Js.Integer
import Tether.Js.Weight

/-!
# Every frame as the JSON it means

The client writes its frames with format strings. Only the SDP text is escaped, so
that the other texts are read back if they contain nothing to escape. A frame that
holds a special character is not read as the object it means in any other way either:
a text that is parsed pays for its value, and the object would cost more.

## Main definitions

* `Frame` — a frame with the texts and numbers it is to carry
* `Frame.text`, `Frame.object` — what the client sends, and what it means
* `Frame.Clean` — no field but the SDP text contains a special character

## Main results

* `parse_render_iff` — a text of fields is read as its object if the fields are clean
* `parse_frame_iff` — this decides for every frame
* `quoted_name_breaks_hello` — a hello that is no JSON
-/

namespace Tether.EndToEnd

open Text Js Plugin

/-! ### Fields -/

/-- What a format string puts behind a member's name. -/
inductive Field
  /-- a text in quotes, as it is -/
  | raw (text : List Char)
  /-- a text in quotes, escaped like an SDP text -/
  | escaped (text : List Char)
  | number (n : ℤ)
  | flag (b : Bool)

/-- The escape of one character of an SDP text. -/
def escapeChar : Char → List Char
  | '\\' => ['\\', '\\']
  | '\x22' => ['\\', '\x22']
  | '\n' => ['\\', 'n']
  | '\r' => ['\\', 'r']
  | '\t' => ['\\', 't']
  | c => [c]

/-- The text between the quotes, or the number. -/
def Field.render : Field → List Char
  | raw text => '\x22' :: text ++ ['\x22']
  | escaped text => '\x22' :: text.flatMap escapeChar ++ ['\x22']
  | number n => (integer n).text
  | flag b => if b then ['t', 'r', 'u', 'e'] else ['f', 'a', 'l', 's', 'e']

/-- The value the field stands for. -/
def Field.value : Field → Value
  | raw text | escaped text => .str (utf16 text)
  | number n => .num (integer n)
  | flag b => .bool b

/-- A text without quotes, backslashes and control characters. -/
def Plain (text : List Char) : Prop := ∀ c ∈ text, ¬ Special c

instance : DecidablePred Plain := fun _ => inferInstanceAs (Decidable (∀ _ ∈ _, _))

/-- Nothing in the field remains to be escaped. -/
def Field.Clean : Field → Prop
  | raw text => Plain text
  | escaped text => ∀ c ∈ text, IsSdpChar c
  | _ => True

/-- `"name":` and the field. -/
def renderMember (name : String) (field : Field) : List Char :=
  '\x22' :: name.toList ++ '\x22' :: ':' :: field.render

/-- The remaining members, each after a comma, and the closing brace. -/
def renderMembers : List (String × Field) → List Char
  | [] => ['\x7d']
  | (name, field) :: rest => ',' :: renderMember name field ++ renderMembers rest

def render : List (String × Field) → List Char
  | [] => ['\x7b', '\x7d']
  | (name, field) :: rest => '\x7b' :: renderMember name field ++ renderMembers rest

/-- The members that the fields stand for. -/
def valueMembers (fields : List (String × Field)) : List (Str × Value) :=
  fields.map fun (name, field) => (str name, field.value)

/-! ### Clean fields -/

theorem not_special_iff (c : Char) : ¬ Special c ↔ 32 ≤ c.toNat ∧ c ≠ '\x22' ∧ c ≠ '\\' := by
  have code (d : Char) : c = d ↔ c.toNat = d.toNat := Char.toNat_inj.symm
  have quoteCode : ('\x22' : Char).toNat = 34 := rfl
  have backslashCode : ('\\' : Char).toNat = 92 := rfl
  rw [Special, SpecialCode, Ne, Ne, code, code, quoteCode, backslashCode]
  omega

theorem clean_of_mem_utf8EncodeChar {c : Char} (plain : ¬ Special c) {b : UInt8}
    (member : b ∈ String.utf8EncodeChar c) : Js.Clean b := by
  rcases Nat.lt_or_ge c.toNat 128 with ascii | wide
  · rw [utf8EncodeChar_ascii ascii, List.mem_singleton] at member
    have code : b.toNat = c.toNat := by
      rw [member]
      exact UInt8.toNat_ofNat_of_lt' (lt_trans ascii (by decide))
    rw [Special, SpecialCode, ← code] at plain
    refine ⟨by omega, ?_, ?_⟩
    · rintro rfl
      exact plain (.inr (.inl rfl))
    · rintro rfl
      exact plain (.inr (.inr rfl))
  · have top := le_of_mem_utf8EncodeChar wide member
    refine ⟨by omega, ?_, ?_⟩
    · rintro rfl
      exact absurd top (by decide)
    · rintro rfl
      exact absurd top (by decide)

/-- A text without special characters is serialised as it is. -/
theorem quoteBody_of_plain {text : List Char} (plain : Plain text) :
    quoteBody (utf16 text) = text := by
  have whole : body (utf16 text) = utf8 text := by
    rw [body_utf16_eq_iff]
    intro b member
    obtain ⟨c, inside, encoded⟩ := List.mem_flatMap.mp member
    exact clean_of_mem_utf8EncodeChar (plain c inside) encoded
  exact utf8_injective whole

theorem escapeChar_of_plain {c : Char} (plain : ¬ NeedsEscape c) : escapeChar c = [c] := by
  simp only [NeedsEscape, not_or] at plain
  obtain ⟨backslash, quote, newline, carriage, tab⟩ := plain
  rw [escapeChar] <;> assumption

/-- The client escapes the bytes of a character like the character. -/
theorem escape_utf8EncodeChar_eq (c : Char) :
    escape (String.utf8EncodeChar c) = utf8 (escapeChar c) := by
  by_cases special : NeedsEscape c
  · rcases special with rfl | rfl | rfl | rfl | rfl <;> decide
  · have alone : utf8 [c] = String.utf8EncodeChar c := List.append_nil _
    rw [escapeChar_of_plain special, alone]
    rcases Nat.lt_or_ge c.toNat 128 with ascii | wide
    · -- the byte is not one of those that are escaped
      have code : (UInt8.ofNat c.toNat).toNat = c.toNat :=
        UInt8.toNat_ofNat_of_lt' (lt_trans ascii (by decide))
      have other (d : Char) (b : UInt8) (byte : b.toNat = d.toNat) (same : UInt8.ofNat c.toNat = b) :
          c = d := by
        rw [same, byte] at code
        exact Char.toNat_inj.mp code.symm
      simp only [NeedsEscape, not_or] at special
      obtain ⟨backslash, quote, newline, carriage, tab⟩ := special
      rw [utf8EncodeChar_ascii ascii, escape_cons]
      rcases escapeByte_cases (UInt8.ofNat c.toNat) with same | same | same | same | same | own
      · exact absurd (other '\\' _ rfl same) backslash
      · exact absurd (other '\x22' _ rfl same) quote
      · exact absurd (other '\n' _ rfl same) newline
      · exact absurd (other '\r' _ rfl same) carriage
      · exact absurd (other '\t' _ rfl same) tab
      · rw [own.2.2]
        rfl
    · exact escape_of_wide fun b member => le_of_mem_utf8EncodeChar wide member

theorem escape_utf8_eq (text : List Char) :
    escape (utf8 text) = utf8 (text.flatMap escapeChar) := by
  induction text with
  | nil => rfl
  | cons c rest ih =>
    rw [utf8_cons, List.flatMap_cons, utf8_append, ← ih, ← escape_utf8EncodeChar_eq]
    exact List.flatMap_append

/-- A clean field is written like its value. -/
theorem Field.Clean.render_eq {field : Field} (clean : field.Clean) :
    field.render = stringify field.value := by
  cases field with
  | raw text => rw [Field.render, Field.value, stringify, quoteText, quoteBody_of_plain clean]
  | escaped text =>
    have inside : text.flatMap escapeChar = quoteBody (utf16 text) :=
      utf8_injective ((escape_utf8_eq text).symm.trans (escape_utf8 clean))
    rw [Field.render, Field.value, stringify, quoteText, inside]
  | number n => rfl
  | flag b => cases b <;> rfl

/-! ### What fields weigh -/

/-- How many characters of a field ought to have been escaped. -/
def Field.excess : Field → ℕ
  | raw text => text.countP (Special ·)
  | escaped text => text.countP (¬ IsSdpChar ·)
  | _ => 0

theorem Field.excess_eq_zero_iff (field : Field) : field.excess = 0 ↔ field.Clean := by
  cases field with
  | raw text => simp [Field.excess, Field.Clean, Plain, List.countP_eq_zero]
  | escaped text => simp [Field.excess, Field.Clean, List.countP_eq_zero]
  | number n => simp [Field.excess, Field.Clean]
  | flag b => simp [Field.excess, Field.Clean]

/-- Of the special characters the client escapes those of an SDP text. -/
theorem special_iff_of_plain {c : Char} (plain : ¬ NeedsEscape c) : Special c ↔ ¬ IsSdpChar c := by
  simp only [NeedsEscape, not_or] at plain
  obtain ⟨backslash, quote, newline, carriage, tab⟩ := plain
  have ordinary : ¬ Special c ↔ 32 ≤ c.toNat := by simpa [quote, backslash] using not_special_iff c
  simp only [IsSdpChar, newline, carriage, tab, false_or]
  rw [← ordinary, not_not]

/-- An escape pays for a character, unless the client has none for it. -/
theorem strWeight_escapeChar (c : Char) :
    strWeight (utf16Char c) = textWeight (escapeChar c) + if IsSdpChar c then 0 else 1 := by
  by_cases special : NeedsEscape c
  · rcases special with rfl | rfl | rfl | rfl | rfl <;> decide
  · rw [escapeChar_of_plain special, textWeight_cons, textWeight_nil, Nat.add_zero,
      strWeight_utf16Char]
    by_cases sdp : IsSdpChar c
    · rw [if_pos sdp, if_neg (mt (special_iff_of_plain special).mp (not_not_intro sdp))]
    · rw [if_neg sdp, if_pos ((special_iff_of_plain special).mpr sdp)]

theorem strWeight_escaped (text : List Char) :
    strWeight (utf16 text) = textWeight (text.flatMap escapeChar) + text.countP (¬ IsSdpChar ·) := by
  induction text with
  | nil => rfl
  | cons c rest ih =>
    rw [utf16, List.flatMap_cons, ← utf16, strWeight_append, ih, strWeight_escapeChar,
      List.flatMap_cons, textWeight_append, List.countP_cons]
    by_cases sdp : IsSdpChar c
    · simp only [sdp, not_true_eq_false, decide_false, Bool.false_eq_true, if_true, if_false]
      omega
    · simp only [sdp, not_false_eq_true, decide_true, if_true, if_false]
      omega

/-- A field pays for its value, but for the characters that are not escaped. -/
theorem Field.weight_value (field : Field) :
    weight field.value = textWeight field.render + field.excess := by
  have quoteWeight : charWeight '\x22' = 1 := rfl
  cases field with
  | raw text =>
    rw [Field.value, Field.render, Field.excess, weight, strWeight_utf16, List.cons_append,
      textWeight_cons, textWeight_append, textWeight_cons, textWeight_nil]
    omega
  | escaped text =>
    rw [Field.value, Field.render, Field.excess, weight, strWeight_escaped, List.cons_append,
      textWeight_cons, textWeight_append, textWeight_cons, textWeight_nil]
    omega
  | number n => exact (textWeight_numeral (integer n)).symm
  | flag b => cases b <;> decide

/-- The characters of a list of fields that ought to have been escaped. -/
def excess : List (String × Field) → ℕ
  | [] => 0
  | (_, field) :: rest => field.excess + excess rest

theorem excess_eq_zero_iff (fields : List (String × Field)) :
    excess fields = 0 ↔ ∀ member ∈ fields, member.2.Clean := by
  induction fields with
  | nil => simp [excess]
  | cons member rest ih =>
    rw [excess, Nat.add_eq_zero_iff, List.forall_mem_cons, ih, Field.excess_eq_zero_iff]

/-- The names in a format string contain nothing to escape. -/
def PlainNames (fields : List (String × Field)) : Prop :=
  ∀ member ∈ fields, Plain member.1.toList

instance : DecidablePred PlainNames := fun _ => inferInstanceAs (Decidable (∀ _ ∈ _, _))

theorem textWeight_renderMember (name : String) (plain : Plain name.toList)
    (field : Field) :
    strWeight (str name) + 3 + weight field.value =
      textWeight (renderMember name field) + field.excess := by
  have quoteWeight : charWeight '\x22' = 1 := rfl
  have colonWeight : charWeight ':' = 1 := rfl
  have names : name.toList.countP (Special ·) = 0 := by
    simpa [Plain, List.countP_eq_zero] using plain
  rw [str, strWeight_utf16, names, field.weight_value, renderMember, List.cons_append,
    textWeight_cons, textWeight_append, textWeight_cons, textWeight_cons]
  omega

theorem textWeight_renderMembers {fields : List (String × Field)} (plain : PlainNames fields) :
    membersWeight (valueMembers fields) + 1 = textWeight (renderMembers fields) + excess fields := by
  induction fields with
  | nil => decide
  | cons member rest ih =>
    obtain ⟨name, field⟩ := member
    obtain ⟨first, others⟩ := List.forall_mem_cons.mp plain
    have own := textWeight_renderMember name first field
    have more := ih others
    have commaWeight : charWeight ',' = 1 := rfl
    have head : valueMembers ((name, field) :: rest) =
        (str name, field.value) :: valueMembers rest := rfl
    rw [head, membersWeight, renderMembers, List.cons_append, textWeight_cons, textWeight_append,
      excess]
    omega

/-- The text lacks one for every character that ought to have been escaped. -/
theorem weight_object {fields : List (String × Field)} (plain : PlainNames fields)
    (nonempty : fields ≠ []) :
    weight (.obj (valueMembers fields)) = textWeight (render fields) + excess fields := by
  obtain ⟨⟨name, field⟩, rest, rfl⟩ := List.exists_cons_of_ne_nil nonempty
  obtain ⟨first, others⟩ := List.forall_mem_cons.mp plain
  have own := textWeight_renderMember name first field
  have more := textWeight_renderMembers others
  have braceWeight : charWeight '\x7b' = 1 := rfl
  have head : valueMembers ((name, field) :: rest) =
      (str name, field.value) :: valueMembers rest := rfl
  rw [head, weight, membersWeight, render, List.cons_append, textWeight_cons, textWeight_append,
    excess]
  omega

/-! ### Fields and objects -/

theorem renderMember_eq {name : String} (plain : Plain name.toList) {field : Field}
    (clean : field.Clean) :
    renderMember name field = quoteText (str name) ++ ':' :: stringify field.value := by
  rw [renderMember, clean.render_eq, quoteText, str, quoteBody_of_plain plain]
  simp

theorem renderMembers_eq {fields : List (String × Field)} (plain : PlainNames fields)
    (clean : ∀ member ∈ fields, member.2.Clean) :
    renderMembers fields = stringifyMembers (valueMembers fields) := by
  induction fields with
  | nil => rfl
  | cons member rest ih =>
    obtain ⟨name, field⟩ := member
    obtain ⟨first, others⟩ := List.forall_mem_cons.mp plain
    obtain ⟨own, more⟩ := List.forall_mem_cons.mp clean
    have head : valueMembers ((name, field) :: rest) =
        (str name, field.value) :: valueMembers rest := rfl
    rw [renderMembers, renderMember_eq first own, ih others more, head, stringifyMembers]
    simp

/-- Clean fields are rendered as the serialised object. -/
theorem render_eq {fields : List (String × Field)} (plain : PlainNames fields)
    (clean : ∀ member ∈ fields, member.2.Clean) :
    render fields = stringify (.obj (valueMembers fields)) := by
  cases fields with
  | nil => rfl
  | cons member rest =>
    obtain ⟨name, field⟩ := member
    obtain ⟨first, others⟩ := List.forall_mem_cons.mp plain
    obtain ⟨own, more⟩ := List.forall_mem_cons.mp clean
    have head : valueMembers ((name, field) :: rest) =
        (str name, field.value) :: valueMembers rest := rfl
    rw [render, renderMember_eq first own, renderMembers_eq others more, head, stringify]
    simp

/-- The engine reads the numbers among the fields as the client writes them. -/
def ReadsNumbers (engine : Engine) (fields : List (String × Field)) : Prop :=
  ∀ member ∈ fields, ∀ n, member.2 = .number n → engine.numeral (integer n).text = integer n

theorem Field.canonical {engine : Engine} {field : Field}
    (reads : ∀ n, field = .number n → engine.numeral (integer n).text = integer n) :
    Canonical engine field.value := by
  cases field with
  | raw text => trivial
  | escaped text => trivial
  | number n => exact reads_integer (reads n rfl)
  | flag b => trivial

/-- The fields in different members, none of which is an array index. -/
def Ordered (before : List (Str × Value)) : List (String × Field) → Prop
  | [] => True
  | (name, field) :: rest =>
    defineMember (str name) field.value before = before ++ [(str name, field.value)] ∧
      Ordered (before ++ [(str name, field.value)]) rest

theorem canonicalMembers {engine : Engine} {fields : List (String × Field)}
    (reads : ReadsNumbers engine fields) {before : List (Str × Value)}
    (ordered : Ordered before fields) : CanonicalMembers engine before (valueMembers fields) := by
  induction fields generalizing before with
  | nil => trivial
  | cons member rest ih =>
    obtain ⟨name, field⟩ := member
    obtain ⟨own, others⟩ := List.forall_mem_cons.mp reads
    exact ⟨ordered.1, field.canonical own, ih others ordered.2⟩

/-- A text of fields is read as their object exactly if they are clean. -/
theorem parse_render_iff {engine : Engine} {fields : List (String × Field)}
    (plain : PlainNames fields) (nonempty : fields ≠ []) (ordered : Ordered [] fields)
    (reads : ReadsNumbers engine fields) :
    parse engine (render fields) = some (.obj (valueMembers fields)) ↔
      ∀ member ∈ fields, member.2.Clean := by
  constructor
  · intro parsed
    have paid := weight_le_of_parse parsed
    rw [weight_object plain nonempty] at paid
    exact (excess_eq_zero_iff fields).mp (by omega)
  · intro clean
    rw [render_eq plain clean]
    exact parse_stringify engine (canonicalMembers reads ordered)

/-! ### Frames -/

/-- A frame of the client, with what it is to carry. -/
inductive Frame
  | hello (role : Role) (displayName : List Char) (token : Option (List Char))
    (tokenTtlMinutes : ℤ) (reusableToken : Bool)
  | accept (peerId : List Char)
  | reject (peerId : List Char)
  | revokeToken
  | sendSdp (peerId sdpType sdp : List Char)
  | sendIce (peerId candidate mid : List Char) (mlineIndex : ℤ)

namespace Frame

/-- What the client sends. -/
def text : Frame → Bytes
  | hello role displayName token tokenTtlMinutes reusableToken =>
    helloText ⟨role, utf8 displayName, token.map utf8, tokenTtlMinutes, reusableToken⟩
  | accept peerId => (Signal.accept (utf8 peerId)).text
  | reject peerId => (Signal.reject (utf8 peerId)).text
  | revokeToken => Signal.revokeToken.text
  | sendSdp peerId sdpType sdp => (Signal.sendSdp (utf8 peerId) (utf8 sdpType) (utf8 sdp)).text
  | sendIce peerId candidate mid mlineIndex =>
    (Signal.sendIce (utf8 peerId) (utf8 candidate) (utf8 mid) mlineIndex).text

/-- The members of the frame. The token of a sender is none of them. -/
def members : Frame → List (String × Field)
  | hello .sender displayName _ tokenTtlMinutes reusableToken =>
    [("type", .raw "hello".toList), ("role", .raw "sender".toList), ("name", .raw displayName),
      ("ttl_minutes", .number tokenTtlMinutes), ("reusable", .flag reusableToken)]
  | hello .receiver displayName token tokenTtlMinutes reusableToken =>
    [("type", .raw "hello".toList), ("role", .raw "receiver".toList), ("name", .raw displayName),
      ("token", .raw (token.getD [])), ("ttl_minutes", .number tokenTtlMinutes),
      ("reusable", .flag reusableToken)]
  | accept peerId => [("type", .raw "accept".toList), ("peer_id", .raw peerId)]
  | reject peerId => [("type", .raw "reject".toList), ("peer_id", .raw peerId)]
  | revokeToken => [("type", .raw "revoke".toList)]
  | sendSdp peerId sdpType sdp =>
    [("type", .raw "sdp".toList), ("peer_id", .raw peerId), ("sdp_type", .raw sdpType),
      ("sdp", .escaped sdp)]
  | sendIce peerId candidate mid mlineIndex =>
    [("type", .raw "ice".toList), ("peer_id", .raw peerId), ("candidate", .raw candidate),
      ("mid", .raw mid), ("mline", .number mlineIndex)]

/-- What the frame means. -/
def object (frame : Frame) : Value := .obj (valueMembers frame.members)

/-- Only the SDP text contains special characters, and only those that are escaped. -/
def Clean : Frame → Prop
  | hello role displayName token _ _ =>
    Plain displayName ∧ (role = .receiver → Plain (token.getD []))
  | accept peerId | reject peerId => Plain peerId
  | revokeToken => True
  | sendSdp peerId sdpType sdp => Plain peerId ∧ Plain sdpType ∧ ∀ c ∈ sdp, IsSdpChar c
  | sendIce peerId candidate mid _ => Plain peerId ∧ Plain candidate ∧ Plain mid

/-- The names and the fixed texts of the format strings. -/
theorem plain_literals : ∀ literal ∈ ["type", "role", "name", "token", "ttl_minutes", "reusable",
    "peer_id", "sdp_type", "sdp", "candidate", "mid", "mline", "hello", "sender", "receiver",
    "accept", "reject", "revoke", "ice"], Plain literal.toList := by
  decide

theorem plainNames_members (frame : Frame) : PlainNames frame.members := by
  have literals := plain_literals
  simp only [List.forall_mem_cons] at literals
  match frame with
  | hello .sender _ _ _ _ => simp [-String.reduceToList, PlainNames, members, literals]
  | hello .receiver _ _ _ _ => simp [-String.reduceToList, PlainNames, members, literals]
  | accept _ => simp [-String.reduceToList, PlainNames, members, literals]
  | reject _ => simp [-String.reduceToList, PlainNames, members, literals]
  | revokeToken => simp [-String.reduceToList, PlainNames, members, literals]
  | sendSdp _ _ _ => simp [-String.reduceToList, PlainNames, members, literals]
  | sendIce _ _ _ _ => simp [-String.reduceToList, PlainNames, members, literals]

theorem ordered_members (frame : Frame) : Ordered [] frame.members :=
  match frame with
  | hello .sender _ _ _ _ => ⟨rfl, rfl, rfl, rfl, rfl, trivial⟩
  | hello .receiver _ _ _ _ => ⟨rfl, rfl, rfl, rfl, rfl, rfl, trivial⟩
  | accept _ => ⟨rfl, rfl, trivial⟩
  | reject _ => ⟨rfl, rfl, trivial⟩
  | revokeToken => ⟨rfl, trivial⟩
  | sendSdp _ _ _ => ⟨rfl, rfl, rfl, rfl, trivial⟩
  | sendIce _ _ _ _ => ⟨rfl, rfl, rfl, rfl, rfl, trivial⟩

theorem members_ne_nil (frame : Frame) : frame.members ≠ [] :=
  match frame with
  | hello .sender _ _ _ _ | hello .receiver _ _ _ _ => List.cons_ne_nil _ _
  | accept _ | reject _ | revokeToken | sendSdp _ _ _ | sendIce _ _ _ _ => List.cons_ne_nil _ _

theorem clean_members_iff (frame : Frame) :
    (∀ member ∈ frame.members, member.2.Clean) ↔ frame.Clean := by
  have literals := plain_literals
  simp only [List.forall_mem_cons] at literals
  match frame with
  | hello .sender _ _ _ _ => simp [-String.reduceToList, members, Field.Clean, Clean, literals]
  | hello .receiver _ _ _ _ => simp [-String.reduceToList, members, Field.Clean, Clean, literals]
  | accept _ => simp [-String.reduceToList, members, Field.Clean, Clean, literals]
  | reject _ => simp [-String.reduceToList, members, Field.Clean, Clean, literals]
  | revokeToken => simp [-String.reduceToList, members, Field.Clean, Clean, literals]
  | sendSdp _ _ _ => simp [-String.reduceToList, members, Field.Clean, Clean, literals]
  | sendIce _ _ _ _ => simp [-String.reduceToList, members, Field.Clean, Clean, literals]

end Frame

/-! ### Format strings -/

section Format

variable (name : String)

theorem utf8_renderMember (field : Field) :
    utf8 (renderMember name field) = quote :: bytes name ++ [quote, 58] ++ utf8 field.render := by
  have mark : String.utf8EncodeChar '\x22' = [34] := rfl
  have colon : String.utf8EncodeChar ':' = [58] := rfl
  simp [renderMember, bytes, mark, colon]

theorem utf8_renderMember_raw (text : List Char) :
    utf8 (renderMember name (.raw text)) = member name (utf8 text) := by
  have mark : String.utf8EncodeChar '\x22' = [34] := rfl
  rw [utf8_renderMember, Field.render, member]
  simp [mark]

theorem utf8_renderMember_escaped (text : List Char) :
    utf8 (renderMember name (.escaped text)) = member name (escape (utf8 text)) := by
  rw [escape_utf8_eq]
  exact utf8_renderMember_raw name (text.flatMap escapeChar)

theorem utf8_renderMember_number (n : ℤ) :
    utf8 (renderMember name (.number n)) =
      quote :: bytes name ++ [quote, 58] ++ bytes (toString n) :=
  utf8_renderMember name (.number n)

theorem utf8_renderMember_flag (b : Bool) :
    utf8 (renderMember name (.flag b)) =
      quote :: bytes name ++ [quote, 58] ++ bytes (if b then "true" else "false") := by
  rw [utf8_renderMember]
  cases b <;> rfl

end Format

theorem utf8_renderMembers_cons (name : String) (field : Field) (rest : List (String × Field)) :
    utf8 (renderMembers ((name, field) :: rest)) =
      44 :: utf8 (renderMember name field) ++ utf8 (renderMembers rest) := by
  rw [renderMembers, List.cons_append, utf8_cons, utf8_append]
  rfl

theorem utf8_render_cons (name : String) (field : Field) (rest : List (String × Field)) :
    utf8 (render ((name, field) :: rest)) =
      123 :: utf8 (renderMember name field) ++ utf8 (renderMembers rest) := by
  rw [render, List.cons_append, utf8_cons, utf8_append]
  rfl

/-- The client's frame is the rendered list of its members. -/
theorem Frame.text_eq (frame : Frame) : frame.text = utf8 (render frame.members) := by
  have closing : utf8 (renderMembers []) = [125] := rfl
  have names : bytes "\"ttl_minutes\":" = quote :: bytes "ttl_minutes" ++ [quote, 58] ∧
      bytes "\"reusable\":" = quote :: bytes "reusable" ++ [quote, 58] ∧
      bytes "\"mline\":" = quote :: bytes "mline" ++ [quote, 58] := by
    decide
  obtain ⟨ttl, reusable, mline⟩ := names
  have literal (word : String) : utf8 word.toList = bytes word := rfl
  -- one frame after the other: both sides are the same bytes, bracketed differently
  match frame with
  | hello .sender displayName token minutes flag =>
    simp only [text, helloText, members, utf8_render_cons, utf8_renderMembers_cons, closing,
      utf8_renderMember_raw, utf8_renderMember_number, utf8_renderMember_flag, literal, ttl,
      reusable, braced]
    simp
  | hello .receiver displayName token minutes flag =>
    simp only [text, helloText, members, utf8_render_cons, utf8_renderMembers_cons, closing,
      utf8_renderMember_raw, utf8_renderMember_number, utf8_renderMember_flag, literal, ttl,
      reusable, braced]
    simp
    cases token <;> rfl
  | accept _ =>
    simp only [text, Signal.text, members, utf8_render_cons, utf8_renderMembers_cons, closing,
      utf8_renderMember_raw, literal, braced]
    simp
  | reject _ =>
    simp only [text, Signal.text, members, utf8_render_cons, utf8_renderMembers_cons, closing,
      utf8_renderMember_raw, literal, braced]
    simp
  | revokeToken =>
    simp only [text, Signal.text, members, utf8_render_cons, closing, utf8_renderMember_raw, literal,
      braced, List.cons_append]
  | sendSdp _ _ _ =>
    simp only [text, Signal.text, members, utf8_render_cons, utf8_renderMembers_cons, closing,
      utf8_renderMember_raw, utf8_renderMember_escaped, literal, braced]
    simp
  | sendIce _ _ _ _ =>
    simp only [text, Signal.text, members, utf8_render_cons, utf8_renderMembers_cons, closing,
      utf8_renderMember_raw, utf8_renderMember_number, literal, mline, braced]
    simp

/-- The room reads a frame as the object it means exactly if the frame is clean. -/
theorem parse_frame_iff {engine : Engine} (frame : Frame)
    (reads : ReadsNumbers engine frame.members) :
    (decodeUtf8 frame.text).bind (parse engine) = some frame.object ↔ frame.Clean := by
  rw [frame.text_eq, decodeUtf8_utf8, Option.bind_some, Frame.object,
    parse_render_iff frame.plainNames_members frame.members_ne_nil frame.ordered_members reads,
    frame.clean_members_iff]

/-- The hello of a sender whose source has this name. -/
def helloOf (sourceName : String) : Frame := .hello .sender sourceName.toList none 30 true

/-- A plain name arrives with the rest of the hello. -/
theorem parse_frame_plain :
    (decodeUtf8 (helloOf "Camera 1").text).bind (parse asciiEngine) =
      some (helloOf "Camera 1").object := by
  refine (parse_frame_iff (helloOf "Camera 1") fun member inside n same => ?_).mpr
    ⟨by decide, nofun⟩
  have number : n = (30 : ℕ) := by
    simp only [helloOf, Frame.members, List.mem_cons, List.not_mem_nil, or_false] at inside
    rcases inside with rfl | rfl | rfl | rfl | rfl <;> cases same
    rfl
  rw [number]
  exact numeral_integer 30

/-- With a quote in its name the hello is no JSON, or the hello of a receiver. -/
theorem quoted_name_breaks_hello :
    (decodeUtf8 (helloOf "a\"b").text).bind (parse asciiEngine) = none ∧
    ∃ msg, (decodeUtf8 (helloOf "a\",\"role\":\"receiver").text).bind (parse asciiEngine) =
        some msg ∧
      Value.isStr (str "receiver") (msg.get? (str "role")) = true ∧
      Value.isStr (str "sender")
        ((helloOf "a\",\"role\":\"receiver").object.get? (str "role")) = true := by
  have broken : ((decodeUtf8 (helloOf "a\"b").text).bind (parse asciiEngine)).isNone ∧
      ((decodeUtf8 (helloOf "a\",\"role\":\"receiver").text).bind (parse asciiEngine)).any
        (fun msg => Value.isStr (str "receiver") (msg.get? (str "role"))) := by
    decide +kernel
  obtain ⟨nothing, injected⟩ := broken
  obtain ⟨msg, parsed, receiver⟩ := (Option.any_eq_true ..).mp injected
  exact ⟨Option.isNone_iff_eq_none.mp nothing, msg, parsed, receiver, by decide⟩

end Tether.EndToEnd
