import Tether.EndToEnd.Delivery
import Tether.Js.Escape
import Tether.Plugin.Sender

/-!
# What the sender records of a knock

The room quotes a receiver's name and fingerprint, and the sender reads each up to
the first quote into a buffer of 128 bytes. What is in the entry is the receiver's
own text if nothing of it has been escaped.

The names and fingerprints here are texts or absent, as the room's type of a hello
has them. Nothing at the room checks that.

## Main definitions

* `Knock` — a receiver with such a hello that the room announces to the sender
* `Knock.Recorded` — the entry holds the name and the fingerprint of the knock
* `Knock.Legible` — both are read as they are, and the fingerprint fits its buffer

## Main results

* `recorded_iff` — exactly the legible knocks are recorded as they are
* `quoted_fingerprints_collide` — two fingerprints with a quote are not told apart
-/

namespace Tether.EndToEnd

open Text Js Plugin

/-! ### Knocks -/

/-- A text, or nothing: how the members of a hello are declared. -/
def IsText : Option Value → Prop
  | none | some .null | some (.str _) => True
  | _ => False

instance : (value : Option Value) → Decidable (IsText value)
  | none | some .null | some (.str _) => isTrue trivial
  | some (.bool _) | some (.num _) | some (.arr _) | some (.obj _) => isFalse id

/-- The text of such a member, empty if there is none. -/
def textOf : Option Value → Str
  | some (.str s) => s
  | _ => []

theorem orElse_of_isText {value : Option Value} (isText : IsText value) :
    Value.orElse (.str []) value = .str (textOf value) := by
  rcases value with - | value
  · rfl
  · cases value with
    | null => rfl
    | str s => rfl
    | _ => exact isText.elim

/-- A receiver whose hello the room has admitted, with texts for its name and fingerprint. -/
structure Knock where
  id : Backend.Uuid
  hello : Value
  name : IsText (hello.get? (str "name"))
  fingerprint : IsText (hello.get? (str "fingerprint"))

namespace Knock

/-- The fingerprint the receiver announces; empty if it announces none. -/
def announced (k : Knock) : Str := textOf (k.hello.get? (str "fingerprint"))

/-- The room's message to the sender. -/
def frame (k : Knock) : Bytes := utf8 (stringify (Backend.pending k.id k.hello))

end Knock

/-- What the sender keeps of a fingerprint. -/
def shortened (fingerprint : Str) : Bytes := strncpy 128 (Sender.upToQuote fingerprint)

section Arrival

variable (k : Knock)

theorem pending_eq : Backend.pending k.id k.hello =
    .obj [(str "type", .str (str "pending")), (str "peer_id", .str k.id.str),
      (str "name", .str (textOf (k.hello.get? (str "name")))),
      (str "fingerprint", .str k.announced)] := by
  rw [Backend.pending, orElse_of_isText k.name, orElse_of_isText k.fingerprint]
  rfl

/-- A knock arrives as a knock, under the identifier of its record. -/
theorem handleMessage_frame : handleMessage k.frame =
    some (.requestPending, ⟨some k.id.text, some k.frame⟩) := by
  have type : firstHit (str "type") (Backend.pending k.id k.hello) = some (str "pending") := by
    rw [pending_eq]
    rfl
  have peer : firstHit (str "peer_id") (Backend.pending k.id k.hello) = some k.id.str := by
    rw [pending_eq]
    rfl
  rw [Knock.frame, handleMessage_stringify, raised]
  simp only [type, peer, Option.map_some, body_uuid]
  rfl

/-- The sender keeps the shortened fingerprint. -/
theorem textBuffer_frame : Sender.textBuffer "fingerprint" k.frame = shortened k.announced := by
  have found : firstHit (ofAscii (bytes "fingerprint")) (Backend.pending k.id k.hello) =
      some k.announced := by
    rw [pending_eq]
    rfl
  rw [Sender.textBuffer, Knock.frame, Sender.textMember_stringify (by decide) (by decide), found]
  rfl

end Arrival

/-- A text without escapes that fits the buffer is kept whole, and no other
fingerprint is shortened to it. -/
theorem shortened_eq_iff {fingerprint other : Str}
    (noEscape : backslash ∉ body fingerprint) (fits : (body fingerprint).length < 127) :
    shortened other = shortened fingerprint ↔ other = fingerprint := by
  have whole : shortened fingerprint = body fingerprint := by
    have clean := (body_wellFormed fingerprint).eq_takeWhile
      fun member => noEscape ((List.takeWhile_prefix _).subset member)
    rw [shortened, Sender.upToQuote, clean, strncpy_of_lt (by omega)]
  refine ⟨fun same => ?_, congrArg shortened⟩
  rw [whole, shortened, strncpy] at same
  have short : (Sender.upToQuote other).length ≤ 127 - 1 := by
    by_contra long
    have cut : ((Sender.upToQuote other).take (128 - 1)).length = 127 := by
      rw [List.length_take]
      omega
    rw [same] at cut
    omega
  rw [List.take_of_length_le (by omega)] at same
  refine body_injective ?_
  have all : Sender.upToQuote other = body other :=
    (body_wellFormed other).eq_takeWhile (by rwa [← Sender.upToQuote, same])
  exact all.symm.trans same

/-! ### Records -/

namespace Knock

/-- The name the receiver gives; empty if it gives none. -/
def called (k : Knock) : Str := textOf (k.hello.get? (str "name"))

/-- The entry holds the texts of the knock; the name may be cut to its buffer. -/
structure Recorded (k : Knock) (p : Peer) : Prop where
  name : ∃ text, k.called = utf16 text ∧ p.displayName = strncpy 128 (utf8 text)
  fingerprint : ∃ text, k.announced = utf16 text ∧ p.fingerprint = utf8 text

/-- Both texts survive the way to the sender. -/
structure Legible (k : Knock) : Prop where
  name : ∃ text, k.called = utf16 text ∧ SurvivesCut 127 (utf8 text)
  fingerprint : ∃ text, k.announced = utf16 text ∧ (utf8 text).length < 128 ∧
    SurvivesCut 127 (utf8 text)

/-- The sender keeps the shortened name. -/
theorem nameBuffer_frame (k : Knock) :
    Sender.textBuffer "name" k.frame = shortened k.called := by
  have found : firstHit (ofAscii (bytes "name")) (Backend.pending k.id k.hello) =
      some k.called := by
    rw [pending_eq]
    rfl
  rw [Sender.textBuffer, frame, Sender.textMember_stringify (by decide) (by decide), found]
  rfl

end Knock

/-! ### Texts -/

theorem shortened_utf16 (text : List Char) :
    shortened (utf16 text) = (unescaped (utf8 text)).take 127 := by
  rw [shortened, Sender.upToQuote, body_utf16]
  rfl

/-- A text arrives, cut to the buffer, exactly if its beginning survives. -/
theorem shortened_eq_cut_iff (text : List Char) :
    shortened (utf16 text) = strncpy 128 (utf8 text) ↔ SurvivesCut 127 (utf8 text) := by
  rw [shortened_utf16, ← take_unescaped_iff]
  rfl

/-- It arrives uncut if it also fits. -/
theorem shortened_eq_text_iff (text : List Char) :
    shortened (utf16 text) = utf8 text ↔
      (utf8 text).length < 128 ∧ SurvivesCut 127 (utf8 text) := by
  rw [← shortened_eq_cut_iff]
  constructor
  · intro whole
    have fits : (utf8 text).length < 128 := by
      rw [← whole]
      exact strncpy_length_lt (by decide) _
    exact ⟨fits, whole.trans (strncpy_of_lt fits).symm⟩
  · rintro ⟨fits, cut⟩
    exact cut.trans (strncpy_of_lt fits)

/-! ### Entries -/

section Entry

variable {s : Sender} {k : Knock} {now : UInt64} {connected : Connected} {p : Peer}

/-- The new entry holds the shortened texts. -/
theorem entered_texts
    (entered : (s.next (.message k.frame now connected)).adm.peers = s.adm.peers ++ [p]) :
    p.displayName = shortened k.called ∧ p.fingerprint = shortened k.announced := by
  obtain same | ⟨op, calls, changed⟩ := s.next_adm (.message k.frame now connected)
  · rw [same, List.self_eq_append_right] at entered
    cases entered
  · cases calls with
    | gone raised =>
      rw [handleMessage_frame] at raised
      cases raised
    | knock raised =>
      rw [handleMessage_frame] at raised
      simp only [Option.some.injEq, Prod.mk.injEq, Msg.mk.injEq, true_and] at raised
      obtain ⟨rfl, rfl⟩ := raised
      rw [changed, Admission.perform, textBuffer_frame, k.nameBuffer_frame] at entered
      obtain ⟨-, ⟨refused, -⟩ | ⟨added, -⟩⟩ :=
        s.adm.addPending_cases k.id.text (shortened k.called) (shortened k.announced) now
      · rw [refused, List.self_eq_append_right] at entered
        cases entered
      · rw [added, List.append_cancel_left_eq, List.cons.injEq] at entered
        obtain ⟨rfl, -⟩ := entered
        obtain ⟨name, fingerprint⟩ := @Admission.knockedPeer_texts s.adm k.id.text
          (shortened k.called) (shortened k.announced) now
        exact ⟨name.trans (strncpy_strncpy 128 _), fingerprint.trans (strncpy_strncpy 128 _)⟩

/-- Exactly the legible knocks are recorded as they are; among them an entry's
fingerprint equals what is read of a knock for its own fingerprint only. -/
theorem recorded_iff
    (entered : (s.next (.message k.frame now connected)).adm.peers = s.adm.peers ++ [p]) :
    (k.Recorded p ↔ k.Legible) ∧
      (k.Legible → ∀ other : Knock, other.Legible → other.announced ≠ k.announced →
        p.fingerprint ≠ Sender.textBuffer "fingerprint" other.frame) := by
  obtain ⟨name, fingerprint⟩ := entered_texts entered
  constructor
  · constructor
    · rintro ⟨⟨nameText, called, keptName⟩, text, announced, kept⟩
      rw [name, called, shortened_eq_cut_iff] at keptName
      rw [fingerprint, announced, shortened_eq_text_iff] at kept
      exact ⟨⟨nameText, called, keptName⟩, text, announced, kept⟩
    · rintro ⟨⟨nameText, called, keptName⟩, text, announced, kept⟩
      rw [← shortened_eq_cut_iff, ← called, ← name] at keptName
      rw [← shortened_eq_text_iff, ← announced, ← fingerprint] at kept
      exact ⟨⟨nameText, called, keptName⟩, text, announced, kept⟩
  · intro legible other otherLegible different same
    obtain ⟨text, announced, kept⟩ := legible.fingerprint
    obtain ⟨otherText, otherAnnounced, otherKept⟩ := otherLegible.fingerprint
    rw [textBuffer_frame, fingerprint, announced, otherAnnounced,
      (shortened_eq_text_iff text).mpr kept, (shortened_eq_text_iff otherText).mpr otherKept]
      at same
    rw [announced, otherAnnounced, utf8_injective same] at different
    exact different rfl

end Entry

/-! ### Samples -/

/-- A receiver that announces this fingerprint. -/
def announcing (n : Fin 10) (fingerprint : Str) : Knock where
  id := Backend.numbered n
  hello := .obj [(str "fingerprint", .str fingerprint)]
  name := trivial
  fingerprint := trivial

/-- A fingerprint as certificates have them is recorded as it is. -/
theorem recorded_iff_plain : ∃ fresh p, Sender.create Sender.sampleConfig = some fresh ∧
    (fresh.next (.message (announcing 1 (str "AB:CD")).frame 0 none)).adm.peers = [p] ∧
    (announcing 1 (str "AB:CD")).Recorded p := by
  have created : Sender.create Sender.sampleConfig = some _ := rfl
  have entries : ((Sender.create Sender.sampleConfig).any fun fresh =>
      (fresh.next (.message (announcing 1 (str "AB:CD")).frame 0 none)).adm.peers.length = 1) =
        true := by
    decide +kernel
  rw [created, Option.any_some, decide_eq_true_eq] at entries
  obtain ⟨p, single⟩ := List.length_eq_one_iff.mp entries
  have legible : (announcing 1 (str "AB:CD")).Legible :=
    ⟨⟨[], rfl, .nil 127⟩, "AB:CD".toList, rfl, by decide,
      bytes "AB:CD", 0, by decide, by decide, .inl rfl⟩
  exact ⟨_, p, created, single, (recorded_iff single).1.mpr legible⟩

/-- Two receivers that announce these fingerprints knock at a new sender. -/
def twoKnocks (first second : Str) : List Sender.Event :=
  [.message (announcing 1 first).frame 0 none, .message (announcing 2 second).frame 1 none]

/-- Two different fingerprints with a quote in them are recorded alike. -/
theorem quoted_fingerprints_collide : ∃ fresh, Sender.create Sender.sampleConfig = some fresh ∧
    (announcing 1 (str "a\"b")).announced ≠ (announcing 2 (str "a\"c")).announced ∧
    ∃ p q, (fresh.after (twoKnocks (str "a\"b") (str "a\"c"))).adm.peers = [p, q] ∧
      p.fingerprint = q.fingerprint ∧ ¬ (announcing 1 (str "a\"b")).Recorded p ∧
      ¬ (announcing 2 (str "a\"c")).Recorded q := by
  have created : Sender.create Sender.sampleConfig = some _ := rfl
  have entries : ((Sender.create Sender.sampleConfig).map fun fresh =>
      (fresh.after (twoKnocks (str "a\"b") (str "a\"c"))).adm.peers.map (·.fingerprint)) =
        some [bytes "a\\", bytes "a\\"] := by
    decide +kernel
  rw [created, Option.map_some, Option.some.injEq] at entries
  have different (k : Knock) (p : Peer) (recorded : p.fingerprint = bytes "a\\")
      (announced : k.announced ≠ str "a\\") : ¬ k.Recorded p := by
    rintro ⟨-, text, said, kept⟩
    obtain rfl : text = "a\\".toList := utf8_injective (kept.symm.trans recorded)
    exact announced said
  obtain ⟨p, rest, shape, first, others⟩ := List.map_eq_cons_iff.mp entries
  obtain ⟨q, behind, rfl, second, nothing⟩ := List.map_eq_cons_iff.mp others
  obtain rfl := List.map_eq_nil_iff.mp nothing
  exact ⟨_, created, by decide, p, q, shape, first.trans second.symm,
    different _ p first (by decide), different _ q second (by decide)⟩

end Tether.EndToEnd
