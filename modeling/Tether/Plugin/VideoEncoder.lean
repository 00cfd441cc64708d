import Tether.Plugin.Mailbox
import Tether.Plugin.SourceEncoder
import Tether.Semantics.Codecs
import Tether.Text.Bytes

/-!
# Encoding a capture for a receiver

Every session has an encoder of its own for every capture. A frame is scaled into the encoder's
picture and handed to libavcodec, and whatever packets that brings are pushed. An encoder that
has been too busy for a frame is not asked for its packets.

## Main definitions

* `EncoderLibs` — what libswscale and libavcodec do
* `VideoEncoder.encode`, `VideoEncoder.encodeAll` — what `encode_capture_to_sessions` does for a
  session with one frame, and with many
* `VideoEncoder.Blocked` — frames behind one that met an error

## Main results

* `encode_of_ready` — an encoder that is set up is given the frame
* `VideoEncoder.frozen_until_resized` — once an encoder has been too busy for a frame, nothing is
  pushed any more until a frame of another size comes
-/

namespace Tether.Plugin

open Text Semantics

/-- What the libraries do for an encoder, with pictures of any kind. -/
structure EncoderLibs (ε π : Type*) where
  /-- The context that `avcodec_open2` leaves. -/
  opened : CodecContext → ε
  /-- `sws_scale`, to a size -/
  scale : ℤ × ℤ → FrameSnapshot → π
  /-- libavcodec's encoder of H.264, for pictures with their times -/
  codec : Codec ε (π × ℤ) Bytes

/-- `struct source_encoder`, with what libavcodec has in its context. -/
structure VideoEncoder (ε : Type*) where
  parts : EncoderParts
  context : Option ε

/-- A frame that is to be encoded, and the call that sets the encoder up for it. -/
structure EncodeCall where
  frame : FrameSnapshot
  videoBitrateKbps : ℤ
  setUp : EncoderCall
  width : setUp.width = frame.width.toInt32.toInt
  height : setUp.height = frame.height.toInt32.toInt
  bitrate : setUp.bitrateKbps = if 0 < videoBitrateKbps then videoBitrateKbps else 6000

/-- The size that the encoder is set up for. -/
def EncodeCall.size (call : EncodeCall) : ℤ × ℤ := (call.setUp.width, call.setUp.height)

/-! ### Set-ups along a run -/

namespace EncoderParts

/-- The parts with another time for the next frame. -/
def timed (r : EncoderParts) (pts : ℤ) : EncoderParts := { r with framePts := pts }

variable {r : EncoderParts} {setUp : EncoderCall}

/-- A set-up forgets the time. -/
theorem ensure_timed_of_new (new : ¬ r.Fits setUp) (pts : ℤ) :
    (r.timed pts).ensure setUp = r.ensure setUp := by
  rw [ensure, ensure, if_neg new, if_neg (show ¬ (r.timed pts).Fits setUp from new)]

theorem framePts_of_new (new : ¬ r.Fits setUp) : (r.ensure setUp).2.framePts = 0 := by
  rw [ensure, if_neg new]
  dsimp only
  split_ifs <;> rfl

/-- After a set-up the encoder has the size that was asked for. -/
theorem ensure_size (r : EncoderParts) (setUp : EncoderCall) :
    (r.ensure setUp).2.encWidth = setUp.width ∧ (r.ensure setUp).2.encHeight = setUp.height := by
  by_cases fits : r.Fits setUp
  · rw [ensure_of_fits fits]
    exact fits.2
  · rw [ensure, if_neg fits]
    dsimp only
    split_ifs <;> exact ⟨rfl, rfl⟩

/-- If no call follows a late failure of the same size, every success leaves everything there. -/
theorem honest_of_undisturbed {calls : List EncoderCall}
    (undisturbed : EveryStep Undisturbed calls) : EveryStep Honest calls := by
  induction calls using history_induction with
  | base => exact .nil
  | step before setUp ih =>
    obtain ⟨earlier, last⟩ := everyStep_concat.mp undisturbed
    have honest := ih earlier
    exact everyStep_concat.mpr ⟨honest, (honest_iff (left_of_honest before honest) setUp).mpr last⟩

/-- Without late failures there is nothing to disturb a call. -/
theorem undisturbed_of_whole {calls : List EncoderCall}
    (whole : ∀ setUp ∈ calls,
      (setUp.frame && setUp.packet && setUp.buffer && setUp.scaler) = true) :
    EveryStep Undisturbed calls := by
  rintro before setUp after rfl earlier last rfl late
  have works := whole last (by simp)
  rw [late.2.2] at works
  cases works

end EncoderParts

variable {ε π : Type*}

namespace VideoEncoder

/-- As it is allocated. -/
def zero : VideoEncoder ε := ⟨.zero, none⟩

section Encode

variable (libs : EncoderLibs ε π) (turns : ℕ)

/-- The encoder after `ensure_source_encoder`, and whether that was a success. -/
def ensure (e : VideoEncoder ε) (call : EncodeCall) : Bool × VideoEncoder ε :=
  let (ready, parts) := e.parts.ensure call.setUp
  -- what was there is kept as it is, or it has been freed
  (ready, ⟨parts, if e.parts.Fits call.setUp then e.context else parts.enc.map libs.opened⟩)

/-- What `encode_capture_to_sessions` does for one session. There is no result where a part is
missing, and nothing is said of an encoder that could not be set up. -/
def encode (e : VideoEncoder ε) (call : EncodeCall) :
    Option (Option (Exchange Bytes) × VideoEncoder ε) :=
  let (ready, e) := e.ensure libs call
  if !ready then some (none, e)
  else
    match e.context, e.parts.encIn, e.parts.encPkt, e.parts.sws with
    | some enc, some ⟨_, _, true⟩, true, some size =>
      let encIn := (libs.scale size call.frame, e.parts.framePts)
      let parts := { e.parts with framePts := e.parts.framePts + 1 }
      match libs.codec.send enc encIn with
      | (.taken, enc) =>
        (libs.codec.drain turns enc).map fun drained =>
          (some ⟨.taken, drained.outputs, drained.emptied⟩, ⟨parts, some drained.state⟩)
      -- any other answer ends it, `EAGAIN` too
      | (answer, enc) => some (some ⟨answer, [], false⟩, ⟨parts, some enc⟩)
    | _, _, _, _ => none

/-- Frames one after another, and what has come of each. -/
def encodeAll (e : VideoEncoder ε) (calls : List EncodeCall) :
    Option (List (Option (Exchange Bytes)) × VideoEncoder ε) :=
  inTurn (fun e call => e.encode libs turns call) e calls

end Encode

/-- The packets that are pushed. -/
def pushed (outcomes : List (Option (Exchange Bytes))) : List Bytes :=
  outcomes.flatMap fun outcome => (outcome.map Exchange.outputs).getD []

variable {libs : EncoderLibs ε π} {turns : ℕ} {e : VideoEncoder ε} {call : EncodeCall}

/-! ### One frame -/

/-- Everything that a frame is handed through is there. -/
structure Ready (e : VideoEncoder ε) (enc : ε) (size : ℤ × ℤ) : Prop where
  context : e.context = some enc
  encIn : ∃ width height, e.parts.encIn = some ⟨width, height, true⟩
  encPkt : e.parts.encPkt = true
  sws : e.parts.sws = some size

/-- The encoder with another state of its context, for the frame after this one. -/
def went (e : VideoEncoder ε) (enc : ε) : VideoEncoder ε :=
  ⟨{ e.parts with framePts := e.parts.framePts + 1 }, some enc⟩

/-- An encoder that is set up is given the frame, and emptied if it takes it. -/
theorem encode_of_ready {e' : VideoEncoder ε} {enc : ε} {size : ℤ × ℤ}
    (ensured : e.ensure libs call = (true, e')) (ready : e'.Ready enc size) :
    e.encode libs turns call =
      (libs.codec.put false turns enc (libs.scale size call.frame, e'.parts.framePts)).map
        fun (exchange, enc) => (some exchange, e'.went enc) := by
  obtain ⟨⟨_, _, _, _, _, _, pts⟩, _⟩ := e'
  obtain ⟨rfl, ⟨width, height, rfl⟩, rfl, rfl⟩ := ready
  rw [encode, ensured, Codec.put]
  dsimp only
  rw [if_neg (by decide)]
  rcases libs.codec.send enc (libs.scale size call.frame, pts) with ⟨_ | _ | _, enc'⟩
  · dsimp only
    rw [Option.map_map]
    rfl
  · rfl
  · rfl

/-- What a frame does: nothing, to an encoder that cannot be set up, or what the codec does with
it. -/
theorem encode_cases {last : VideoEncoder ε} {outcome : Option (Exchange Bytes)}
    (ran : e.encode libs turns call = some (outcome, last)) :
    (e.ensure libs call = (false, last) ∧ outcome = none) ∨
      ∃ e' enc size exchange enc', e.ensure libs call = (true, e') ∧ e'.Ready enc size ∧
        libs.codec.put false turns enc (libs.scale size call.frame, e'.parts.framePts) =
          some (exchange, enc') ∧
        last = e'.went enc' ∧ outcome = some exchange := by
  rcases ensured : e.ensure libs call with ⟨_ | _, e'⟩
  · rw [encode, ensured] at ran
    obtain ⟨rfl, rfl⟩ := Prod.mk.inj (Option.some.inj ran)
    exact .inl ⟨rfl, rfl⟩
  · right
    obtain ⟨enc, size, ready⟩ : ∃ enc size, e'.Ready enc size := by
      rw [encode, ensured] at ran
      simp only [Bool.not_true, Bool.false_eq_true, if_false] at ran
      split at ran
      · rename_i enc width height size context encIn encPkt sws
        exact ⟨enc, size, context, ⟨width, height, encIn⟩, encPkt, sws⟩
      · cases ran
    rw [encode_of_ready ensured ready] at ran
    obtain ⟨⟨exchange, enc'⟩, put, same⟩ := Option.map_eq_some_iff.mp ran
    obtain ⟨rfl, rfl⟩ := Prod.mk.inj same
    exact ⟨e', enc, size, exchange, enc', rfl, ready, put, rfl, rfl⟩

/-! ### Encoders that stand still -/

theorem ensure_of_fits (fits : e.parts.Fits call.setUp) : e.ensure libs call = (true, e) := by
  rw [ensure, EncoderParts.ensure_of_fits fits]
  dsimp only
  rw [if_pos fits]

/-- The parts are what the set-ups have left, but for the time. -/
theorem parts_of_ensure (libs : EncoderLibs ε π) (call : EncodeCall) {before : List EncoderCall}
    (parts : e.parts = (EncoderParts.after before).timed e.parts.framePts) :
    (e.ensure libs call).1 = ((EncoderParts.after before).ensure call.setUp).1 ∧
      (e.ensure libs call).2.parts = (EncoderParts.after (before ++ [call.setUp])).timed
        (e.ensure libs call).2.parts.framePts := by
  rw [EncoderParts.after_concat]
  by_cases fits : e.parts.Fits call.setUp
  · have fits' : (EncoderParts.after before).Fits call.setUp := by
      rw [parts] at fits
      exact fits
    rw [ensure_of_fits fits, EncoderParts.ensure_of_fits fits']
    exact ⟨rfl, parts⟩
  · have new : ¬ (EncoderParts.after before).Fits call.setUp := by
      rw [parts] at fits
      exact fits
    have same : e.parts.ensure call.setUp = (EncoderParts.after before).ensure call.setUp := by
      rw [parts]
      exact EncoderParts.ensure_timed_of_new new _
    rw [ensure, same]
    exact ⟨rfl, rfl⟩

/-- An encoder that is ready fits the frame, and it is the one that was there, or a new one. -/
theorem Ready.of_ensure {e' : VideoEncoder ε} {enc : ε} {size : ℤ × ℤ}
    (ready : e'.Ready enc size) (ensured : e.ensure libs call = (true, e')) :
    (e.parts.Fits call.setUp ∧ e' = e) ∨
      (e'.parts.Fits call.setUp ∧ ∃ settings, enc = libs.opened settings) := by
  by_cases fits : e.parts.Fits call.setUp
  · rw [ensure_of_fits fits] at ensured
    exact .inl ⟨fits, (Prod.mk.inj ensured).2.symm⟩
  · right
    obtain ⟨width, height⟩ := EncoderParts.ensure_size e.parts call.setUp
    rw [ensure] at ensured
    obtain ⟨-, rfl⟩ := Prod.mk.inj ensured
    have context := ready.context
    dsimp only at context ⊢
    rw [if_neg fits] at context
    obtain ⟨settings, opened, rfl⟩ := Option.map_eq_some_iff.mp context
    exact ⟨⟨by rw [opened]; rfl, width, height⟩, settings, rfl⟩

/-- Frames of the size of an encoder that is too busy for one of them. -/
theorem encodeAll_frozen (unmoved : libs.codec.Unmoved) {enc : ε} {size : ℤ × ℤ}
    (ready : e.Ready enc size) {input : π × ℤ} (busy : (libs.codec.send enc input).1 = .busy)
    {calls : List EncodeCall} (fits : ∀ call ∈ calls, e.parts.Fits call.setUp) :
    ∃ last, e.encodeAll libs turns calls = some (calls.map fun _ => some ⟨.busy, [], false⟩, last) ∧
      last.Ready enc size ∧ last.parts.encWidth = e.parts.encWidth ∧
      last.parts.encHeight = e.parts.encHeight := by
  induction calls generalizing e with
  | nil => exact ⟨e, rfl, ready, rfl, rfl⟩
  | cons call rest ih =>
    have here := fits call List.mem_cons_self
    have stands : (e.went enc).Ready enc size := ⟨rfl, ready.encIn, ready.encPkt, ready.sws⟩
    obtain ⟨last, ran, isReady, width, height⟩ :=
      ih stands fun other member => fits other (List.mem_cons_of_mem _ member)
    have put : libs.codec.put false turns enc (libs.scale size call.frame, e.parts.framePts) =
        some (⟨.busy, [], false⟩, enc) := by
      have conversation := unmoved.silent busy turns
        [(libs.scale size call.frame, e.parts.framePts)]
      obtain ⟨⟨exchange, _⟩, put, more⟩ := Option.bind_eq_some_iff.mp conversation
      obtain ⟨⟨others, _⟩, later, same⟩ := Option.map_eq_some_iff.mp more
      cases later
      cases same
      exact put
    refine ⟨last, ?_, isReady, width, height⟩
    rw [encodeAll] at ran
    rw [encodeAll, inTurn, encode_of_ready (ensure_of_fits here) ready, put, Option.map_some,
      Option.bind_some]
    dsimp only
    rw [ran]
    rfl

/-! ### Runs -/

/-- The last frames are one of this size whose sending or draining met an error, and behind it
frames of this size that were refused. -/
def Blocked (size : ℤ × ℤ) (calls : List EncodeCall) (outcomes : List (Option (Exchange Bytes))) :
    Prop :=
  ∃ earlier previous refused front first, calls = earlier ++ previous :: refused ∧
    outcomes = front ++ some first :: refused.map (fun _ => some ⟨.busy, [], false⟩) ∧
    first.answer ≠ .busy ∧ first.emptied = false ∧ ∀ other ∈ previous :: refused, other.size = size

/-- One more frame of the size is refused. -/
theorem Blocked.concat {size : ℤ × ℤ} {calls : List EncodeCall}
    {outcomes : List (Option (Exchange Bytes))} (blocked : Blocked size calls outcomes)
    {call : EncodeCall} (same : call.size = size) :
    Blocked size (calls ++ [call]) (outcomes ++ [some ⟨.busy, [], false⟩]) := by
  obtain ⟨earlier, previous, refused, front, first, rfl, rfl, taken, left, sizes⟩ := blocked
  refine ⟨earlier, previous, refused ++ [call], front, first, by simp, by simp, taken, left, ?_⟩
  rw [← List.cons_append, List.forall_mem_append]
  exact ⟨sizes, by simpa using same⟩

/-- The codec of an encoder is not busy, or the encoder is blocked for its size. -/
def Behind (libs : EncoderLibs ε π) (before : List EncodeCall)
    (outcomes : List (Option (Exchange Bytes))) (e : VideoEncoder ε) : Prop :=
  ∀ enc, e.context = some enc → libs.codec.Ready enc ∨
    Blocked (e.parts.encWidth, e.parts.encHeight) before outcomes

section Run

variable {pending : ε → ℕ} (lawful : libs.codec.Lawful pending)
  (fresh : ∀ settings, libs.codec.Ready (libs.opened settings))

include lawful fresh

theorem behind_of_encode {before : List EncodeCall} {outcomes : List (Option (Exchange Bytes))}
    {last : VideoEncoder ε} {outcome : Option (Exchange Bytes)}
    (behind : Behind libs before outcomes e) (ran : e.encode libs turns call = some (outcome, last)) :
    Behind libs (before ++ [call]) (outcomes ++ [outcome]) last := by
  intro enc context
  rcases encode_cases ran with ⟨ensured, -⟩ | ⟨e', old, size, exchange, new, ensured, ready, put,
    rfl, rfl⟩
  · -- what could not be set up has a new context at most
    left
    by_cases fits : e.parts.Fits call.setUp
    · rw [ensure_of_fits fits] at ensured
      cases (Prod.mk.inj ensured).1
    · rw [ensure] at ensured
      obtain ⟨-, rfl⟩ := Prod.mk.inj ensured
      dsimp only at context
      rw [if_neg fits] at context
      obtain ⟨settings, -, rfl⟩ := Option.map_eq_some_iff.mp context
      exact fresh settings
  · obtain rfl : new = enc := Option.some.inj context
    cases emptied : exchange.emptied with
    | true => exact .inl (lawful.ready_of_put put emptied)
    | false =>
      right
      have sized : call.size = (e'.parts.encWidth, e'.parts.encHeight) := by
        have fits : e'.parts.Fits call.setUp := by
          rcases ready.of_ensure ensured with ⟨fits, rfl⟩ | ⟨fits, -⟩ <;> exact fits
        rw [EncodeCall.size, ← fits.2.1, ← fits.2.2]
      by_cases busy : exchange.answer = .busy
      · -- it was blocked before, since what is new or empty is not busy
        obtain ⟨rfl, sent⟩ := Codec.put_busy put busy
        rcases ready.of_ensure ensured with ⟨-, rfl⟩ | ⟨-, settings, rfl⟩
        · rcases behind old ready.context with isReady | blocked
          · exact absurd sent (isReady _)
          · exact blocked.concat sized
        · exact absurd sent (fresh settings _)
      · refine ⟨before, call, [], outcomes, exchange, rfl, rfl, busy, emptied, ?_⟩
        rw [List.forall_mem_singleton]
        exact sized

theorem behind_of_encodeAll {before : List EncodeCall} {outcomes : List (Option (Exchange Bytes))}
    {last : VideoEncoder ε} (ran : zero.encodeAll libs turns before = some (outcomes, last)) :
    Behind libs before outcomes last := by
  induction before using history_induction generalizing outcomes last with
  | base =>
    obtain ⟨-, rfl⟩ := Prod.mk.inj (Option.some.inj ran)
    intro enc context
    cases context
  | step earlier call ih =>
    rw [encodeAll, inTurn_concat] at ran
    obtain ⟨⟨outcomes', e⟩, first, more⟩ := Option.bind_eq_some_iff.mp ran
    obtain ⟨⟨outcome, _⟩, encoded, same⟩ := Option.map_eq_some_iff.mp more
    obtain ⟨rfl, rfl⟩ := Prod.mk.inj same
    exact behind_of_encode lawful fresh (ih first) encoded

/-- An encoder is too busy for a frame only directly behind a frame of the same size whose sending
or draining met an error, and others of that size that have been refused since. It is too busy for
all frames of that size then, and nothing is pushed for them, until a frame of another size comes,
for which there is a new encoder. -/
theorem frozen_until_resized (unmoved : libs.codec.Unmoved) {before : List EncodeCall}
    {outcomes : List (Option (Exchange Bytes))}
    (ran : zero.encodeAll libs turns before = some (outcomes, e)) {e' : VideoEncoder ε}
    {exchange : Exchange Bytes} (here : e.encode libs turns call = some (some exchange, e'))
    (busy : exchange.answer = .busy) :
    Blocked call.size before outcomes ∧
    ∀ middle : List EncodeCall, (∀ other ∈ middle, other.size = call.size) →
      ∃ e'', e'.encodeAll libs turns middle =
          some (middle.map fun _ => some ⟨.busy, [], false⟩, e'') ∧
        ∀ other : EncodeCall, other.size ≠ call.size → ∀ last outcome,
          e''.encode libs turns other = some (some outcome, last) → outcome.answer ≠ .busy := by
  rcases encode_cases here with ⟨-, none⟩ | ⟨e₁, enc, size, exchange', enc', ensured, ready, put,
    rfl, same⟩
  · cases none
  obtain rfl : exchange = exchange' := Option.some.inj same
  have sent : (libs.codec.send enc (libs.scale size call.frame, e₁.parts.framePts)).1 = .busy := by
    rw [← Codec.put_answer put, busy]
  -- a new encoder would not be busy
  have kept : e.parts.Fits call.setUp ∧ e₁ = e := by
    rcases ready.of_ensure ensured with kept | ⟨-, settings, rfl⟩
    · exact kept
    · exact absurd sent (fresh settings _)
  obtain ⟨fits, rfl⟩ := kept
  have isSize : call.size = (e₁.parts.encWidth, e₁.parts.encHeight) := by
    rw [EncodeCall.size, ← fits.2.1, ← fits.2.2]
  constructor
  · rcases behind_of_encodeAll lawful fresh ran enc ready.context with isReady | blocked
    · exact absurd sent (isReady _)
    · rw [isSize]
      exact blocked
  · intro middle alike
    obtain rfl : enc' = enc := by
      rcases answered : libs.codec.send enc (libs.scale size call.frame, e₁.parts.framePts) with
        ⟨answer, s⟩
      rw [answered] at sent
      obtain rfl : answer = .busy := sent
      rw [Codec.put, answered] at put
      exact ((Prod.mk.inj (Option.some.inj put)).2.symm).trans (unmoved.same enc _ s answered)
    have stands : (e₁.went enc').Ready enc' size := ⟨rfl, ready.encIn, ready.encPkt, ready.sws⟩
    have all : ∀ other ∈ middle, (e₁.went enc').parts.Fits other.setUp := by
      intro other member
      have sizes := (alike other member).trans isSize
      exact ⟨fits.1, (Prod.mk.inj sizes).1.symm, (Prod.mk.inj sizes).2.symm⟩
    obtain ⟨e'', frozen, -, width, height⟩ := encodeAll_frozen unmoved stands sent all
    refine ⟨e'', frozen, fun other differs last outcome encoded => ?_⟩
    rcases encode_cases encoded with ⟨-, none⟩ | ⟨e₂, new, size', exchange', _, ensured', ready',
      put', rfl, same'⟩
    · cases none
    obtain rfl : outcome = exchange' := Option.some.inj same'
    rcases ready'.of_ensure ensured' with ⟨fits', -⟩ | ⟨-, settings, rfl⟩
    · refine absurd ?_ differs
      rw [isSize, EncodeCall.size, ← fits'.2.1, ← fits'.2.2, width, height]
      rfl
    · rw [Codec.put_answer put']
      exact fresh settings _

end Run

/-- A frame of one pixel, and a set-up in which every step works. -/
def onePixel : EncodeCall where
  frame := ⟨0, [0, 0, 0, 0], 1, 1, 4⟩
  videoBitrateKbps := 0
  setUp :=
    { width := 1
      height := 1
      bitrateKbps := 6000
      found := true
      allocated := true
      opened := true
      frame := true
      packet := true
      buffer := true
      scaler := true }
  width := rfl
  height := rfl
  bitrate := rfl

/-- An encoder that takes one frame and fails to make a packet of it. -/
def jammed : EncoderLibs Bool Unit where
  opened _ := false
  scale _ _ := ()
  codec :=
    { send := fun full _ => if full then (.busy, full) else (.taken, true)
      receive := fun full => (.failed, full) }

/-- What it is like with a frame in it. -/
def jammedEncoder (framePts : ℤ) : VideoEncoder Bool where
  parts :=
    { enc := some ⟨1, 1, 6000000⟩
      encIn := some ⟨1, 1, true⟩
      encPkt := true
      sws := some (1, 1)
      encWidth := 1
      encHeight := 1
      framePts }
  context := some true

/-- Of four frames the first one is taken, and nothing is pushed for the others. -/
theorem frozen_until_resized_jammed :
    zero.encodeAll jammed 1 [onePixel] = some ([some ⟨.taken, [], false⟩], jammedEncoder 1) ∧
      (jammedEncoder 1).encode jammed 1 onePixel =
        some (some ⟨.busy, [], false⟩, jammedEncoder 2) ∧
      ∃ last, (jammedEncoder 2).encodeAll jammed 1 [onePixel, onePixel] =
        some ([some ⟨.busy, [], false⟩, some ⟨.busy, [], false⟩], last) := by
  have lawful : jammed.codec.Lawful fun _ => 0 := by
    constructor
    · intro s output s' given
      cases given
    · intro s s' given
      cases given
  have unmoved : jammed.codec.Unmoved := by
    constructor
    · rintro (_ | _) input s' sent <;> cases sent
      rfl
    · rintro (_ | _) input other busy
      · cases busy
      · rfl
  have first : zero.encodeAll jammed 1 [onePixel] =
      some ([some ⟨.taken, [], false⟩], jammedEncoder 1) := rfl
  have second : (jammedEncoder 1).encode jammed 1 onePixel =
      some (some ⟨.busy, [], false⟩, jammedEncoder 2) := rfl
  obtain ⟨-, frozen⟩ :=
    frozen_until_resized lawful (fun _ input => by simp [jammed]) unmoved first second rfl
  obtain ⟨last, encoded, -⟩ := frozen [onePixel, onePixel] (by simp)
  exact ⟨first, second, last, encoded⟩

end VideoEncoder

end Tether.Plugin
