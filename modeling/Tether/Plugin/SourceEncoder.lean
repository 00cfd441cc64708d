import Mathlib.Data.Int.Notation
import Tether.Semantics.Run

/-!
# Setting up an encoder

Before a frame is encoded, the encoder of its source is made ready for the size of the
frame. What there is of the right size is used as it is; otherwise everything is freed and
built again in several steps, each of which can fail. The sizes are written before the
first of them.

## Main definitions

* `EncoderParts.ensure` — `ensure_source_encoder`
* `EncoderParts.Complete` — everything there for a size
* `EncoderCall.BreaksLate` — a call that opens the codec, and fails in a later step

## Main results

* `complete_iff` — success means that everything is there, along a run, if and only if
  no call follows directly, with the same size, one that has failed late
* `half_built` — success without a frame
-/

namespace Tether.Plugin

open Semantics

/-- An `AVCodecContext` that has been opened. -/
structure CodecContext where
  width : ℤ
  height : ℤ
  bitRate : ℤ
  deriving DecidableEq

/-- An `AVFrame`. -/
structure EncoderFrame where
  width : ℤ
  height : ℤ
  buffer : Bool
  deriving DecidableEq

/-- `struct source_encoder`, the part that is set up. -/
structure EncoderParts where
  enc : Option CodecContext
  encIn : Option EncoderFrame
  encPkt : Bool
  sws : Option (ℤ × ℤ)
  encWidth : ℤ
  encHeight : ℤ
  framePts : ℤ
  deriving DecidableEq

/-- A call, and which of its steps will work. -/
structure EncoderCall where
  width : ℤ
  height : ℤ
  bitrateKbps : ℤ
  /-- `avcodec_find_encoder` -/
  found : Bool
  /-- `avcodec_alloc_context3` -/
  allocated : Bool
  /-- `avcodec_open2` -/
  opened : Bool
  /-- `av_frame_alloc` -/
  frame : Bool
  /-- `av_packet_alloc` -/
  packet : Bool
  /-- `av_frame_get_buffer` -/
  buffer : Bool
  /-- `sws_getContext` -/
  scaler : Bool

namespace EncoderParts

variable (r : EncoderParts) (call : EncoderCall)

/-- As it is allocated. -/
def zero : EncoderParts := ⟨none, none, false, none, 0, 0, 0⟩

/-- What the first check asks for. -/
def Fits : Prop := r.enc.isSome ∧ r.encWidth = call.width ∧ r.encHeight = call.height

instance : Decidable (r.Fits call) := inferInstanceAs (Decidable (_ ∧ _ ∧ _))

/-- `ensure_source_encoder` -/
def ensure : Bool × EncoderParts :=
  if r.Fits call then (true, r)
  else
    -- the sizes are written down before anything is there for them
    let freed : EncoderParts :=
      { enc := none
        encIn := none
        encPkt := false
        sws := none
        encWidth := call.width
        encHeight := call.height
        framePts := 0 }
    if !call.found then (false, freed)
    else if !call.allocated then (false, freed)
    else if !call.opened then (false, freed)
    else
      let codec := { freed with enc := some ⟨call.width, call.height, call.bitrateKbps * 1000⟩ }
      -- both are allocated before either of them is checked
      let parts :=
        { codec with
          encIn := if call.frame then some ⟨0, 0, false⟩ else none
          encPkt := call.packet }
      if !call.frame || !call.packet then (false, parts)
      else if !call.buffer then
        (false, { parts with encIn := some ⟨call.width, call.height, false⟩ })
      else
        (call.scaler,
          { parts with
            encIn := some ⟨call.width, call.height, true⟩
            sws := if call.scaler then some (call.width, call.height) else none })

/-- An open codec, a packet, a frame with its buffer and a scaler, all for one size. -/
def Complete (width height : ℤ) : Prop :=
  (∃ codec ∈ r.enc, codec.width = width ∧ codec.height = height) ∧
    r.encIn = some ⟨width, height, true⟩ ∧ r.encPkt = true ∧ r.sws = some (width, height)

/-- The state after some calls. -/
def after (calls : List EncoderCall) : EncoderParts :=
  run (fun r call => (r.ensure call).2) zero calls

end EncoderParts

/-- The call sets the encoder up anew, opens the codec, and fails in a later step. -/
def EncoderCall.BreaksLate (call : EncoderCall) (r : EncoderParts) : Prop :=
  ¬ r.Fits call ∧ (call.found && call.allocated && call.opened) = true ∧
    (call.frame && call.packet && call.buffer && call.scaler) = false

/-- The call would report success, and everything is there if it does. -/
def Honest (before : List EncoderCall) (call : EncoderCall) : Prop :=
  ((EncoderParts.after before).ensure call).1 = true →
    ((EncoderParts.after before).ensure call).2.Complete call.width call.height

/-- The call does not follow directly, with the same size, one that has failed late. -/
def Undisturbed (before : List EncoderCall) (call : EncoderCall) : Prop :=
  ∀ earlier last, before = earlier ++ [last] →
    last.BreaksLate (EncoderParts.after earlier) →
      ¬ (last.width = call.width ∧ last.height = call.height)

namespace EncoderParts

variable {r : EncoderParts} {call : EncoderCall}

/-! ### Calls -/

theorem ensure_of_fits (fits : r.Fits call) : r.ensure call = (true, r) := if_pos fits

/-- Before the codec is open a failure leaves none behind. -/
theorem ensure_of_early (new : ¬ r.Fits call)
    (early : (call.found && call.allocated && call.opened) = false) :
    (r.ensure call).1 = false ∧ (r.ensure call).2.enc = none := by
  rw [ensure, if_neg new]
  cases found : call.found
  · exact ⟨rfl, rfl⟩
  cases allocated : call.allocated
  · exact ⟨rfl, rfl⟩
  cases opened : call.opened
  · exact ⟨rfl, rfl⟩
  · simp [found, allocated, opened] at early

/-- With the codec open everything else is there if every later step works, and not
otherwise. -/
theorem ensure_of_opened (new : ¬ r.Fits call)
    (opened : (call.found && call.allocated && call.opened) = true) :
    (r.ensure call).2.enc.isSome ∧ (r.ensure call).2.encWidth = call.width ∧
      (r.ensure call).2.encHeight = call.height ∧
      (r.ensure call).1 = (call.frame && call.packet && call.buffer && call.scaler) ∧
      ((r.ensure call).2.Complete call.width call.height ↔ (r.ensure call).1 = true) := by
  simp only [Bool.and_eq_true] at opened
  obtain ⟨⟨found, allocated⟩, opened⟩ := opened
  rw [ensure, if_neg new]
  simp only [found, allocated, opened]
  -- one case for each pattern of the four steps that are left
  cases frame : call.frame <;> cases packet : call.packet <;> cases buffer : call.buffer <;>
    cases scaler : call.scaler <;> simp [Complete]

/-- What the last call has left: no codec, everything for the size that is written down, or
an encoder that has failed late. -/
inductive Left (calls : List EncoderCall) : Prop
  | nothing (empty : (after calls).enc = none)
  | complete (all : (after calls).Complete (after calls).encWidth (after calls).encHeight)
  | broken (earlier : List EncoderCall) (last : EncoderCall) (split : calls = earlier ++ [last])
    (late : last.BreaksLate (after earlier))

theorem after_concat (calls : List EncoderCall) (call : EncoderCall) :
    after (calls ++ [call]) = ((after calls).ensure call).2 :=
  run_concat _ _ calls call

/-- What a call leaves that breaks late. -/
theorem after_of_breaksLate {earlier : List EncoderCall} {last : EncoderCall}
    (late : last.BreaksLate (after earlier)) :
    (after (earlier ++ [last])).enc.isSome ∧
      (after (earlier ++ [last])).encWidth = last.width ∧
      (after (earlier ++ [last])).encHeight = last.height ∧
      ¬ (after (earlier ++ [last])).Complete last.width last.height := by
  obtain ⟨new, opened, failed⟩ := late
  obtain ⟨there, width, height, returned, complete⟩ := ensure_of_opened new opened
  rw [after_concat]
  refine ⟨there, width, height, ?_⟩
  rw [complete, returned, failed]
  simp

/-- A call that finds what it needs keeps it. -/
theorem left_of_fits {calls : List EncoderCall} {call : EncoderCall}
    (fits : (after calls).Fits call) (honest : Honest calls call) : Left (calls ++ [call]) := by
  have kept := ensure_of_fits fits
  have all := honest (by rw [kept])
  apply Left.complete
  rw [after_concat, kept]
  rw [kept] at all
  rw [fits.2.1, fits.2.2]
  exact all

theorem left_of_new {calls : List EncoderCall} {call : EncoderCall}
    (new : ¬ (after calls).Fits call) :
    Left (calls ++ [call]) := by
  cases opened : call.found && call.allocated && call.opened with
  | false =>
    apply Left.nothing
    rw [after_concat]
    exact (ensure_of_early new opened).2
  | true =>
    obtain ⟨-, width, height, returned, complete⟩ := ensure_of_opened new opened
    cases rest : call.frame && call.packet && call.buffer && call.scaler with
    | false => exact .broken calls call rfl ⟨new, opened, rest⟩
    | true =>
      apply Left.complete
      rw [after_concat, width, height, complete, returned, rest]

/-- Along honest calls an encoder that is not complete has just failed. -/
theorem left_of_honest (calls : List EncoderCall) (honest : EveryStep Honest calls) :
    Left calls := by
  -- by induction on the run: honest calls are only needed where the encoder is kept
  apply guarded_induction Left (.nothing rfl) ?_ calls honest
  intro before call _ honestCall
  by_cases fits : (after before).Fits call
  · exact left_of_fits fits honestCall
  · exact left_of_new fits

/-- A call reports success on a half-built encoder exactly if it follows a late failure. -/
theorem honest_iff {calls : List EncoderCall} (left : Left calls) (call : EncoderCall) :
    Honest calls call ↔ Undisturbed calls call := by
  constructor
  · rintro honest earlier last rfl late ⟨width, height⟩
    -- the sizes are right, so nothing is looked at any more
    obtain ⟨there, width', height', broken⟩ := after_of_breaksLate late
    have fits : (after (earlier ++ [last])).Fits call :=
      ⟨there, width'.trans width, height'.trans height⟩
    have kept := ensure_of_fits fits
    have all := honest (by rw [kept])
    rw [kept, ← width, ← height] at all
    exact broken all
  · intro undisturbed success
    by_cases fits : (after calls).Fits call
    · have kept := ensure_of_fits fits
      obtain ⟨there, width, height⟩ := fits
      rw [kept]
      cases left with
      | nothing empty =>
        rw [empty] at there
        contradiction
      | complete all =>
        rw [← width, ← height]
        exact all
      | broken earlier last split late =>
        subst split
        obtain ⟨-, width', height', -⟩ := after_of_breaksLate late
        exact absurd ⟨width'.symm.trans width, height'.symm.trans height⟩
          (undisturbed earlier last rfl late)
    · cases opened : call.found && call.allocated && call.opened with
      | false =>
        rw [(ensure_of_early fits opened).1] at success
        contradiction
      | true =>
        obtain ⟨-, -, -, -, complete⟩ := ensure_of_opened fits opened
        exact complete.mpr success

/-! ### Runs -/

/-- Every call of a run that reports success leaves a complete encoder if and only if no call
follows directly, with the same size, one that has failed after the codec was open. -/
theorem complete_iff (calls : List EncoderCall) :
    EveryStep Honest calls ↔ EveryStep Undisturbed calls := by
  induction calls using history_induction with
  | base => exact ⟨fun _ => .nil, fun _ => .nil⟩
  | step before call ih =>
    rw [everyStep_concat, everyStep_concat, ← ih]
    exact and_congr_right fun honest => honest_iff (left_of_honest before honest) call

/-- A call whose frame cannot be allocated. -/
def noFrame : EncoderCall where
  width := 640
  height := 480
  bitrateKbps := 6000
  found := true
  allocated := true
  opened := true
  frame := false
  packet := true
  buffer := true
  scaler := true

/-- The call is made again, and there is memory now: it reports success without a frame. -/
theorem half_built : ¬ EveryStep Honest [noFrame, { noFrame with frame := true }] := by
  intro honest
  obtain ⟨-, frame, -⟩ := honest [noFrame] { noFrame with frame := true } [] rfl rfl
  exact absurd frame (by decide)

end EncoderParts

end Tether.Plugin
