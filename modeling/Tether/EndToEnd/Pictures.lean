import Mathlib.Data.List.Forall2
import Tether.Plugin.VideoEncoder
import Tether.Plugin.VideoOutput
import Tether.Semantics.Outputs

/-!
# From the scene to the screen

Frames of a capture are scaled and encoded, the packets cross the connection, and a source that
is set to the capture decodes them and shows the pictures. The encoder is built anew for a frame
of another size, and the decoder may be some pictures behind. If the codec does what it is
documented to do, nothing is lost on the way and nothing changes its place.

## Main definitions

* `VideoLibs`, `VideoLibs.Documented` — the codec, and what it is relied on for
* `InSync` — an encoder and a decoder between two frames
* `Along` — what has come of some frames

## Main results

* `exists_encode` — one frame
* `capture_is_shown` — every frame that could be encoded is decoded, in order, up to those that
  are still in the decoder, and shown if OBS has its pixel format
-/

namespace Tether.EndToEnd

open Text Semantics Plugin

/-- The libraries on both sides, and the decoder's context as it is opened. -/
structure VideoLibs (ε π δ ρ : Type*) where
  encoder : EncoderLibs ε π
  decoder : VideoDecoder δ ρ
  vctx : δ

variable {ε π δ ρ : Type*}

/-- What the codec is relied on for: a context that has just been opened is in step with a
decoder, whatever is still in there, and each picture is made into a packet at once, for which
the decoder gives the pictures it has ready, all but a number of them at most, each of which is
like the one that was encoded. -/
structure VideoLibs.Documented (libs : VideoLibs ε π δ ρ) (lag : ℕ) (R : π → AVFrame ρ → Prop)
    (Sync : CodecContext → ε → δ → ℤ → List π → Prop) : Prop where
  opened : ∀ settings, Sync settings (libs.encoder.opened settings) libs.vctx 0 []
  reopened : ∀ settings enc vctx pts waiting, Sync settings enc vctx pts waiting →
    ∀ settings', Sync settings' (libs.encoder.opened settings') vctx 0 waiting
  frame : ∀ settings enc vctx pts waiting, Sync settings enc vctx pts waiting → ∀ frame,
    let picture := libs.encoder.scale (settings.width, settings.height) frame
    ∃ turns data enc', libs.encoder.codec.put false turns enc (picture, pts) =
        some (⟨.taken, [data], true⟩, enc') ∧ data ≠ [] ∧
      ∀ mid, ∃ turns pictures vctx' done rest,
        libs.decoder.put true turns vctx ⟨some data, 0, mid⟩ =
          some (⟨.taken, pictures, true⟩, vctx') ∧
        waiting ++ [picture] = done ++ rest ∧ List.Forall₂ R done pictures ∧
        rest.length ≤ lag ∧ Sync settings enc' vctx' (pts + 1) rest

/-- An encoder and a decoder between two frames, with the pictures that are on their way. -/
def InSync (Sync : CodecContext → ε → δ → ℤ → List π → Prop) (e : VideoEncoder ε) (vctx : δ)
    (waiting : List π) : Prop :=
  (∃ settings enc pts, Sync settings enc vctx pts waiting) ∧
    ∀ settings, e.parts.enc = some settings →
      ∃ enc, e.context = some enc ∧ Sync settings enc vctx e.parts.framePts waiting

/-- A packet of a track as a source is given it. -/
def ofTrack (mid : Option Bytes) (data : Bytes) : MediaPacket := ⟨some data, 0, mid⟩

/-- The frames for which an encoder could be set up. -/
def encodedFrames (calls : List EncodeCall) : List FrameSnapshot :=
  outputs (fun r (call : EncodeCall) => (EncoderParts.ensure r call.setUp).2)
    (fun r call => if (EncoderParts.ensure r call.setUp).1 then [call.frame] else []) .zero calls

/-- A frame as it is scaled, to its own size. -/
def picture (libs : EncoderLibs ε π) (frame : FrameSnapshot) : π :=
  libs.scale (frame.width.toInt32.toInt, frame.height.toInt32.toInt) frame

variable {libs : VideoLibs ε π δ ρ} {lag : ℕ} {R : π → AVFrame ρ → Prop}
  {Sync : CodecContext → ε → δ → ℤ → List π → Prop} {e : VideoEncoder ε} {vctx : δ}
  {waiting : List π}

/-! ### One frame -/

/-- A set-up keeps encoder and decoder in step. -/
theorem InSync.ensure (documented : libs.Documented lag R Sync)
    (inSync : InSync Sync e vctx waiting) (call : EncodeCall) :
    InSync Sync (e.ensure libs.encoder call).2 vctx waiting := by
  obtain ⟨settings, enc, pts, sync⟩ := inSync.1
  refine ⟨⟨settings, enc, pts, sync⟩, ?_⟩
  by_cases fits : e.parts.Fits call.setUp
  · rw [VideoEncoder.ensure_of_fits fits]
    exact inSync.2
  · intro settings' opened
    rw [VideoEncoder.ensure] at opened ⊢
    dsimp only at opened ⊢
    rw [if_neg fits, opened, EncoderParts.framePts_of_new fits]
    exact ⟨_, rfl, documented.reopened settings enc vctx pts waiting sync settings'⟩

/-- What one frame does: it is skipped, or there is one packet for it, and pictures come out of
the decoder. -/
theorem exists_encode (documented : libs.Documented lag R Sync)
    (inSync : InSync Sync e vctx waiting) {call : EncodeCall}
    (complete : (e.ensure libs.encoder call).1 = true →
      (e.ensure libs.encoder call).2.parts.Complete call.setUp.width call.setUp.height)
    (mid : Option Bytes) :
    ∃ enough outcome last,
      (∀ turns, enough ≤ turns → e.encode libs.encoder turns call = some (outcome, last)) ∧
      last.parts = (e.ensure libs.encoder call).2.parts.timed last.parts.framePts ∧
      ((e.ensure libs.encoder call).1 = false ∧ outcome = none ∧ InSync Sync last vctx waiting ∨
        ∃ data more pictures vctx' done rest, (e.ensure libs.encoder call).1 = true ∧
          outcome = some ⟨.taken, [data], true⟩ ∧ data ≠ [] ∧
          (∀ turns, more ≤ turns → libs.decoder.put true turns vctx (ofTrack mid data) =
            some (⟨.taken, pictures, true⟩, vctx')) ∧
          waiting ++ [picture libs.encoder call.frame] = done ++ rest ∧
          List.Forall₂ R done pictures ∧ rest.length ≤ lag ∧ InSync Sync last vctx' rest) := by
  have kept := inSync.ensure documented call
  rcases ensured : e.ensure libs.encoder call with ⟨_ | _, e'⟩ <;> rw [ensured] at complete kept
  · refine ⟨0, none, e', fun turns _ => ?_, rfl, .inl ⟨rfl, rfl, kept⟩⟩
    rw [VideoEncoder.encode, ensured]
    rfl
  · obtain ⟨⟨settings, there, width, height⟩, encIn, encPkt, sws⟩ := complete rfl
    obtain ⟨enc, context, sync⟩ := kept.2 settings there
    have ready : e'.Ready enc call.size := ⟨context, ⟨_, _, encIn⟩, encPkt, sws⟩
    obtain ⟨turns, data, enc', put, text, decoded⟩ :=
      documented.frame settings enc vctx e'.parts.framePts waiting sync call.frame
    have scaled : libs.encoder.scale (settings.width, settings.height) call.frame =
        picture libs.encoder call.frame := by
      rw [width, height, call.width, call.height]
      rfl
    rw [scaled] at put decoded
    obtain ⟨more, pictures, vctx', done, rest, taken, split, alike, few, sync'⟩ := decoded mid
    refine ⟨turns, some ⟨.taken, [data], true⟩, e'.went enc', fun more le => ?_, rfl, .inr ?_⟩
    · have here : libs.encoder.codec.put false more enc
          (libs.encoder.scale call.size call.frame, e'.parts.framePts) =
            some (⟨.taken, [data], true⟩, enc') := by
        rw [EncodeCall.size, call.width, call.height]
        exact Codec.put_mono le put
      rw [VideoEncoder.encode_of_ready ensured ready, here]
      rfl
    · refine ⟨data, more, pictures, vctx', done, rest, rfl, rfl, text, fun turns le => ?_, split,
        alike, few, ⟨_, _, _, sync'⟩, fun other same => ?_⟩
      · exact Codec.put_mono le taken
      · obtain rfl := Option.some.inj (there.symm.trans same)
        exact ⟨enc', rfl, sync'⟩

/-! ### Many frames -/

/-- What has come of some frames: the packets of the encoder, the pictures of the decoder, and
those that are still on their way. -/
structure Along (libs : VideoLibs ε π δ ρ) (lag : ℕ) (R : π → AVFrame ρ → Prop)
    (Sync : CodecContext → ε → δ → ℤ → List π → Prop) (mid : Option Bytes)
    (calls : List EncodeCall) (outcomes : List (Option (Exchange Bytes))) (e : VideoEncoder ε)
    (exchanges : List (Exchange (AVFrame ρ))) (vctx : δ) (done waiting : List π) : Prop where
  encoded : ∃ enough, ∀ turns, enough ≤ turns →
    VideoEncoder.zero.encodeAll libs.encoder turns calls = some (outcomes, e)
  decoded : ∃ enough, ∀ turns, enough ≤ turns →
    libs.decoder.conversation true turns libs.vctx
      ((VideoEncoder.pushed outcomes).map (ofTrack mid)) = some (exchanges, vctx)
  parts : e.parts =
    (EncoderParts.after (calls.map EncodeCall.setUp)).timed e.parts.framePts
  texts : ∀ data ∈ VideoEncoder.pushed outcomes, data ≠ []
  split : (encodedFrames calls).map (picture libs.encoder) = done ++ waiting
  alike : List.Forall₂ R done (exchanges.flatMap Exchange.outputs)
  few : waiting.length ≤ lag
  inSync : InSync Sync e vctx waiting

theorem pushed_concat (outcomes : List (Option (Exchange Bytes)))
    (outcome : Option (Exchange Bytes)) :
    VideoEncoder.pushed (outcomes ++ [outcome]) =
      VideoEncoder.pushed outcomes ++ (outcome.map Exchange.outputs).getD [] := by
  simp [VideoEncoder.pushed]

theorem encodedFrames_concat (calls : List EncodeCall) (call : EncodeCall) :
    encodedFrames (calls ++ [call]) = encodedFrames calls ++
      if ((EncoderParts.after (calls.map EncodeCall.setUp)).ensure call.setUp).1 then [call.frame]
      else [] := by
  rw [encodedFrames, outputs_concat, EncoderParts.after, run, run, List.foldl_map]
  rfl

theorem Along.nil (documented : libs.Documented lag R Sync) (mid : Option Bytes) :
    Along libs lag R Sync mid [] [] .zero [] libs.vctx [] [] where
  encoded := ⟨0, fun _ _ => rfl⟩
  decoded := ⟨0, fun _ _ => rfl⟩
  parts := rfl
  texts := by simp [VideoEncoder.pushed]
  split := rfl
  alike := .nil
  few := Nat.zero_le lag
  inSync := ⟨⟨⟨0, 0, 0⟩, _, 0, documented.opened _⟩, by rintro settings ⟨⟩⟩

/-- One more frame. -/
theorem Along.step (documented : libs.Documented lag R Sync) {mid : Option Bytes}
    {calls : List EncodeCall} {outcomes : List (Option (Exchange Bytes))}
    {exchanges : List (Exchange (AVFrame ρ))} {done : List π}
    (along : Along libs lag R Sync mid calls outcomes e exchanges vctx done waiting)
    {call : EncodeCall} (honest : Honest (calls.map EncodeCall.setUp) call.setUp) :
    ∃ outcomes' last exchanges' vctx' done' waiting',
      Along libs lag R Sync mid (calls ++ [call]) outcomes' last exchanges' vctx' done'
        waiting' := by
  obtain ⟨success, parts⟩ := VideoEncoder.parts_of_ensure libs.encoder call along.parts
  have complete : (e.ensure libs.encoder call).1 = true →
      (e.ensure libs.encoder call).2.parts.Complete call.setUp.width call.setUp.height := by
    intro ready
    rw [parts, EncoderParts.after_concat]
    exact honest (success.symm.trans ready)
  obtain ⟨enough, outcome, last, encoded, kept, came⟩ :=
    exists_encode documented along.inSync complete mid
  obtain ⟨before, encodedBefore⟩ := along.encoded
  have encodedAll : ∃ enough, ∀ turns, enough ≤ turns →
      VideoEncoder.zero.encodeAll libs.encoder turns (calls ++ [call]) =
        some (outcomes ++ [outcome], last) := by
    refine ⟨max before enough, fun turns le => ?_⟩
    have first := encodedBefore turns (Nat.le_trans (Nat.le_max_left _ _) le)
    rw [VideoEncoder.encodeAll] at first
    rw [VideoEncoder.encodeAll, inTurn_concat, first, Option.bind_some]
    dsimp only
    rw [encoded turns (Nat.le_trans (Nat.le_max_right _ _) le)]
    rfl
  have partsLast : last.parts = (EncoderParts.after ((calls ++ [call]).map
      EncodeCall.setUp)).timed last.parts.framePts := by
    rw [kept, parts, List.map_append]
    rfl
  have frames := encodedFrames_concat calls call
  rw [← success] at frames
  rcases came with ⟨failed, rfl, inSync⟩ | ⟨data, more, pictures, vctx', now, rest, worked, rfl,
    text, put, split, alike, few, inSync⟩
  · have none : VideoEncoder.pushed (outcomes ++ [none]) = VideoEncoder.pushed outcomes := by
      rw [pushed_concat, Option.map_none, Option.getD_none, List.append_nil]
    refine ⟨outcomes ++ [Option.none], last, exchanges, vctx, done, waiting, encodedAll, ?_,
      partsLast, ?_, ?_, along.alike, along.few, inSync⟩
    · rw [none]
      exact along.decoded
    · rw [none]
      exact along.texts
    · rw [frames, failed, if_neg Bool.false_ne_true, List.append_nil]
      exact along.split
  · have one : VideoEncoder.pushed (outcomes ++ [some ⟨.taken, [data], true⟩]) =
        VideoEncoder.pushed outcomes ++ [data] := pushed_concat _ _
    obtain ⟨earlier, decodedBefore⟩ := along.decoded
    refine ⟨_, last, exchanges ++ [⟨.taken, pictures, true⟩], vctx', done ++ now, rest, encodedAll,
      ⟨max earlier more, fun turns le => ?_⟩, partsLast, ?_, ?_, ?_, few, inSync⟩
    · have first := decodedBefore turns (Nat.le_trans (Nat.le_max_left _ _) le)
      rw [Codec.conversation] at first
      rw [one, List.map_append, Codec.conversation, List.map_singleton, inTurn_concat, first,
        Option.bind_some]
      dsimp only
      rw [put turns (Nat.le_trans (Nat.le_max_right _ _) le)]
      rfl
    · rw [one]
      intro other member
      rcases List.mem_append.mp member with earlier | here
      · exact along.texts other earlier
      · rwa [List.mem_singleton.mp here]
    · rw [frames, worked, if_pos rfl, List.map_append, along.split, List.append_assoc,
        List.append_assoc]
      exact congrArg _ split
    · rw [List.flatMap_append]
      exact List.rel_append along.alike (by simpa using alike)

/-- The frames go all the way, one after another. -/
theorem exists_along (documented : libs.Documented lag R Sync) (mid : Option Bytes)
    {calls : List EncodeCall} (honest : EveryStep Honest (calls.map EncodeCall.setUp)) :
    ∃ outcomes e exchanges vctx done waiting,
      Along libs lag R Sync mid calls outcomes e exchanges vctx done waiting := by
  induction calls using history_induction with
  | base => exact ⟨_, _, _, _, _, _, .nil documented mid⟩
  | step before call ih =>
    rw [List.map_append] at honest
    obtain ⟨earlier, last⟩ := everyStep_concat.mp honest
    obtain ⟨_, _, _, _, _, _, along⟩ := ih earlier
    exact along.step documented last

theorem encodedFrames_sublist (calls : List EncodeCall) :
    (encodedFrames calls).Sublist (calls.map EncodeCall.frame) := by
  induction calls using history_induction with
  | base => exact List.Sublist.refl _
  | step before call ih =>
    rw [encodedFrames_concat, List.map_append]
    refine ih.append ?_
    split_ifs
    · exact List.Sublist.refl _
    · exact List.nil_sublist _

theorem decodedFrames_zip {packets : List MediaPacket} {exchanges : List (Exchange (AVFrame ρ))}
    (length : packets.length = exchanges.length) :
    decodedFrames (packets.zip exchanges) = exchanges.flatMap Exchange.outputs := by
  have answers : (packets.zip exchanges).map Prod.snd = exchanges :=
    List.map_snd_zip (Nat.le_of_eq length.symm)
  rw [decodedFrames, ← List.flatMap_map, answers]

/-- Pictures of packets that bring no time of their own. -/
theorem shown_ofTrack (mid : Option Bytes) {packets : List Bytes}
    {exchanges : List (Exchange (AVFrame ρ))} (length : packets.length = exchanges.length) :
    shown ((packets.map (ofTrack mid)).zip exchanges) =
      (exchanges.flatMap Exchange.outputs).filterMap (deliverDecodedFrame 0) := by
  induction packets generalizing exchanges with
  | nil =>
    obtain rfl := List.length_eq_zero_iff.mp length.symm
    rfl
  | cons data rest ih =>
    obtain ⟨exchange, others, rfl⟩ := List.exists_cons_of_length_eq_add_one length.symm
    have same := ih (Nat.succ.inj length)
    rw [shown] at same
    rw [List.map_cons, List.zip_cons_cons, shown, List.flatMap_cons, same, List.flatMap_cons,
      List.filterMap_append]
    rfl

/-- The frames of a capture that are handed on to a session's encoder while the session is there,
in a run of the graphics thread and the encoder thread, and a source that is given the packets of
the capture's track: what it decodes are the frames for which the encoder could be set up, all of
them and in their order, up to those that are still in the decoder. It shows the pictures whose
pixel format OBS has. -/
theorem capture_is_shown (documented : libs.Documented lag R Sync) (count index : ℕ)
    (events : List FrameEvent) (calls : List EncodeCall)
    (handed : calls.map EncodeCall.frame <:+: Mailbox.handed count index events)
    (undisturbed : EveryStep Undisturbed (calls.map EncodeCall.setUp)) (mid : Option Bytes) :
    (encodedFrames calls).Sublist ((framesOf index events).map (StagedFrame.snapshot · index)) ∧
    ∃ enough outcomes last,
      (∀ turns, enough ≤ turns →
        VideoEncoder.zero.encodeAll libs.encoder turns calls = some (outcomes, last)) ∧
      ∀ (source : TetherSource) (deliveries : List PacketArrival), source.vctx = true →
        source.passing deliveries =
          ((VideoEncoder.pushed outcomes).filter (· ≠ [])).map (ofTrack mid) →
        ∃ enough log vctx,
          (∀ turns, enough ≤ turns →
            source.watch libs.decoder turns libs.vctx deliveries = some (log, vctx)) ∧
          ∃ done waiting,
            (encodedFrames calls).map (picture libs.encoder) = done ++ waiting ∧
            waiting.length ≤ lag ∧ List.Forall₂ R done (decodedFrames log) ∧
            shown log = (decodedFrames log).filterMap (deliverDecodedFrame 0) := by
  refine ⟨?_, ?_⟩
  · have some_ := (encodedFrames_sublist calls).trans handed.sublist
    exact some_.trans (Mailbox.handed_sublist_dropLast count index events).1
  obtain ⟨outcomes, last, exchanges, vctx, done, waiting, along⟩ :=
    exists_along documented mid (EncoderParts.honest_of_undisturbed undisturbed)
  obtain ⟨enough, encoded⟩ := along.encoded
  refine ⟨enough, outcomes, last, encoded, fun source deliveries there passed => ?_⟩
  obtain ⟨enough', decoded⟩ := along.decoded
  have texts : (VideoEncoder.pushed outcomes).filter (· ≠ []) = VideoEncoder.pushed outcomes :=
    List.filter_eq_self.mpr fun data member => decide_eq_true (along.texts data member)
  rw [texts] at passed
  have length : exchanges.length = (source.passing deliveries).length := by
    rw [passed]
    exact (Codec.forall_of_conversation (P := fun _ => True) (fun _ _ _ _ _ => trivial)
      (decoded enough' (Nat.le_refl enough'))).1
  have gives := decodedFrames_zip length.symm
  refine ⟨enough', (source.passing deliveries).zip exchanges, vctx, fun turns le => ?_, done,
    waiting, along.split, along.few, ?_, ?_⟩
  · rw [TetherSource.watch_eq there, passed, decoded turns le]
    rfl
  · rw [gives]
    exact along.alike
  · rw [gives, passed]
    rw [passed, List.length_map] at length
    exact shown_ofTrack mid length.symm

/-- A source that is given packets of the track that it is set to. -/
theorem passing_ofTrack {source : TetherSource} {mid : Option Bytes}
    (passes : ∀ data, (ofTrack mid data).passes source.videoMid = true) (packets : List Bytes) :
    source.passing (packets.map fun data => .video (ofTrack mid data)) =
      (packets.filter (· ≠ [])).map (ofTrack mid) := by
  induction packets with
  | nil => rfl
  | cons data rest ih =>
    rw [List.map_cons, TetherSource.passing_video, passes, ih, Bool.and_true]
    by_cases text : data = []
    · subst text
      rfl
    · simp [ofTrack, MediaPacket.present, text]

/-- A codec that puts a byte in front of a picture, and whose decoder is one picture behind. -/
def oneBehind : VideoLibs (Option Bytes) Bytes (Option Bytes × Option Bytes) Bytes where
  encoder :=
    { opened _ := none
      scale _ frame := frame.bytes
      codec :=
        { send := fun _ input => (.taken, some (1 :: input.1))
          receive
            | none => (.empty, none)
            | some data => (.made data, none) } }
  decoder :=
    { send := fun (held, _) packet => (.taken, (packet.data, held))
      receive
        | (held, none) => (.empty, (held, none))
        | (held, some data) =>
          (.made
            { format := .yuv420p
              width := 1
              height := 1
              fullRange := false
              data := fun p => if p = 0 then some data else none
              linesize := fun _ => 1 }, (held, none)) }
  vctx := (none, none)

theorem oneBehind_documented : oneBehind.Documented 1
    (fun picture frame => frame.format = .yuv420p ∧ frame.data 0 = some (1 :: picture))
    (fun _ enc vctx _ waiting => enc = none ∧ vctx.2 = none ∧
      (vctx.1 = none ∧ waiting = [] ∨ ∃ picture, vctx.1 = some (1 :: picture) ∧
        waiting = [picture])) where
  opened _ := ⟨rfl, rfl, .inl ⟨rfl, rfl⟩⟩
  reopened := by
    rintro _ _ _ _ _ ⟨-, sync⟩ _
    exact ⟨rfl, sync⟩
  frame := by
    rintro _ _ ⟨held, ready⟩ _ waiting ⟨rfl, none, sync⟩ frame
    obtain rfl : ready = .none := none
    refine ⟨2, 1 :: frame.bytes, .none, rfl, List.cons_ne_nil _ _, fun mid => ?_⟩
    rcases sync with ⟨first, rfl⟩ | ⟨picture, first, rfl⟩
    · obtain rfl : held = .none := first
      exact ⟨2, [], _, [], [frame.bytes], rfl, rfl, .nil, Nat.le_refl 1, rfl, rfl,
        .inr ⟨_, rfl, rfl⟩⟩
    · obtain rfl : held = some (1 :: picture) := first
      exact ⟨2, _, _, [picture], [frame.bytes], rfl, rfl, .cons ⟨rfl, rfl⟩ .nil, Nat.le_refl 1,
        rfl, rfl, .inr ⟨_, rfl, rfl⟩⟩

/-- A frame of one pixel, and its set-up. -/
def pixelCall (value : UInt8) : EncodeCall :=
  { VideoEncoder.onePixel with
    frame := ⟨0, [value, value, value, value], 1, 1, 4⟩
    width := rfl
    height := rfl }

/-- Of two frames the first one is shown. -/
theorem capture_is_shown_oneBehind :
    ∃ deliveries enough log vctx,
      (∀ turns, enough ≤ turns → (TetherSource.create (bytes "video0") [] true).watch
        oneBehind.decoder turns (none, none) deliveries = some (log, vctx)) ∧
      1 ≤ (shown log).length := by
  obtain ⟨-, enough, outcomes, last, -, shows⟩ := capture_is_shown oneBehind_documented 1 0
    [.capture 0 (Mailbox.pixel 7), .worker, .worker, .capture 0 (Mailbox.pixel 9), .worker]
    [pixelCall 7, pixelCall 9] (List.infix_rfl)
    (EncoderParts.undisturbed_of_whole (by
      intro setUp member
      rcases List.mem_pair.mp member with rfl | rfl <;> rfl)) (some (bytes "video0"))
  obtain ⟨enough, log, vctx, watched, done, waiting, split, few, alike, same⟩ :=
    shows (TetherSource.create (bytes "video0") [] true)
      ((VideoEncoder.pushed outcomes).map fun data => .video (ofTrack (some (bytes "video0")) data))
      rfl (passing_ofTrack (fun _ => rfl) _)
  refine ⟨_, enough, log, vctx, watched, ?_⟩
  have two : done.length + waiting.length = 2 := by
    rw [← List.length_append, ← split]
    rfl
  have delivered : ∀ frame ∈ decodedFrames log, (deliverDecodedFrame 0 frame).isSome := by
    intro frame member
    obtain ⟨i, inside, rfl⟩ := List.mem_iff_getElem.mp member
    have known := (alike.get (by rwa [alike.length_eq]) inside).1
    rw [List.get_eq_getElem] at known
    rw [deliverDecodedFrame]
    simp [known, avToObsVideoFormat]
  rw [same, List.length_filterMap_eq_countP, List.countP_eq_length.mpr delivered,
    ← alike.length_eq]
  omega

end Tether.EndToEnd
