import Tether.Plugin.Source
import Tether.Semantics.Codecs

/-!
# What a source shows

The H.264 decoder of a source takes a packet and gives pictures when it has some. Each picture
goes to OBS with its planes, as long as OBS knows its pixel format. The decoder works in its own
time, and it may have to be emptied before it takes another packet.

## Main definitions

* `AVFrame`, `ObsSourceFrame` — a picture of the decoder, and one for OBS
* `deliverDecodedFrame`, `decodePacket` — the second part of `on_session_video`
* `TetherSource.watch` — a source with its decoder, over all packets of a session
* `decodedFrames`, `shown` — what the decoder gives, and what of it goes to OBS

## Main results

* `watch_eq` — the decoder is talked to about the packets that pass, and no others
* `loses_only_behind_errors` — every packet that passes is taken by the decoder, or refused as
  bad, or it comes directly behind an error
-/

namespace Tether.Plugin

open Text Semantics

/-! ### Pictures -/

/-- `enum AVPixelFormat`, with the formats that are told apart. -/
inductive AVPixelFormat
  | yuv420p
  | yuvj420p
  | nv12
  | yuv422p
  | yuv444p
  | other (number : ℤ)
  deriving DecidableEq

/-- `enum video_format`, as far as it is used. -/
inductive VideoFormat
  | none
  | i420
  | nv12
  | i422
  | i444
  deriving DecidableEq

/-- `av_to_obs_video_format` -/
def avToObsVideoFormat : AVPixelFormat → VideoFormat
  | .yuv420p => .i420
  | .yuvj420p => .i420
  | .nv12 => .nv12
  | .yuv422p => .i422
  | .yuv444p => .i444
  | .other _ => .none

/-- `AVFrame`, with planes of any kind. -/
structure AVFrame (π : Type*) where
  format : AVPixelFormat
  width : ℤ
  height : ℤ
  /-- `color_range` is `AVCOL_RANGE_JPEG`. -/
  fullRange : Bool
  data : ℕ → Option π
  linesize : ℕ → ℤ

/-- `struct obs_source_frame`; without a timestamp of its own it is given the time of its
delivery. -/
structure ObsSourceFrame (π : Type*) where
  format : VideoFormat
  width : UInt32
  height : UInt32
  timestamp : Option UInt64
  fullRange : Bool
  planes : List (π × UInt32)

variable {π δ : Type*}

/-- The planes from one on, up to the first that is missing. -/
def AVFrame.planesFrom (frame : AVFrame π) : ℕ → ℕ → List (π × UInt32)
  | 0, _ => []
  | left + 1, p =>
    match frame.data p with
    | none => []
    | some plane => (plane, UInt32.ofInt (frame.linesize p)) :: planesFrom frame left (p + 1)

/-- `MAX_AV_PLANES` -/
def maxAvPlanes : ℕ := 8

/-- `deliver_decoded_frame`, and what goes to OBS. -/
def deliverDecodedFrame (pts : ℤ) (frame : AVFrame π) : Option (ObsSourceFrame π) :=
  let obsFmt := avToObsVideoFormat frame.format
  if obsFmt = .none then none
  else
    some
      { format := obsFmt
        width := UInt32.ofInt frame.width
        height := UInt32.ofInt frame.height
        timestamp := if 0 < pts then some (UInt64.ofInt pts) else none
        fullRange := frame.fullRange
        planes := frame.planesFrom maxAvPlanes 0 }

/-! ### The decoder -/

/-- libavcodec's decoder of H.264. -/
abbrev VideoDecoder (δ π : Type*) := Codec δ MediaPacket (AVFrame π)

section Decoder

variable (decoder : VideoDecoder δ π) (turns : ℕ)

/-- The part of `on_session_video` that talks to the decoder. -/
def decodePacket (vctx : δ) (packet : MediaPacket) : Option (Exchange (AVFrame π) × δ) :=
  match decoder.send vctx packet with
  | (.failed, vctx) => some (⟨.failed, [], false⟩, vctx)
  -- the packet is not sent again if the decoder was busy
  | (answer, vctx) =>
    (decoder.drain turns vctx).map fun drained =>
      (⟨answer, drained.outputs, drained.emptied⟩, drained.state)

/-- What the decoder has done for each of the packets that a session delivers. -/
def TetherSource.watch (s : TetherSource) :
    δ → List PacketArrival → Option (List (MediaPacket × Exchange (AVFrame π)) × δ)
  | vctx, [] => some ([], vctx)
  | vctx, .audio _ :: rest => watch s vctx rest
  | vctx, .video packet :: rest =>
    match s.onSessionVideo packet with
    | [] => watch s vctx rest
    | _ =>
      (decodePacket decoder turns vctx packet).bind fun (exchange, vctx) =>
        (watch s vctx rest).map fun (log, vctx) => ((packet, exchange) :: log, vctx)

end Decoder

/-- What the decoder gives. -/
def decodedFrames (log : List (MediaPacket × Exchange (AVFrame π))) : List (AVFrame π) :=
  log.flatMap (·.2.outputs)

/-- What goes to OBS. -/
def shown (log : List (MediaPacket × Exchange (AVFrame π))) : List (ObsSourceFrame π) :=
  log.flatMap fun (packet, exchange) =>
    exchange.outputs.filterMap (deliverDecodedFrame packet.pts)

variable {decoder : VideoDecoder δ π} {turns : ℕ}

/-- The decoder is emptied after every packet, also after one that it was too busy for. -/
theorem decodePacket_eq (vctx : δ) (packet : MediaPacket) :
    decodePacket decoder turns vctx packet = decoder.put true turns vctx packet := by
  rw [decodePacket, Codec.put]
  rcases decoder.send vctx packet with ⟨_ | _ | _, _⟩ <;> rfl

/-- The packets of a session that a source decodes. -/
def TetherSource.passing (s : TetherSource) (deliveries : List PacketArrival) :
    List MediaPacket :=
  (videoPackets deliveries).filter (MediaPacket.passes s.videoMid)

theorem TetherSource.passing_audio (s : TetherSource) (packet : MediaPacket)
    (rest : List PacketArrival) : s.passing (.audio packet :: rest) = s.passing rest := rfl

theorem TetherSource.passing_video (s : TetherSource) (packet : MediaPacket)
    (rest : List PacketArrival) :
    s.passing (.video packet :: rest) =
      if packet.present && packet.passes s.videoMid then packet :: s.passing rest
      else s.passing rest := by
  cases present : packet.present <;> cases passes : packet.passes s.videoMid <;>
    simp [passing, videoPackets, present, passes]

/-- The decoder is talked to about the packets that pass the selection, one after another. -/
theorem TetherSource.watch_eq {s : TetherSource} (there : s.vctx = true) (vctx : δ)
    (deliveries : List PacketArrival) :
    s.watch decoder turns vctx deliveries =
      (decoder.conversation true turns vctx (s.passing deliveries)).map fun (exchanges, vctx) =>
        ((s.passing deliveries).zip exchanges, vctx) := by
  induction deliveries generalizing vctx with
  | nil => rfl
  | cons delivery rest ih =>
    cases delivery with
    | audio packet =>
      rw [passing_audio, watch]
      exact ih vctx
    | video packet =>
      rw [passing_video, watch, onSessionVideo]
      cases present : packet.present
      · exact ih vctx
      cases passes : packet.passes s.videoMid
      · exact ih vctx
      simp only [there, Bool.not_true, Bool.false_eq_true, if_false, Bool.and_self, if_true,
        decodePacket_eq, ih, Codec.conversation, inTurn]
      rcases decoder.put true turns vctx packet with _ | ⟨exchange, next⟩
      · rfl
      rcases went : inTurn (decoder.put true turns) next (s.passing rest) with
        _ | ⟨exchanges, last⟩
      · simp [went]
      · simp [went]

/-! ### Packets that are lost -/

/-- Every packet that passes is taken by the decoder, unless it is refused as bad, or the decoder
met an error with the packet before it. -/
theorem TetherSource.loses_only_behind_errors {pending : δ → ℕ} (lawful : decoder.Lawful pending)
    {vctx : δ} (fresh : decoder.Ready vctx) {s : TetherSource} (there : s.vctx = true)
    (deliveries : List PacketArrival) :
    ∃ enough log last,
      (∀ turns, enough ≤ turns → s.watch decoder turns vctx deliveries = some (log, last)) ∧
      log.map Prod.fst = s.passing deliveries ∧
      (∀ before entry after, log = before ++ entry :: after → entry.2.answer = .busy →
        ∃ earlier previous, before = earlier ++ [previous] ∧ previous.2.emptied = false) ∧
      ((∀ entry ∈ log, entry.2.emptied = true) → ∀ entry ∈ log, entry.2.answer = .taken) := by
  obtain ⟨enough, ⟨exchanges, last⟩, went⟩ :=
    lawful.exists_conversation true vctx (s.passing deliveries)
  have here := went enough (Nat.le_refl enough)
  have behind : Codec.BusyBehind True exchanges := lawful.busy_behind (fun _ => fresh) here
  obtain ⟨length, failed⟩ := Codec.forall_of_conversation
    (fun _ _ _ _ put => Codec.put_failed put) here
  have seconds : ((s.passing deliveries).zip exchanges).map Prod.snd = exchanges :=
    List.map_snd_zip (Nat.le_of_eq length)
  have lost : ∀ before entry after, (s.passing deliveries).zip exchanges =
      before ++ entry :: after → entry.2.answer = .busy →
        ∃ earlier previous, before = earlier ++ [previous] ∧ previous.2.emptied = false := by
    intro before entry after split busy
    have inside := seconds
    rw [split, List.map_append, List.map_cons] at inside
    rw [← inside] at behind
    rcases behind.of_split busy with ⟨-, impossible⟩ | ⟨earlier, previous, shorter, left⟩
    · exact absurd trivial impossible
    · rcases List.eq_nil_or_concat before with rfl | ⟨first, final, rfl⟩
      · simp at shorter
      · rw [List.concat_eq_append, List.map_append] at shorter
        obtain ⟨-, same⟩ := List.append_inj' shorter rfl
        refine ⟨first, final, List.concat_eq_append, ?_⟩
        rw [← (List.cons.inj same).1] at left
        exact left
  refine ⟨enough, (s.passing deliveries).zip exchanges, last, fun turns le => ?_, ?_, lost, ?_⟩
  · rw [watch_eq there, went turns le, Option.map_some]
  · exact List.map_fst_zip (Nat.le_of_eq length.symm)
  · intro clean entry member
    cases answer : entry.2.answer with
    | taken => rfl
    | busy =>
      obtain ⟨before, after, split⟩ := List.append_of_mem member
      obtain ⟨earlier, previous, rfl, left⟩ := lost before entry after split answer
      have emptied := clean previous (by rw [split]; simp)
      rw [left] at emptied
      cases emptied
    | failed =>
      have left := failed entry.2 (List.of_mem_zip member).2 answer
      rw [clean entry member] at left
      cases left

/-- A decoder that is busy while it has a picture to give. -/
def oneSlot : VideoDecoder (Option MediaPacket) MediaPacket where
  send
    | none, packet => (.taken, some packet)
    | some held, _ => (.busy, some held)
  receive
    | none => (.empty, none)
    | some packet =>
      (.made
        { format := .yuv420p
          width := 2
          height := 2
          fullRange := false
          data := fun p => if p < 3 then some packet else none
          linesize := fun _ => 2 }, none)

/-- It takes two packets. -/
theorem TetherSource.loses_only_behind_errors_oneSlot : ∃ enough log last,
    (∀ turns, enough ≤ turns → (TetherSource.create (bytes "cam") [] true).watch oneSlot turns none
      [.video ⟨some [1], 0, some (bytes "cam")⟩, .video ⟨some [2], 0, some (bytes "mic")⟩,
        .video ⟨some [3], 0, none⟩] = some (log, last)) ∧
      log.map Prod.fst = [⟨some [1], 0, some (bytes "cam")⟩, ⟨some [3], 0, none⟩] := by
  have lawful : oneSlot.Lawful fun held => if held.isSome then 1 else 0 := by
    constructor
    · rintro (_ | held) output s' given <;> simp only [oneSlot, Prod.mk.injEq] at given
      · cases given.1
      · rw [← given.2]
        exact Nat.zero_lt_one
    · rintro (_ | held) s' given input <;> simp only [oneSlot, Prod.mk.injEq] at given
      · rw [← given.2]
        simp [oneSlot]
      · cases given.1
  obtain ⟨enough, log, last, watched, passed, -⟩ := loses_only_behind_errors lawful
    (fun _ => by simp [oneSlot] : oneSlot.Ready none)
    (rfl : (TetherSource.create (bytes "cam") [] true).vctx = true)
    [.video ⟨some [1], 0, some (bytes "cam")⟩, .video ⟨some [2], 0, some (bytes "mic")⟩,
      .video ⟨some [3], 0, none⟩]
  exact ⟨enough, log, last, watched, passed.trans (by decide)⟩

end Tether.Plugin
