import Tether.Plugin.AudioOutput
import Tether.Plugin.AudioStream

/-!
# From a captured source to the planes of a source

The sender puts the planes that it captures next to each other, cuts them into blocks of 20 ms
and has each of them encoded. A source decodes the packets and takes the samples apart again.
The codec stands in between: what it makes of a channel is what becomes of it. The encoder is
taken not to fail: a block that it refuses is not pushed.

## Main definitions

* `Opus` — the codec, which remembers what it has been given
* `Opus.Documented`, `Opus.Keeps` — what its functions return, and what it does to a channel
* `messages` — what is pushed on the track, one message for each block
* `plane` — what a call brings for one channel

## Main results

* `captureAll_lossless` — with short calls every sample is encoded or still waiting
* `messages_of_sends` — one message is pushed for each block
* `capture_reaches_planes` — what is captured on a channel gets into its plane, as the codec
  keeps it
-/

namespace Tether.EndToEnd

open Text Semantics Plugin AudioEffect

variable {α : Type*}

/-! ### The codec -/

/-- `encode` is what the encoder writes for the last of the blocks it has been given, `decode`
what the decoder answers to the last of its packets. -/
structure Opus (α : Type*) where
  encode : List (List α) → Bytes
  decode : List Bytes → OpusPcm α

namespace Opus

variable (opus : Opus α)

/-- The packets of some blocks. -/
def packets (blocks : List (List α)) : List Bytes :=
  (List.range blocks.length).map fun k => opus.encode (blocks.take (k + 1))

@[simp] theorem length_packets (blocks : List (List α)) :
    (opus.packets blocks).length = blocks.length := by
  simp [packets]

theorem take_packets (blocks : List (List α)) {k : ℕ} (inside : k ≤ blocks.length) :
    (opus.packets blocks).take k = opus.packets (blocks.take k) := by
  rw [packets, packets, ← List.map_take, List.take_range, List.length_take]
  refine List.map_congr_left fun i member => ?_
  have less : i < min k blocks.length := List.mem_range.mp member
  rw [List.take_take, Nat.min_eq_left (by omega)]

/-- A packet is decoded to as many frames as its block has. -/
def Documented (shape : AudioShape) : Prop :=
  ∀ blocks, blocks ≠ [] → (∀ block ∈ blocks, block.length = shape.needed) →
    (opus.decode (opus.packets blocks)).Whole shape.frameSamples shape.channels

/-- What is decoded of a channel is in this relation to what was encoded of it. -/
def Keeps (shape : AudioShape) (R : List α → List α → Prop) : Prop :=
  ∀ blocks : List (List α), (∀ block ∈ blocks, block.length = shape.needed) →
    ∀ c < shape.channels,
      R (channel shape.channels c blocks.flatten) (channel shape.channels c
        (AudioReceiver.decoded opus.decode shape.needed (opus.packets blocks)))

end Opus

/-! ### What is pushed -/

/-- The messages of a log: what is pushed is what the encoder has written last. -/
def messages (encode : List (List α) → Bytes) :
    List (List α) → List (AudioEffect α) → List (ℤ × Bytes)
  | _, [] => []
  | done, .encode block :: rest => messages encode (done ++ [block]) rest
  | done, .push trackId _ :: rest => (trackId, encode done) :: messages encode done rest
  | done, .shift _ _ :: rest => messages encode done rest
  | done, .store _ :: rest => messages encode done rest

/-- A log in which every block is pushed, once and right after it has been encoded. -/
inductive Sends (trackId : ℤ) : List (AudioEffect α) → Prop
  | nil : Sends trackId []
  | shift (amount fill : ℕ) {log : List (AudioEffect α)} :
    Sends trackId log → Sends trackId (.shift amount fill :: log)
  | store (index : ℕ) {log : List (AudioEffect α)} :
    Sends trackId log → Sends trackId (.store index :: log)
  | block (block : List α) (size : ℕ) {log : List (AudioEffect α)} :
    Sends trackId log → Sends trackId (.encode block :: .push trackId size :: log)

variable {trackId : ℤ}

theorem Sends.append {first second : List (AudioEffect α)} (sends : Sends trackId first)
    (more : Sends trackId second) : Sends trackId (first ++ second) := by
  induction sends with
  | nil => exact more
  | shift amount fill _ ih => exact .shift amount fill ih
  | store index _ ih => exact .store index ih
  | block block size _ ih => exact .block block size ih

/-- One message is pushed for each block, with what the encoder has written for it. -/
theorem messages_of_sends {log : List (AudioEffect α)} (sends : Sends trackId log)
    (encode : List (List α) → Bytes) (done : List (List α)) :
    messages encode done log = (List.range (blocks log).length).map
      fun k => (trackId, encode (done ++ (blocks log).take (k + 1))) := by
  induction sends generalizing done with
  | nil => rfl
  | shift amount fill _ ih => exact ih done
  | store index _ ih => exact ih done
  | @block block size log _ ih =>
    have head : blocks (.encode block :: .push trackId size :: log) = block :: blocks log := rfl
    rw [head, List.length_cons, List.range_succ_eq_map, List.map_cons, List.map_map, messages,
      messages, ih]
    simp [Function.comp_def]

section Track

open SenderTrack

variable [Zero α] {t : SenderTrack α}

omit [Zero α] in
theorem sends_encodeAndSend {n : ℤ} (works : 0 < n) {next : SenderTrack α}
    {log : List (AudioEffect α)} (taken : t.encodeAndSend n = some (next, log)) :
    Sends t.trackId log ∧ next.trackId = t.trackId := by
  rw [encodeAndSend] at taken
  by_cases less : t.bufFill < t.shape.needed
  · rw [if_pos less] at taken
    obtain ⟨rfl, rfl⟩ := Prod.mk.inj (Option.some.inj taken)
    exact ⟨.nil, rfl⟩
  · rw [if_neg less] at taken
    obtain ⟨buf, -, same⟩ := Option.map_eq_some_iff.mp taken
    obtain ⟨rfl, rfl⟩ := Prod.mk.inj same
    rw [if_pos works]
    exact ⟨.block _ _ (.shift _ _ .nil), rfl⟩

omit [Zero α] in
/-- The loop pushes what it encodes, if the encoder does not fail. -/
theorem sends_drain {opus : ℕ → ℤ} (works : ∀ i, 0 < opus i) {rounds i : ℕ} {last : SenderTrack α}
    {log : List (AudioEffect α)} (drained : drain opus rounds i t = some (last, log)) :
    Sends t.trackId log ∧ last.trackId = t.trackId := by
  induction rounds generalizing t i log with
  | zero => simp [drain] at drained
  | succ rounds ih =>
    rw [drain] at drained
    split_ifs at drained with some_
    · obtain ⟨⟨next, sent⟩, taken, rest⟩ := Option.bind_eq_some_iff.mp drained
      have block := sends_encodeAndSend (works i) taken
      dsimp only at rest
      split_ifs at rest with nothing
      · obtain ⟨rfl, rfl⟩ := Prod.mk.inj (Option.some.inj rest)
        exact block
      · obtain ⟨⟨last', more⟩, rounds, same⟩ := Option.map_eq_some_iff.mp rest
        obtain ⟨rfl, rfl⟩ := Prod.mk.inj same
        obtain ⟨sends, kept⟩ := ih rounds
        rw [block.2] at sends kept
        exact ⟨block.1.append sends, kept⟩
    · obtain ⟨rfl, rfl⟩ := Prod.mk.inj (Option.some.inj drained)
      exact ⟨.nil, rfl⟩

/-- Samples that are stored, or moved, are not pushed. -/
theorem sends_onAudioCapture {call : Capture α} (works : ∀ i, 0 < call.opus i)
    {last : SenderTrack α} {log : List (AudioEffect α)}
    (returned : t.onAudioCapture call = some (last, log)) :
    Sends t.trackId log ∧ last.trackId = t.trackId := by
  rw [onAudioCapture] at returned
  cases heard : call.audible with
  | none =>
    rw [heard] at returned
    obtain ⟨rfl, rfl⟩ := Prod.mk.inj (Option.some.inj returned)
    exact ⟨.nil, rfl⟩
  | some data =>
    rw [heard] at returned
    obtain ⟨⟨roomy, moved⟩, room, rest⟩ := Option.bind_eq_some_iff.mp returned
    obtain ⟨⟨full, stored⟩, written, rest⟩ := Option.bind_eq_some_iff.mp rest
    obtain ⟨⟨last', sent⟩, drained, same⟩ := Option.map_eq_some_iff.mp rest
    obtain ⟨rfl, rfl⟩ := Prod.mk.inj same
    have moves : Sends t.trackId moved ∧ roomy.trackId = t.trackId := by
      rw [makeRoom] at room
      split_ifs at room
      · obtain ⟨buf, -, same⟩ := Option.map_eq_some_iff.mp room
        obtain ⟨rfl, rfl⟩ := Prod.mk.inj same
        exact ⟨.shift _ _ .nil, rfl⟩
      · obtain ⟨rfl, rfl⟩ := Prod.mk.inj (Option.some.inj room)
        exact ⟨.nil, rfl⟩
    have stores : Sends t.trackId stored ∧ full.trackId = t.trackId := by
      rw [interleave] at written
      obtain ⟨buf, -, same⟩ := Option.map_eq_some_iff.mp written
      obtain ⟨rfl, rfl⟩ := Prod.mk.inj same
      refine ⟨?_, moves.2⟩
      induction data.positions roomy.shape.channels with
      | nil => exact .nil
      | cons position rest ih => exact .store _ ih
    obtain ⟨sends, kept⟩ := sends_drain works drained
    rw [stores.2] at sends kept
    exact ⟨(moves.1.append stores.1).append sends, kept⟩

theorem sends_captureAll {calls : List (Capture α)} (works : ∀ call ∈ calls, ∀ i, 0 < call.opus i)
    {last : SenderTrack α} {log : List (AudioEffect α)}
    (ran : t.captureAll calls = some (last, log)) :
    Sends t.trackId log ∧ last.trackId = t.trackId := by
  induction calls generalizing t log with
  | nil =>
    obtain ⟨rfl, rfl⟩ := Prod.mk.inj (Option.some.inj ran)
    exact ⟨.nil, rfl⟩
  | cons call rest ih =>
    obtain ⟨here, others⟩ := List.forall_mem_cons.mp works
    obtain ⟨⟨next, sent⟩, returned, later⟩ := Option.bind_eq_some_iff.mp ran
    obtain ⟨⟨last', more⟩, behind, same⟩ := Option.map_eq_some_iff.mp later
    obtain ⟨rfl, rfl⟩ := Prod.mk.inj same
    obtain ⟨first, kept⟩ := sends_onAudioCapture here returned
    obtain ⟨second, still⟩ := ih others behind
    rw [kept] at second still
    exact ⟨first.append second, still⟩

/-! ### What is encoded -/

/-- A call brings so little that it fits behind less than a block. -/
def Short (shape : AudioShape) (call : Capture α) : Prop :=
  ∀ data ∈ call.audible, data.frames.toNat * shape.channels + shape.needed ≤ shape.capacity

/-- With short calls nothing is lost: every sample is encoded or still waiting. -/
theorem captureAll_lossless (sound : t.Sound) (less : t.bufFill < t.shape.needed)
    {calls : List (Capture α)} (short : ∀ call ∈ calls, Short t.shape call) :
    ∃ last log, t.captureAll calls = some (last, log) ∧ last.bufFill < t.shape.needed ∧
      last.content.length = last.bufFill ∧
      (blocks log).flatten ++ last.content = t.content ++ streamOf t.shape calls ∧
      ∀ block ∈ blocks log, block.length = t.shape.needed := by
  induction calls generalizing t with
  | nil =>
    exact ⟨t, [], rfl, less, sound.length_content, by simp [streamOf], by simp⟩
  | cons call rest ih =>
    obtain ⟨here, others⟩ := List.forall_mem_cons.mp short
    have fits : call.Fits t.shape := fun data heard => by
      have := here data heard
      omega
    obtain ⟨next, log, returned, captured⟩ := onAudioCapture_eq sound fits
    have room : t.bufFill + (call.incoming t.shape.channels).length ≤ t.bufCapacity := by
      rw [Capture.incoming, sound.capacity]
      cases heard : call.audible with
      | none =>
        have filled := sound.filled
        rw [sound.capacity] at filled
        simpa using filled
      | some data =>
        have := here data heard
        rw [Option.elim_some, AudioData.length_interleaved]
        omega
    have kept := captured.kept
    rw [Nat.sub_eq_zero_of_le room, List.drop_zero] at kept
    have lessNext := captured.less (by omega) less
    rw [← captured.shape] at others lessNext
    obtain ⟨last, more, ran, ended, length, stream, whole⟩ := ih captured.sound lessNext others
    rw [captured.shape] at ended stream whole
    refine ⟨last, log ++ more, ?_, ended, length, ?_, ?_⟩
    · simp only [captureAll, returned, ran, Option.bind_some, Option.map_some]
    · rw [blocks_append, List.flatten_append, List.append_assoc, stream, ← List.append_assoc, kept,
        List.append_assoc]
      rfl
    · intro block member
      rw [blocks_append] at member
      rcases List.mem_append.mp member with mem | mem
      · exact captured.whole block mem
      · exact whole block mem

end Track

/-! ### Channels of what is captured -/

section Planes

variable [Zero α]

/-- What a call brings for one channel. -/
def plane (call : Capture α) (c : ℕ) : List α :=
  call.audible.elim [] fun data => (List.range data.frames.toNat).map fun f => data.sample (f, c)

theorem channel_incoming {channels c : ℕ} (one : c < channels) (call : Capture α) :
    channel channels c (call.incoming channels) = plane call c := by
  rw [Capture.incoming, plane]
  cases call.audible with
  | none => exact channel_nil
  | some data =>
    have frames := channel_interleaved one data.frames.toNat fun f c => data.sample (f, c)
    rw [Option.elim_some, Option.elim_some, ← frames, AudioData.interleaved, AudioData.positions,
      List.map_flatMap]
    simp only [List.map_map, Function.comp_def]

theorem channel_streamOf {shape : AudioShape} {c : ℕ} (one : c < shape.channels)
    (calls : List (Capture α)) :
    channel shape.channels c (SenderTrack.streamOf shape calls) =
      calls.flatMap fun call => plane call c := by
  have whole : ∀ stream ∈ calls.map fun call => call.incoming shape.channels,
      shape.channels ∣ stream.length := by
    intro stream member
    obtain ⟨call, -, rfl⟩ := List.mem_map.mp member
    exact call.dvd_length_incoming shape.channels
  rw [SenderTrack.streamOf, channel_flatten one whole, List.flatMap_map]
  exact List.flatMap_congr fun call _ => channel_incoming one call

end Planes

/-! ### From the microphone to the planes -/

/-- The audio of a session, as `create_session` sets it up. -/
def sessionAudio : AudioSenderConfig where
  sampleRate := 48000
  channels := 2
  sampleRate_lt := by decide
  channels_lt := by decide

/-- The packets that the Opus decoder of a source is given. -/
def fedTo (opusCreates : ℕ → ℕ → Bool) (source : TetherSource)
    (deliveries : List PacketArrival) : List Bytes :=
  (opusPackets (source.decodeAll opusCreates deliveries)).filterMap (·.2.data)

theorem sessionAudio_shape : sessionAudio.create.channels = 2 ∧
    sessionAudio.create.frameSamples = 960 ∧ sessionAudio.create.needed = 1920 := by
  decide

section Decoded

variable {opus : Opus α} {blocks : List (List α)}

theorem length_flatten_blocks (whole : ∀ block ∈ blocks, block.length = 1920) :
    blocks.flatten.length = blocks.length * 1920 := by
  rw [List.length_flatten, List.map_congr_left whole, List.map_const', List.sum_replicate_nat]

/-- The decoder has an answer for every packet. -/
theorem whole_answers (documented : opus.Documented sessionAudio.create)
    (whole : ∀ block ∈ blocks, block.length = 1920) {k : ℕ}
    (inside : k < (opus.packets blocks).length) :
    (opus.decode ((opus.packets blocks).take (k + 1))).Whole 960 2 := by
  obtain ⟨channels, samples, needed⟩ := sessionAudio_shape
  rw [opus.length_packets] at inside
  have some_ : blocks.take (k + 1) ≠ [] := by
    rw [ne_eq, List.take_eq_nil_iff]
    rintro (impossible | none)
    · exact Nat.succ_ne_zero k impossible
    · simp [none] at inside
  have answered := documented (blocks.take (k + 1)) some_
    fun block member => by rw [needed]; exact whole block (List.mem_of_mem_take member)
  rwa [samples, channels, ← opus.take_packets blocks inside] at answered

/-- What is decoded is as long as what was encoded. -/
theorem length_decoded (documented : opus.Documented sessionAudio.create)
    (whole : ∀ block ∈ blocks, block.length = 1920) :
    (AudioReceiver.decoded opus.decode 1920 (opus.packets blocks)).length =
      blocks.length * 1920 := by
  have each : ∀ k ∈ List.range (opus.packets blocks).length,
      ((opus.decode ((opus.packets blocks).take (k + 1))).pcm.take 1920).length = 1920 := by
    intro k member
    rw [List.length_take]
    exact Nat.min_eq_left (whole_answers documented whole (List.mem_range.mp member)).2
  rw [AudioReceiver.decoded, List.length_flatten, List.map_map, Function.comp_def,
    List.map_congr_left each, List.map_const', List.sum_replicate_nat, List.length_range,
    opus.length_packets]

/-- A receiver that is given the packets of some blocks fills its planes with the channels of
what the decoder makes of them. -/
theorem playback_packets (documented : opus.Documented sessionAudio.create)
    (whole : ∀ block ∈ blocks, block.length = 1920) {r : AudioReceiver} (stereo : r.channels = 2) :
    ∃ outputs, r.playback opus.decode (opus.packets blocks) = some outputs ∧
      (∀ output ∈ outputs, output.speakers = .stereo ∧ output.format = .float) ∧
      ∀ c < 2, AudioReceiver.planeData c outputs =
        channel 2 c (AudioReceiver.decoded opus.decode 1920 (opus.packets blocks)) := by
  have positive : 0 < 960 := by decide
  have answers : ∀ k < (opus.packets blocks).length,
      (opus.decode ((opus.packets blocks).take (k + 1))).Whole 960 r.channels := by
    intro k inside
    rw [stereo]
    exact whole_answers documented whole inside
  obtain ⟨outputs, handed, -, each, planes⟩ := AudioReceiver.playback_eq positive answers
  rw [stereo] at planes
  refine ⟨outputs, handed, fun output member => ?_, planes⟩
  obtain ⟨answer, rfl⟩ := each output member
  exact ⟨if_neg (by rw [stereo]; decide), rfl⟩

end Decoded

/-- A source whose selection passes what is pushed on the track, all of it and in its order,
puts into the plane of every channel what the planes of the calls bring for that channel, up to
what the codec makes of it, and less than 20 ms of it are still waiting at the sender. It declares
the planes as packed stereo. -/
theorem capture_reaches_planes [Zero α] {encoderCreates : ℕ → ℕ → Bool} {found : Bool}
    {t : SenderTrack α}
    (attached : sessionAudio.create.attach found trackId encoderCreates = some t)
    (opusCreates : ℕ → ℕ → Bool) (creates : opusCreates 48000 2 = true) {calls : List (Capture α)}
    (short : ∀ call ∈ calls, Short sessionAudio.create call)
    (works : ∀ call ∈ calls, ∀ i, 0 < call.opus i) {opus : Opus α}
    (documented : opus.Documented sessionAudio.create) {R : List α → List α → Prop}
    (keeps : opus.Keeps sessionAudio.create R) (videoMid audioMid : Bytes) (decoder : Bool) :
    ∃ last log, t.captureAll calls = some (last, log) ∧
      ∀ deliveries mid,
        (audioPackets deliveries).filter (MediaPacket.passes (selectedMid audioMid)) =
          (messages opus.encode [] log).map (fun message => ⟨some message.2, 0, mid⟩) →
        let source := TetherSource.create videoMid audioMid decoder
        ∃ outputs, source.audio.playback opus.decode (fedTo opusCreates source deliveries) =
            some outputs ∧
          (∀ output ∈ outputs, output.speakers = .stereo ∧ output.format = .float) ∧
          ∀ c < 2,
            let captured := calls.flatMap fun call => plane call c
            let filled := AudioReceiver.planeData c outputs
            filled.length ≤ captured.length ∧ captured.length < filled.length + 960 ∧
              R (captured.take filled.length) filled := by
  obtain ⟨channels, samples, needed⟩ := sessionAudio_shape
  obtain ⟨sound, shape, empty⟩ := SenderTrack.sound_attach attached
  have less : t.bufFill < t.shape.needed := by
    rw [empty, shape, needed]
    decide
  rw [← shape] at short
  obtain ⟨last, log, ran, ended, waiting, stream, whole⟩ := captureAll_lossless sound less short
  have nothing : t.content = [] := by
    rw [SenderTrack.content, empty, List.take_zero]
  rw [shape, needed] at ended whole
  rw [shape, nothing, List.nil_append] at stream
  refine ⟨last, log, ran, fun deliveries mid delivered => ?_⟩
  intro source
  have pushed : (messages opus.encode [] log).map Prod.snd = opus.packets (blocks log) := by
    rw [messages_of_sends (sends_captureAll works ran).1, List.map_map]
    rfl
  have fed : fedTo opusCreates source deliveries = opus.packets (blocks log) := by
    have passed : (audioPackets deliveries).filter (MediaPacket.passes source.audioMid) =
      (messages opus.encode [] log).map fun message => ⟨some message.2, 0, mid⟩ := delivered
    rw [fedTo, TetherSource.opusPackets_decodeAll opusCreates deliveries rfl creates, passed,
      ← pushed, List.map_map, List.filterMap_map]
    exact congrFun List.filterMap_eq_map' _
  obtain ⟨outputs, handed, declared, planes⟩ :=
    playback_packets documented whole (r := source.audio) rfl
  rw [fed]
  refine ⟨outputs, handed, declared, fun c one => ?_⟩
  have brought := planes c one
  have length : (AudioReceiver.planeData c outputs).length = (blocks log).length * 960 := by
    rw [brought, length_channel one, length_decoded documented whole]
    omega
  -- the channel of the stream begins with the channel of what has been encoded
  have total := length_flatten_blocks whole
  have split : (calls.flatMap fun call => plane call c) =
      channel 2 c (blocks log).flatten ++ channel 2 c last.content := by
    have inside : c < sessionAudio.create.channels := by rwa [channels]
    have captured := channel_streamOf inside calls
    rw [channels] at captured
    rw [← captured, ← stream, channel_append one]
    rw [total]
    omega
  have encoded : (channel 2 c (blocks log).flatten).length = (blocks log).length * 960 := by
    rw [length_channel one, total]
    omega
  have kept := keeps (blocks log) (by rwa [needed]) c (by rwa [channels])
  rw [channels, needed, ← brought] at kept
  intro captured filled
  have same : filled.length = (channel 2 c (blocks log).flatten).length := length.trans encoded.symm
  have rest : (channel 2 c last.content).length < 960 := by
    rw [length_channel one, waiting]
    omega
  have count : captured.length = filled.length + (channel 2 c last.content).length := by
    rw [show captured = _ from split, List.length_append, same]
  refine ⟨by omega, by omega, ?_⟩
  rw [show captured = _ from split, List.take_left' same.symm]
  exact kept

/-- A codec for silence, with the packet that stands for it. -/
def quietOpus : Opus Level where
  encode _ := [248, 255, 254]
  decode _ := ⟨960, List.replicate 1920 0⟩

/-- A block of silence, as libobs delivers it. -/
def quietCall : Capture Level where
  muted := false
  data := some { frames := 1024, planes := fun _ => none }
  opus _ := 3

theorem quietOpus_documented : quietOpus.Documented sessionAudio.create := by
  obtain ⟨channels, samples, -⟩ := sessionAudio_shape
  intro blocks _ _
  rw [samples, channels]
  exact ⟨rfl, Nat.le_of_eq List.length_replicate.symm⟩

/-- Silence stays silence. -/
theorem quietOpus_keeps : quietOpus.Keeps sessionAudio.create
    fun x y => y = List.replicate x.length 0 := by
  obtain ⟨channels, -, needed⟩ := sessionAudio_shape
  intro blocks whole c one
  rw [channels] at one ⊢
  rw [needed] at whole ⊢
  refine List.eq_replicate_iff.mpr ⟨?_, fun level member => ?_⟩
  · rw [length_channel one, length_channel one, length_flatten_blocks whole,
      length_decoded quietOpus_documented whole]
  · obtain ⟨pcm, answered, inside⟩ := List.mem_flatten.mp (mem_of_mem_channel member)
    obtain ⟨k, -, rfl⟩ := List.mem_map.mp answered
    exact List.eq_of_mem_replicate (List.mem_of_mem_take inside)

/-- Every message has the text of a packet. -/
theorem mem_messages {encode : List (List α) → Bytes} {done : List (List α)}
    {log : List (AudioEffect α)} {message : ℤ × Bytes}
    (member : message ∈ messages encode done log) :
    ∃ blocks, message.2 = encode blocks := by
  induction log generalizing done with
  | nil => cases member
  | cons effect rest ih =>
    cases effect with
    | push trackId size =>
      obtain rfl | later := List.mem_cons.mp member
      · exact ⟨done, rfl⟩
      · exact ih later
    | shift amount fill => exact ih member
    | store index => exact ih member
    | encode block => exact ih member

/-- Audio packets of some texts, without a mid. -/
def quietDeliveries (log : List (AudioEffect Level)) : List PacketArrival :=
  (messages quietOpus.encode [] log).map fun message => .audio ⟨some message.2, 0, none⟩

/-- Without a selection, all of them pass. -/
theorem quietDeliveries_pass (log : List (AudioEffect Level)) :
    (audioPackets (quietDeliveries log)).filter (MediaPacket.passes (selectedMid [])) =
      (messages quietOpus.encode [] log).map fun message => ⟨some message.2, 0, none⟩ := by
  have present : ∀ message ∈ messages quietOpus.encode [] log,
      (⟨some message.2, 0, none⟩ : MediaPacket).present = true := by
    intro message member
    obtain ⟨blocks, text⟩ := mem_messages member
    rw [text]
    rfl
  have packets : audioPackets (quietDeliveries log) =
      (messages quietOpus.encode [] log).map fun message => ⟨some message.2, 0, none⟩ := by
    rw [audioPackets, quietDeliveries, List.filterMap_map, ← List.filterMap_eq_map']
    refine List.filterMap_congr fun message member => ?_
    exact if_pos (present message member)
  rw [packets, List.filter_eq_self]
  intro packet _
  rfl

/-- Two blocks of silence of 1024 frames each fill the planes with silence. -/
theorem capture_reaches_planes_quiet : ∃ t : SenderTrack Level,
    sessionAudio.create.attach true 2 (fun rate _ => decide (rate ∈ opusRates)) = some t ∧
      ∃ last log, t.captureAll [quietCall, quietCall] = some (last, log) ∧
        let source := TetherSource.create [] [] true
        ∃ outputs, source.audio.playback quietOpus.decode
            (fedTo (fun _ _ => true) source (quietDeliveries log)) = some outputs ∧
          ∀ c < 2, ∃ n, 1088 < n ∧ n ≤ 2048 ∧
            AudioReceiver.planeData c outputs = List.replicate n 0 := by
  obtain ⟨t, attached⟩ : ∃ t : SenderTrack Level, sessionAudio.create.attach true 2
      (fun rate _ => decide (rate ∈ opusRates)) = some t := ⟨_, rfl⟩
  have both {P : Capture Level → Prop} (quiet : P quietCall) :
      ∀ call ∈ [quietCall, quietCall], P call := by simp [quiet]
  have short : Short sessionAudio.create quietCall := by
    intro data heard
    obtain rfl := Option.some.inj heard
    decide
  have works (i : ℕ) : 0 < quietCall.opus i := show (0 : ℤ) < 3 by decide
  obtain ⟨last, log, ran, fills⟩ := capture_reaches_planes attached (fun _ _ => true) rfl (both short)
    (both works) quietOpus_documented quietOpus_keeps [] [] true
  obtain ⟨outputs, handed, -, channels⟩ :=
    fills (quietDeliveries log) none (quietDeliveries_pass log)
  refine ⟨t, attached, last, log, ran, outputs, handed, fun c one => ?_⟩
  obtain ⟨few, many, silent⟩ := channels c one
  have captured : ([quietCall, quietCall].flatMap fun call => plane call c).length = 2048 := by
    simp [plane, quietCall, Capture.audible]
  rw [captured] at few many
  refine ⟨_, by omega, few, silent.trans ?_⟩
  rw [List.length_take, captured, Nat.min_eq_left few]

end Tether.EndToEnd
