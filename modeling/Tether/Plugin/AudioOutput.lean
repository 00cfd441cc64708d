import Tether.Plugin.Source
import Tether.Semantics.Channels

/-!
# What a source hands to OBS

The Opus decoder of a source answers a packet with frames of samples, next to each other for
each channel. They are taken apart, into one plane for each channel, while the format that is
declared beside the planes is libobs' packed one. What is stated here is what the planes hold,
not what OBS makes of them.

## Main definitions

* `OpusPcm` — what the decoder answers
* `AudioReceiver.output` — what goes to OBS for an answer
* `AudioReceiver.playback` — what goes to OBS for the packets of a track

## Main results

* `output_eq` — the planes are the channels of the answer
* `playback_eq` — and those of all packets together are the channels of the decoded stream
-/

namespace Tether.Plugin

open Text Semantics

variable {α : Type*}

/-- What `opus_decode_float` answers: the number of frames, or an error, and the buffer. -/
structure OpusPcm (α : Type*) where
  frames : ℤ
  pcm : List α

/-- `enum speaker_layout`, as far as it is used. -/
inductive SpeakerLayout
  | mono
  | stereo
  deriving DecidableEq

/-- The two formats of `enum audio_format` for floats: with the channels of a frame next to each
other, or each in a plane of its own. -/
inductive AudioFormat
  | float
  | floatPlanar
  deriving DecidableEq

/-- `struct obs_source_audio`, as it is filled for a packet. -/
structure ObsAudio (α : Type*) where
  data : List (List α)
  frames : ℕ
  speakers : SpeakerLayout
  format : AudioFormat
  samplesPerSec : ℕ

/-- The loop that fills the plane of a channel. It does not end well if it reads behind the
buffer. -/
def fillPlane (channels frames : ℕ) (pcm : List α) (c : ℕ) : Option (List α) :=
  (List.range frames).mapM fun f => pcm[f * channels + c]?

namespace AudioReceiver

variable (r : AudioReceiver)

/-- The second part of `tether_audio_receiver_push_packet`. -/
def output (answer : OpusPcm α) : Option (List (ObsAudio α)) :=
  if answer.frames ≤ 0 then some []
  else
    ((List.range r.channels).mapM (fillPlane r.channels answer.frames.toNat answer.pcm)).map
      fun planes =>
        [{ data := planes
           frames := answer.frames.toNat
           speakers := if r.channels = 1 then .mono else .stereo
           format := .float
           samplesPerSec := r.sampleRate }]

/-- The packets of a track one after another. What the decoder answers depends on what it has
been given before. -/
def playback (decode : List Bytes → OpusPcm α) (fed : List Bytes) : Option (List (ObsAudio α)) :=
  ((List.range fed.length).mapM fun k => r.output (decode (fed.take (k + 1)))).map List.flatten

end AudioReceiver

/-! ### Planes -/

/-- A loop that gets an answer for everything. -/
theorem mapM_eq_filterMap {β : Type*} {xs : List α} {f : α → Option β}
    (answers : ∀ x ∈ xs, (f x).isSome) : xs.mapM f = some (xs.filterMap f) := by
  induction xs with
  | nil => rfl
  | cons x rest ih =>
    obtain ⟨here, others⟩ := List.forall_mem_cons.mp answers
    obtain ⟨y, answered⟩ := Option.isSome_iff_exists.mp here
    rw [List.mapM_cons, ih others, answered, List.filterMap_cons_some answered]
    rfl

/-- A loop whose answers are known. -/
theorem mapM_eq_map {β : Type*} {xs : List α} {f : α → Option β} {g : α → β}
    (answers : ∀ x ∈ xs, f x = some (g x)) : xs.mapM f = some (xs.map g) := by
  rw [mapM_eq_filterMap fun x member => by rw [answers x member]; rfl,
    List.filterMap_congr answers]
  exact congrArg some (congrFun List.filterMap_eq_map' xs)

/-- The plane of a channel is the channel of the frames that have been decoded. -/
theorem fillPlane_eq {channels frames c : ℕ} {pcm : List α} (one : c < channels)
    (enough : frames * channels ≤ pcm.length) :
    fillPlane channels frames pcm c = some (channel channels c (pcm.take (frames * channels))) := by
  have length : (pcm.take (frames * channels)).length = frames * channels := by
    rw [List.length_take, Nat.min_eq_left enough]
  have count : (pcm.take (frames * channels)).length / channels = frames := by
    rw [length, Nat.mul_div_cancel _ (Nat.zero_lt_of_lt one)]
  have inside {f : ℕ} (member : f ∈ List.range frames) : f * channels + c < frames * channels := by
    rw [← length]
    apply sample_lt one
    rw [count]
    exact List.mem_range.mp member
  have filled : fillPlane channels frames pcm c =
      some ((List.range frames).filterMap fun f => pcm[f * channels + c]?) := by
    apply mapM_eq_filterMap
    intro f member
    rw [List.getElem?_eq_getElem (Nat.lt_of_lt_of_le (inside member) enough)]
    rfl
  rw [filled, channel, count]
  congr 1
  apply List.filterMap_congr
  intro f member
  rw [List.getElem?_take_of_lt (inside member)]

/-- A decoder's answer that has all its frames in the buffer. -/
def OpusPcm.Whole (answer : OpusPcm α) (frames channels : ℕ) : Prop :=
  answer.frames = frames ∧ frames * channels ≤ answer.pcm.length

namespace AudioReceiver

variable {r : AudioReceiver}

/-- What goes to OBS for an answer with so many frames. -/
def outputOf (r : AudioReceiver) (frames : ℕ) (answer : OpusPcm α) : ObsAudio α where
  data := (List.range r.channels).map fun c =>
    channel r.channels c (answer.pcm.take (frames * r.channels))
  frames
  speakers := if r.channels = 1 then .mono else .stereo
  format := .float
  samplesPerSec := r.sampleRate

/-- The planes are the channels of the answer. -/
theorem output_eq {answer : OpusPcm α} {frames : ℕ} (some_ : 0 < frames)
    (whole : answer.Whole frames r.channels) :
    r.output answer = some [r.outputOf frames answer] := by
  obtain ⟨told, enough⟩ := whole
  have number : answer.frames.toNat = frames := by rw [told, Int.toNat_natCast]
  rw [output, if_neg (by omega), number,
    mapM_eq_map fun c member => fillPlane_eq (List.mem_range.mp member) enough]
  rfl

/-- The samples that a decoder brings for the packets it is given. -/
def decoded (decode : List Bytes → OpusPcm α) (length : ℕ) (fed : List Bytes) : List α :=
  ((List.range fed.length).map fun k => (decode (fed.take (k + 1))).pcm.take length).flatten

/-- What the plane of a channel holds, one packet after another. -/
def planeData (c : ℕ) (outputs : List (ObsAudio α)) : List α :=
  outputs.flatMap fun output => (output.data[c]?).getD []

/-- If the decoder brings the frames of every packet, the plane of a channel holds that
channel of what it brings. -/
theorem playback_eq {decode : List Bytes → OpusPcm α} {fed : List Bytes} {frames : ℕ}
    (some_ : 0 < frames)
    (whole : ∀ k < fed.length, (decode (fed.take (k + 1))).Whole frames r.channels) :
    ∃ outputs, r.playback decode fed = some outputs ∧ outputs.length = fed.length ∧
      (∀ output ∈ outputs, ∃ answer, output = r.outputOf frames answer) ∧
      ∀ c < r.channels,
        planeData c outputs =
          channel r.channels c (decoded decode (frames * r.channels) fed) := by
  refine ⟨(List.range fed.length).map fun k => r.outputOf frames (decode (fed.take (k + 1))),
    ?_, ?_, ?_, ?_⟩
  · rw [playback, mapM_eq_map fun k member => output_eq some_ (whole k (List.mem_range.mp member)),
      Option.map_some, ← List.flatMap_def, ← List.map_eq_flatMap]
  · rw [List.length_map, List.length_range]
  · intro output member
    obtain ⟨k, -, rfl⟩ := List.mem_map.mp member
    exact ⟨_, rfl⟩
  · intro c one
    have lengths : ∀ stream ∈ (List.range fed.length).map fun k =>
        (decode (fed.take (k + 1))).pcm.take (frames * r.channels),
        r.channels ∣ stream.length := by
      intro stream member
      obtain ⟨k, inside, rfl⟩ := List.mem_map.mp member
      rw [List.length_take, Nat.min_eq_left (whole k (List.mem_range.mp inside)).2]
      exact Nat.dvd_mul_left _ _
    rw [decoded, channel_flatten one lengths, planeData, List.flatMap_map, List.flatMap_map]
    refine List.flatMap_congr fun k _ => ?_
    simp [outputOf, one]

end AudioReceiver

end Tether.Plugin
