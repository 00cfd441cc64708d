import Mathlib.Data.Int.Notation
import Tether.Semantics.Cells

/-!
# The audio buffer of a track

What OBS captures is interleaved into a buffer of 200 ms, and blocks of 20 ms are
encoded from its head. Before a block of samples is added, the oldest ones make room
for it. How many have to go is computed from what is there and from what comes, and
nothing keeps it from being more than what is there.

## Main definitions

* `SenderTrack.onAudioCapture` — one call of the capture callback, with the accesses
  that it makes
* `SenderTrack.Bounded` — a run of calls that stays inside the buffer
* `Capture.Fits` — the samples of a call fit into an empty buffer

## Main results

* `onAudioCapture_eq` — what a call does if its samples fit
* `onAudioCapture_eq_none` — a call whose samples do not fit leaves the buffer
* `bounded_iff` — a run stays inside the buffer if and only if the samples of each call fit
-/

namespace Tether.Plugin

open Semantics

/-! ### Tracks -/

/-- What the tracks take from `tether_audio_sender_config_t`; the numbers are of type `int`. -/
structure AudioSenderConfig where
  sampleRate : ℤ
  channels : ℤ
  sampleRate_lt : sampleRate < 2147483648
  channels_lt : channels < 2147483648

/-- Rate and channels of a sender. -/
@[ext]
structure AudioShape where
  sampleRate : ℕ
  channels : ℕ
  sampleRate_lt : sampleRate < 2147483648
  channels_lt : channels < 2147483648
  channels_pos : 0 < channels

/-- `tether_audio_sender_create`: what is not set has its default. -/
def AudioSenderConfig.create (cfg : AudioSenderConfig) : AudioShape where
  sampleRate := if cfg.sampleRate ≤ 0 then 48000 else cfg.sampleRate.toNat
  channels := if cfg.channels ≤ 0 then 2 else cfg.channels.toNat
  sampleRate_lt := by
    have := cfg.sampleRate_lt
    split_ifs <;> omega
  channels_lt := by
    have := cfg.channels_lt
    split_ifs <;> omega
  channels_pos := by split_ifs <;> omega

namespace AudioShape

variable (shape : AudioShape)

/-- The samples of one channel in a block of `OPUS_FRAME_SIZE_MS`. -/
def frameSamples : ℕ := sizeMul shape.sampleRate 20 / 1000

/-- The samples of a block. -/
def needed : ℕ := sizeMul shape.frameSamples shape.channels

/-- Up to 200 ms. -/
def capacity : ℕ := sizeMul (sizeMul shape.sampleRate 200 / 1000) shape.channels

theorem frameSamples_eq : shape.frameSamples = shape.sampleRate * 20 / 1000 := by
  have rate := shape.sampleRate_lt
  rw [frameSamples, sizeMul_of_lt (by rw [sizeMod]; omega)]

/-- Products of what is less than a number of samples with the channels do not wrap around. -/
theorem mul_channels_lt {n : ℕ} (small : n ≤ 4294967296) :
    n * shape.channels < 9223372036854775808 := by
  have channels := shape.channels_lt
  calc n * shape.channels ≤ 4294967296 * 2147483647 := Nat.mul_le_mul small (by omega)
    _ < 9223372036854775808 := by omega

theorem sizeMul_channels {n : ℕ} (small : n ≤ 4294967296) :
    sizeMul n shape.channels = n * shape.channels := by
  have product := shape.mul_channels_lt small
  exact sizeMul_of_lt (by rw [sizeMod]; omega)

theorem needed_eq : shape.needed = shape.sampleRate * 20 / 1000 * shape.channels := by
  have rate := shape.sampleRate_lt
  rw [needed, frameSamples_eq, sizeMul_channels _ (by omega)]

theorem capacity_eq : shape.capacity = shape.sampleRate * 200 / 1000 * shape.channels := by
  have rate := shape.sampleRate_lt
  have product : sizeMul shape.sampleRate 200 = shape.sampleRate * 200 :=
    sizeMul_of_lt (by rw [sizeMod]; omega)
  rw [capacity, product, sizeMul_channels _ (by omega)]

theorem capacity_lt : shape.capacity < 1152921504606846976 := by
  have rate := shape.sampleRate_lt
  have channels := shape.channels_lt
  rw [capacity_eq]
  calc shape.sampleRate * 200 / 1000 * shape.channels ≤ 429496730 * 2147483647 :=
        Nat.mul_le_mul (by omega) (by omega)
    _ < 1152921504606846976 := by omega

theorem channels_dvd_needed : shape.channels ∣ shape.needed := by
  rw [needed_eq]
  exact Nat.dvd_mul_left _ _

theorem channels_dvd_capacity : shape.channels ∣ shape.capacity := by
  rw [capacity_eq]
  exact Nat.dvd_mul_left _ _

end AudioShape

/-- `struct sender_track`, with the buffer as it is allocated. -/
structure SenderTrack (α : Type*) where
  trackId : ℤ
  shape : AudioShape
  buf : List α
  bufCapacity : ℕ
  bufFill : ℕ

variable {α : Type*}

/-- What a call does, access by access. -/
inductive AudioEffect (α : Type*)
  /-- A `memmove` that drops samples from the head. -/
  | shift (amount fill : ℕ)
  | store (index : ℕ)
  /-- `opus_encode_float` -/
  | encode (block : List α)
  /-- `tether_webrtc_push_audio` -/
  | push (trackId : ℤ) (size : ℕ)

namespace AudioEffect

/-- The access stays inside a buffer, and nothing is taken from less than it. -/
def InBounds (capacity : ℕ) : AudioEffect α → Prop
  | .shift amount fill => amount ≤ fill
  | .store index => index < capacity
  | .encode _ | .push _ _ => True

/-- The block that is encoded. -/
def block? : AudioEffect α → Option (List α)
  | .encode block => some block
  | _ => none

/-- The blocks that are encoded, in their order. -/
def blocks (log : List (AudioEffect α)) : List (List α) := log.filterMap block?

@[simp] theorem blocks_nil : blocks ([] : List (AudioEffect α)) = [] := rfl

@[simp] theorem blocks_append (first second : List (AudioEffect α)) :
    blocks (first ++ second) = blocks first ++ blocks second :=
  List.filterMap_append

end AudioEffect

/-- `struct audio_data`: the planes of the channels, which may be missing. -/
structure AudioData (α : Type*) where
  frames : UInt32
  planes : ℕ → Option (ℕ → α)

/-- A call of the callback, and what the encoder will return during it. -/
structure Capture (α : Type*) where
  muted : Bool
  data : Option (AudioData α)
  opus : ℕ → ℤ

namespace Capture

variable (call : Capture α)

/-- What the callback does not ignore. -/
def audible : Option (AudioData α) := if call.muted then none else call.data

/-- The samples of the call fit into an empty buffer. -/
def Fits (shape : AudioShape) : Prop :=
  ∀ data ∈ call.audible, data.frames.toNat * shape.channels ≤ shape.capacity

end Capture

/-- `tether_audio_sender_attach`, for a source that is found or not, the track that is added
for it, and an encoder that is created or not. -/
def AudioShape.attach [Zero α] (shape : AudioShape) (found : Bool) (trackId : ℤ)
    (opusCreates : ℕ → ℕ → Bool) : Option (SenderTrack α) :=
  if !found then none
  else if trackId < 0 then none
  else if !opusCreates shape.sampleRate shape.channels then none
  else
    some
      { trackId
        shape
        buf := List.replicate shape.capacity 0
        bufCapacity := shape.capacity
        bufFill := 0 }

namespace AudioData

variable [Zero α] (data : AudioData α)

/-- A sample that is written, `0` where there is no plane. -/
def sample (position : ℕ × ℕ) : α := (data.planes position.2).elim 0 (· position.1)

/-- Frames and channels in the order of the loops. -/
def positions (channels : ℕ) : List (ℕ × ℕ) :=
  (List.range data.frames.toNat).flatMap fun f => (List.range channels).map fun c => (f, c)

/-- The planes as one stream. -/
def interleaved (channels : ℕ) : List α := (data.positions channels).map data.sample

omit [Zero α] in
variable {data} in
theorem mem_positions {channels : ℕ} {position : ℕ × ℕ} :
    position ∈ data.positions channels ↔
      position.1 < data.frames.toNat ∧ position.2 < channels := by
  obtain ⟨f, c⟩ := position
  simp [positions]

omit [Zero α] in
/-- The positions of some frames are consecutive in the stream. -/
theorem map_positions (frames channels : ℕ) :
    (((List.range frames).flatMap fun f => (List.range channels).map fun c => (f, c)).map
      fun position => position.1 * channels + position.2) = List.range (frames * channels) := by
  induction frames with
  | zero => simp
  | succ frames ih =>
    rw [List.range_succ, List.flatMap_append, List.map_append, ih, Nat.succ_mul, List.range_add]
    simp [Function.comp_def]

omit [Zero α] in
theorem length_positions (channels : ℕ) :
    (data.positions channels).length = data.frames.toNat * channels := by
  have numbered := congrArg List.length (map_positions data.frames.toNat channels)
  rw [List.length_map, List.length_range] at numbered
  exact numbered

theorem length_interleaved (channels : ℕ) :
    (data.interleaved channels).length = data.frames.toNat * channels := by
  rw [interleaved, List.length_map, length_positions]

end AudioData

/-- The samples that a call brings. -/
def Capture.incoming [Zero α] (call : Capture α) (channels : ℕ) : List α :=
  call.audible.elim [] fun data => data.interleaved channels

namespace SenderTrack

/-! ### The callback -/

variable (t : SenderTrack α)

/-- The samples that are waiting. -/
def content : List α := t.buf.take t.bufFill

/-- What is done before samples are added that do not fit behind the others. -/
def makeRoom (add : ℕ) : Option (SenderTrack α × List (AudioEffect α)) :=
  if t.bufCapacity < sizeAdd t.bufFill add then
    let drop := sizeSub (sizeAdd t.bufFill add) t.bufCapacity
    -- more to drop than there is: the length of the move wraps around
    (Cells.moveDown 4 t.buf drop (sizeMul (sizeSub t.bufFill drop) 4)).map fun buf =>
      ({ t with buf, bufFill := sizeSub t.bufFill drop }, [.shift drop t.bufFill])
  else some (t, [])

/-- Where a sample is written. -/
def slot (position : ℕ × ℕ) : ℕ :=
  t.bufFill + sizeAdd (sizeMul position.1 t.shape.channels) position.2

/-- The loops that interleave the channels. -/
def interleave [Zero α] (data : AudioData α) : Option (SenderTrack α × List (AudioEffect α)) :=
  let positions := data.positions t.shape.channels
  let add := sizeMul data.frames.toNat t.shape.channels
  (positions.foldlM (fun buf p => Cells.store buf (t.slot p) (data.sample p)) t.buf).map fun buf =>
    ({ t with buf, bufFill := sizeAdd t.bufFill add }, positions.map fun p => .store (t.slot p))

/-- `encode_and_send`, for what the encoder returns. -/
def encodeAndSend (n : ℤ) : Option (SenderTrack α × List (AudioEffect α)) :=
  let needed := t.shape.needed
  if t.bufFill < needed then some (t, [])
  else
    -- a block that the encoder refuses is not pushed, and its samples are gone all the same
    let sent := if 0 < n then [.push t.trackId n.toNat] else []
    (Cells.moveDown 4 t.buf needed (sizeMul (sizeSub t.bufFill needed) 4)).map fun buf =>
      ({ t with buf, bufFill := sizeSub t.bufFill needed },
        .encode (t.buf.take needed) :: sent ++ [.shift needed t.bufFill])

/-- The loop that encodes, for a number of rounds that is given up. -/
def drain (opus : ℕ → ℤ) : ℕ → ℕ → SenderTrack α → Option (SenderTrack α × List (AudioEffect α))
  | 0, _, _ => none
  | rounds + 1, i, t =>
    if 1 ≤ sizeMul t.bufFill 4 then
      (t.encodeAndSend (opus i)).bind fun (next, log) =>
        -- nothing was taken: the `break`
        if next.bufFill = t.bufFill then some (next, log)
        else (drain opus rounds (i + 1) next).map fun (last, more) => (last, log ++ more)
    else some (t, [])

/-- `on_audio_capture`, with as many rounds of encoding as there are samples, and one. -/
def onAudioCapture [Zero α] (call : Capture α) : Option (SenderTrack α × List (AudioEffect α)) :=
  match call.audible with
  | none => some (t, [])
  | some data =>
    (t.makeRoom (sizeMul data.frames.toNat t.shape.channels)).bind fun (roomy, moved) =>
      (roomy.interleave data).bind fun (full, stored) =>
        (drain call.opus (full.bufFill + 1) 0 full).map fun (last, sent) =>
          (last, moved ++ stored ++ sent)

/-! ### Inside the buffer -/

/-- The samples in use lie inside the buffer, frame by frame. -/
structure Sound : Prop where
  allocated : t.buf.length = t.bufCapacity
  capacity : t.bufCapacity = t.shape.capacity
  filled : t.bufFill ≤ t.bufCapacity
  whole : t.shape.channels ∣ t.bufFill

/-- Without its oldest samples. -/
def dropped (n : ℕ) : SenderTrack α :=
  { t with
    buf := (t.buf.drop n).take (t.bufFill - n) ++ t.buf.drop (t.bufFill - n)
    bufFill := t.bufFill - n }

/-- With new samples behind the others. -/
def filled (xs : List α) : SenderTrack α :=
  { t with
    buf := t.buf.take t.bufFill ++ xs ++ t.buf.drop (t.bufFill + xs.length)
    bufFill := t.bufFill + xs.length }

variable {t}

theorem Sound.small (sound : t.Sound) : t.bufCapacity < 1152921504606846976 := by
  rw [sound.capacity]
  exact t.shape.capacity_lt

theorem Sound.length_content (sound : t.Sound) : t.content.length = t.bufFill := by
  have filled := sound.filled
  rw [content, List.length_take, sound.allocated]
  omega

theorem Sound.dropped (sound : t.Sound) {n : ℕ} (le : n ≤ t.bufFill)
    (whole : t.shape.channels ∣ n) : (t.dropped n).Sound := by
  have filled := sound.filled
  have allocated := sound.allocated
  constructor
  · simp only [SenderTrack.dropped, List.length_append, List.length_take, List.length_drop]
    omega
  · exact sound.capacity
  · exact Nat.le_trans (Nat.sub_le _ _) filled
  · exact Nat.dvd_sub sound.whole whole

theorem Sound.content_dropped (sound : t.Sound) {n : ℕ} (le : n ≤ t.bufFill) :
    (t.dropped n).content = t.content.drop n := by
  have filled := sound.filled
  have allocated := sound.allocated
  have moved : ((t.buf.drop n).take (t.bufFill - n)).length = t.bufFill - n := by
    rw [List.length_take, List.length_drop]
    omega
  simp only [content, SenderTrack.dropped]
  rw [List.take_left' moved, List.drop_take]

theorem Sound.filled' (sound : t.Sound) (xs : List α)
    (fits : t.bufFill + xs.length ≤ t.bufCapacity) (whole : t.shape.channels ∣ xs.length) :
    (t.filled xs).Sound := by
  have allocated := sound.allocated
  constructor
  · simp only [SenderTrack.filled, List.length_append, List.length_take, List.length_drop]
    omega
  · exact sound.capacity
  · exact fits
  · exact Nat.dvd_add sound.whole whole

theorem Sound.content_filled (sound : t.Sound) (xs : List α) :
    (t.filled xs).content = t.content ++ xs := by
  have filled := sound.filled
  have length : (t.buf.take t.bufFill ++ xs).length = t.bufFill + xs.length := by
    rw [List.length_append, List.length_take, sound.allocated]
    omega
  simp only [content, SenderTrack.filled]
  rw [List.take_left' length]

/-! ### Steps in bounds -/

/-- The buffer makes room for samples that would fit into it if it were empty. -/
theorem makeRoom_eq (sound : t.Sound) {add : ℕ} (fits : add ≤ t.bufCapacity) :
    ∃ log, t.makeRoom add = some (t.dropped (t.bufFill + add - t.bufCapacity), log) ∧
      ∀ effect ∈ log, ∃ amount, effect = .shift amount t.bufFill ∧ amount ≤ t.bufFill := by
  have small := sound.small
  have filled := sound.filled
  have total : sizeAdd t.bufFill add = t.bufFill + add := sizeAdd_of_lt (by rw [sizeMod]; omega)
  rw [makeRoom, total]
  by_cases full : t.bufCapacity < t.bufFill + add
  · have drop : sizeSub (t.bufFill + add) t.bufCapacity = t.bufFill + add - t.bufCapacity :=
      sizeSub_of_le (by omega) (by rw [sizeMod]; omega)
    have rest : sizeSub t.bufFill (t.bufFill + add - t.bufCapacity) =
        t.bufFill - (t.bufFill + add - t.bufCapacity) :=
      sizeSub_of_le (by omega) (by rw [sizeMod]; omega)
    have bytes : sizeMul (t.bufFill - (t.bufFill + add - t.bufCapacity)) 4 =
        (t.bufFill - (t.bufFill + add - t.bufCapacity)) * 4 :=
      sizeMul_of_lt (by rw [sizeMod]; omega)
    simp only [full, ↓reduceIte, drop, rest, bytes]
    rw [Cells.moveDown_eq (by omega) (by rw [sound.allocated]; omega)]
    refine ⟨[.shift _ t.bufFill], rfl, fun effect member => ?_⟩
    exact ⟨_, List.mem_singleton.mp member, by omega⟩
  · have none : t.bufFill + add - t.bufCapacity = 0 := by omega
    refine ⟨[], ?_, by simp⟩
    simp [full, none, dropped]

/-- The slot of a position that the loops visit. -/
theorem slot_eq {data : AudioData α} {position : ℕ × ℕ}
    (member : position ∈ data.positions t.shape.channels) :
    t.slot position = t.bufFill + (position.1 * t.shape.channels + position.2) := by
  obtain ⟨frame, channel⟩ := AudioData.mem_positions.mp member
  have frames := data.frames.toNat_lt
  have channels := t.shape.channels_lt
  have product := t.shape.mul_channels_lt (n := position.1) (by omega)
  rw [slot, t.shape.sizeMul_channels (by omega), sizeAdd_of_lt (by rw [sizeMod]; omega)]

/-- The loops write one sample behind the other. -/
theorem map_slot (data : AudioData α) :
    (data.positions t.shape.channels).map t.slot =
      List.range' t.bufFill (data.frames.toNat * t.shape.channels) := by
  have slots : (data.positions t.shape.channels).map t.slot =
      ((data.positions t.shape.channels).map fun p => p.1 * t.shape.channels + p.2).map
        fun index => t.bufFill + index := by
    rw [List.map_map]
    exact List.map_congr_left fun _ member => slot_eq member
  rw [slots, AudioData.positions, AudioData.map_positions, List.range_eq_range',
    List.map_add_range', Nat.add_zero]

theorem interleave_eq [Zero α] (sound : t.Sound) (data : AudioData α)
    (fits : t.bufFill + data.frames.toNat * t.shape.channels ≤ t.bufCapacity) :
    ∃ log, t.interleave data = some (t.filled (data.interleaved t.shape.channels), log) ∧
      ∀ effect ∈ log, ∃ index, effect = .store index ∧ index < t.bufCapacity := by
  have small := sound.small
  have frames := data.frames.toNat_lt
  have add : sizeMul data.frames.toNat t.shape.channels =
      data.frames.toNat * t.shape.channels := t.shape.sizeMul_channels (by omega)
  have length := data.length_interleaved t.shape.channels
  have consecutive : (data.positions t.shape.channels).map t.slot =
      List.range' t.bufFill (data.positions t.shape.channels).length := by
    rw [data.length_positions, map_slot]
  have written := Cells.foldlM_store t.buf t.slot data.sample consecutive
  rw [← AudioData.interleaved,
    Cells.storeAll_eq (by rw [length, sound.allocated]; exact fits)] at written
  simp only [interleave, written, Option.map_some, add]
  rw [sizeAdd_of_lt (by rw [sizeMod]; omega)]
  refine ⟨_, by rw [filled, length], fun effect member => ?_⟩
  obtain ⟨position, visited, rfl⟩ := List.mem_map.mp member
  have inside := List.mem_map_of_mem (f := t.slot) visited
  rw [map_slot, List.mem_range'_1] at inside
  exact ⟨_, rfl, by omega⟩

/-- `encode_and_send` takes a block if there is one. -/
theorem encodeAndSend_eq (sound : t.Sound) (enough : t.shape.needed ≤ t.bufFill) (n : ℤ) :
    t.encodeAndSend n =
      some (t.dropped t.shape.needed,
        .encode (t.content.take t.shape.needed) ::
          (if 0 < n then [.push t.trackId n.toNat] else []) ++
            [.shift t.shape.needed t.bufFill]) := by
  have small := sound.small
  have filled := sound.filled
  have rest : sizeSub t.bufFill t.shape.needed = t.bufFill - t.shape.needed :=
    sizeSub_of_le enough (by rw [sizeMod]; omega)
  have bytes : sizeMul (t.bufFill - t.shape.needed) 4 = (t.bufFill - t.shape.needed) * 4 :=
    sizeMul_of_lt (by rw [sizeMod]; omega)
  have block : t.content.take t.shape.needed = t.buf.take t.shape.needed := by
    rw [content, List.take_take, Nat.min_eq_left enough]
  simp only [encodeAndSend, Nat.not_lt.mpr enough, ↓reduceIte, rest, bytes]
  rw [Cells.moveDown_eq (by omega) (by rw [sound.allocated]; omega), block]
  rfl

theorem encodeAndSend_of_lt (less : t.bufFill < t.shape.needed) (n : ℤ) :
    t.encodeAndSend n = some (t, []) := by
  rw [encodeAndSend, if_pos less]

open AudioEffect

/-- What a part of a call leaves of the samples that are waiting: whole blocks have been
encoded from their head. -/
structure Encoded (t last : SenderTrack α) (log : List (AudioEffect α)) : Prop where
  sound : last.Sound
  shape : last.shape = t.shape
  inBounds : ∀ effect ∈ log, effect.InBounds t.bufCapacity
  kept : (blocks log).flatten ++ last.content = t.content
  whole : ∀ block ∈ blocks log, block.length = t.shape.needed

/-- One block is taken. -/
theorem encoded_block (sound : t.Sound) (enough : t.shape.needed ≤ t.bufFill) (n : ℤ) :
    Encoded t (t.dropped t.shape.needed)
      (.encode (t.content.take t.shape.needed) ::
        (if 0 < n then [.push t.trackId n.toNat] else []) ++
          [.shift t.shape.needed t.bufFill]) := by
  have pushed : blocks (if 0 < n then [.push t.trackId n.toNat] else [] : List (AudioEffect α)) =
      [] := by
    split_ifs <;> rfl
  have encoded : blocks (.encode (t.content.take t.shape.needed) ::
      (if 0 < n then [.push t.trackId n.toNat] else []) ++ [.shift t.shape.needed t.bufFill]) =
      [t.content.take t.shape.needed] := by
    rw [List.cons_append, ← List.singleton_append, blocks_append, blocks_append, pushed]
    rfl
  constructor
  · exact sound.dropped enough t.shape.channels_dvd_needed
  · rfl
  · intro effect member
    simp only [List.cons_append, List.mem_cons, List.mem_append, List.not_mem_nil, or_false]
      at member
    rcases member with rfl | pushes | rfl
    · trivial
    · split_ifs at pushes
      · rw [List.mem_singleton.mp pushes]
        trivial
      · exact absurd pushes List.not_mem_nil
    · exact enough
  · rw [encoded, sound.content_dropped enough, List.flatten_singleton, List.take_append_drop]
  · intro block member
    rw [encoded, List.mem_singleton] at member
    rw [member, List.length_take, sound.length_content, Nat.min_eq_left enough]

theorem Encoded.refl (sound : t.Sound) : Encoded t t [] where
  sound := sound
  shape := rfl
  inBounds := by simp
  kept := rfl
  whole := by simp

theorem Encoded.trans {next last : SenderTrack α} {log more : List (AudioEffect α)}
    (sound : t.Sound) (first : Encoded t next log) (second : Encoded next last more) :
    Encoded t last (log ++ more) where
  sound := second.sound
  shape := second.shape.trans first.shape
  inBounds := by
    have capacity : next.bufCapacity = t.bufCapacity := by
      rw [first.sound.capacity, sound.capacity, first.shape]
    intro effect member
    rcases List.mem_append.mp member with here | there
    · exact first.inBounds effect here
    · exact capacity ▸ second.inBounds effect there
  kept := by
    rw [blocks_append, List.flatten_append, List.append_assoc, second.kept, first.kept]
  whole := by
    intro block member
    rw [blocks_append] at member
    rcases List.mem_append.mp member with here | there
    · exact first.whole block here
    · rw [second.whole block there, first.shape]

/-- More rounds than there are samples are enough for the loop to end, and it ends with
less than a block. -/
theorem drain_eq (opus : ℕ → ℤ) {rounds : ℕ} (i : ℕ) (sound : t.Sound) (many : t.bufFill < rounds) :
    ∃ last log, drain opus rounds i t = some (last, log) ∧ Encoded t last log ∧
      (0 < t.shape.needed → last.bufFill < t.shape.needed) := by
  -- a round that is not the last one takes at least one sample
  induction rounds generalizing t i with
  | zero => exact absurd many (Nat.not_lt_zero _)
  | succ rounds ih =>
    have small := sound.small
    have filled := sound.filled
    have bytes : sizeMul t.bufFill 4 = t.bufFill * 4 := sizeMul_of_lt (by rw [sizeMod]; omega)
    rw [drain, bytes]
    by_cases empty : t.bufFill = 0
    · refine ⟨t, [], by rw [if_neg (by omega)], .refl sound, fun positive => by omega⟩
    rw [if_pos (by omega)]
    by_cases less : t.bufFill < t.shape.needed
    · -- the round that changes nothing is the last one
      rw [encodeAndSend_of_lt less]
      exact ⟨t, [], if_pos rfl, .refl sound, fun _ => less⟩
    have enough : t.shape.needed ≤ t.bufFill := by omega
    have block := encoded_block sound enough (opus i)
    have fewer : (t.dropped t.shape.needed).bufFill = t.bufFill - t.shape.needed := rfl
    rw [encodeAndSend_eq sound enough]
    by_cases vacuous : t.shape.needed = 0
    · exact ⟨_, _, if_pos (by omega), block, fun positive => by omega⟩
    simp only [Option.bind_some]
    rw [if_neg (by omega)]
    obtain ⟨last, more, drained, rest, end_⟩ := ih (i + 1) block.sound (by omega)
    rw [drained]
    exact ⟨last, _, rfl, block.trans sound rest, end_⟩

/-! ### Calls -/

/-- What a call leaves, if it brings some samples: the oldest ones have made room for them,
and whole blocks have been encoded. -/
structure Captured (t : SenderTrack α) (incoming : List α) (last : SenderTrack α)
    (log : List (AudioEffect α)) : Prop where
  sound : last.Sound
  shape : last.shape = t.shape
  inBounds : ∀ effect ∈ log, effect.InBounds t.bufCapacity
  kept : (blocks log).flatten ++ last.content =
    t.content.drop (t.bufFill + incoming.length - t.bufCapacity) ++ incoming
  whole : ∀ block ∈ blocks log, block.length = t.shape.needed
  less : 0 < t.shape.needed → t.bufFill < t.shape.needed → last.bufFill < t.shape.needed

theorem Captured.capacity {incoming : List α} {last : SenderTrack α} {log : List (AudioEffect α)}
    (sound : t.Sound) (captured : Captured t incoming last log) :
    last.bufCapacity = t.bufCapacity := by
  rw [captured.sound.capacity, sound.capacity, captured.shape]

/-- A call whose samples fit. -/
theorem onAudioCapture_eq [Zero α] (sound : t.Sound) {call : Capture α} (fits : call.Fits t.shape) :
    ∃ last log, t.onAudioCapture call = some (last, log) ∧
      Captured t (call.incoming t.shape.channels) last log := by
  rw [onAudioCapture, Capture.incoming]
  cases heard : call.audible with
  | none =>
    refine ⟨t, [], rfl, sound, rfl, by simp, ?_, by simp, fun _ less => less⟩
    have filled := sound.filled
    simp [Nat.sub_eq_zero_of_le filled]
  | some data =>
    have room := fits data heard
    have filled := sound.filled
    have frames := data.frames.toNat_lt
    have length := data.length_interleaved t.shape.channels
    rw [← sound.capacity] at room
    simp only [t.shape.sizeMul_channels (n := data.frames.toNat) (by omega), Option.elim_some]
    -- the oldest samples make room, the new ones come behind the others, blocks are encoded
    obtain ⟨moved, roomy, shifts⟩ := makeRoom_eq sound room
    generalize surplus : t.bufFill + data.frames.toNat * t.shape.channels - t.bufCapacity = drop
      at roomy
    have divides : t.shape.channels ∣ drop := by
      rw [← surplus]
      apply Nat.dvd_sub (Nat.dvd_add sound.whole (Nat.dvd_mul_left _ _))
      rw [sound.capacity]
      exact t.shape.channels_dvd_capacity
    have reduced := sound.dropped (n := drop) (by omega) divides
    have fill : (t.dropped drop).bufFill = t.bufFill - drop := rfl
    have capacity : (t.dropped drop).bufCapacity = t.bufCapacity := rfl
    have channels : (t.dropped drop).shape.channels = t.shape.channels := rfl
    obtain ⟨stored, written, stores⟩ := interleave_eq reduced data
      (by rw [fill, capacity, channels]; omega)
    rw [channels] at written
    have full := reduced.filled' (data.interleaved t.shape.channels)
      (by rw [length, fill, capacity]; omega) (by rw [length]; exact Nat.dvd_mul_left _ _)
    obtain ⟨last, sent, drained, encoded, less⟩ :=
      drain_eq call.opus 0 full (Nat.lt_succ_self _)
    have quiet : blocks (moved ++ stored ++ sent) = blocks sent := by
      have nothing {log : List (AudioEffect α)} (plain : ∀ effect ∈ log, effect.block? = none) :
          blocks log = [] := List.filterMap_eq_nil_iff.mpr plain
      rw [blocks_append, blocks_append, nothing fun effect moves => ?_,
        nothing fun effect writes => ?_, List.nil_append, List.nil_append]
      · obtain ⟨index, rfl, -⟩ := stores effect writes
        rfl
      · obtain ⟨amount, rfl, -⟩ := shifts effect moves
        rfl
    refine ⟨last, moved ++ stored ++ sent, ?_, encoded.sound, encoded.shape, ?_, ?_, ?_, ?_⟩
    · simp only [roomy, written, drained, Option.bind_some, Option.map_some]
    · intro effect member
      simp only [List.mem_append] at member
      rcases member with (moves | writes) | sends
      · obtain ⟨amount, rfl, least⟩ := shifts effect moves
        exact least
      · obtain ⟨index, rfl, inside⟩ := stores effect writes
        exact inside
      · exact encoded.inBounds effect sends
    · rw [quiet, encoded.kept, reduced.content_filled, sound.content_dropped (by omega), length,
        surplus]
    · rw [quiet]
      exact encoded.whole
    · exact fun positive _ => less positive

/-- A call whose samples do not fit moves the buffer by more than it holds. -/
theorem onAudioCapture_eq_none [Zero α] (sound : t.Sound) {call : Capture α}
    (overflow : ¬ call.Fits t.shape) : t.onAudioCapture call = none := by
  rw [Capture.Fits] at overflow
  push Not at overflow
  obtain ⟨data, heard, many⟩ := overflow
  have small := sound.small
  have frames := data.frames.toNat_lt
  have product := t.shape.mul_channels_lt (n := data.frames.toNat) (by omega)
  have filled := sound.filled
  rw [← sound.capacity] at many
  have total : sizeAdd t.bufFill (data.frames.toNat * t.shape.channels) =
      t.bufFill + data.frames.toNat * t.shape.channels :=
    sizeAdd_of_lt (by rw [sizeMod]; omega)
  have drop : sizeSub (t.bufFill + data.frames.toNat * t.shape.channels) t.bufCapacity =
      t.bufFill + data.frames.toNat * t.shape.channels - t.bufCapacity :=
    sizeSub_of_le (by omega) (by rw [sizeMod]; omega)
  -- what is dropped is more than what is there, so the length wraps around
  have more : t.bufFill < t.bufFill + data.frames.toNat * t.shape.channels - t.bufCapacity := by
    omega
  have beyond := Cells.moveDown_eq_none t.buf (Nat.succ_pos 3) more (by rw [sizeMod]; omega)
    (by rw [sound.allocated, sizeMod]; omega)
  have room : t.makeRoom (data.frames.toNat * t.shape.channels) = none := by
    rw [makeRoom, total, if_pos (by omega)]
    simp only [drop, beyond, Option.map_none]
  rw [Option.mem_def] at heard
  simp only [onAudioCapture, heard, t.shape.sizeMul_channels (n := data.frames.toNat) (by omega),
    room, Option.bind_none]

/-- Every call ends, each of its accesses stays inside the buffer, and whole frames are left
that do not exceed the capacity. -/
def Bounded [Zero α] : SenderTrack α → List (Capture α) → Prop
  | _, [] => True
  | t, call :: rest =>
    ∃ last log, t.onAudioCapture call = some (last, log) ∧
      (∀ effect ∈ log, effect.InBounds t.bufCapacity) ∧
      last.bufFill ≤ last.bufCapacity ∧ last.shape.channels ∣ last.bufFill ∧ Bounded last rest

theorem Sound.within_iff [Zero α] (sound : t.Sound) (calls : List (Capture α)) :
    t.Bounded calls ↔ ∀ call ∈ calls, call.Fits t.shape := by
  -- a call that fits leaves a sound buffer, and one that does not leaves none
  induction calls generalizing t with
  | nil => simp [Bounded]
  | cons call rest ih =>
    rw [List.forall_mem_cons, Bounded]
    by_cases fits : call.Fits t.shape
    · obtain ⟨last, log, returned, captured⟩ := onAudioCapture_eq sound fits
      have later := ih captured.sound
      rw [captured.shape] at later
      constructor
      · rintro ⟨last', log', returned', -, -, -, bounded⟩
        obtain ⟨rfl, rfl⟩ := Prod.mk.inj (Option.some.inj (returned.symm.trans returned'))
        exact ⟨fits, later.mp bounded⟩
      · rintro ⟨-, others⟩
        exact ⟨last, log, returned, captured.inBounds, captured.sound.filled,
          captured.sound.whole, later.mpr others⟩
    · constructor
      · rintro ⟨last, log, returned, -⟩
        rw [onAudioCapture_eq_none sound fits] at returned
        exact absurd returned (by simp)
      · rintro ⟨here, -⟩
        exact absurd here fits

/-- A track begins with an empty buffer. -/
theorem sound_attach [Zero α] {shape : AudioShape} {found : Bool} {trackId : ℤ}
    {opusCreates : ℕ → ℕ → Bool} (attached : shape.attach found trackId opusCreates = some t) :
    t.Sound ∧ t.shape = shape ∧ t.bufFill = 0 := by
  rw [AudioShape.attach] at attached
  split_ifs at attached
  obtain rfl := Option.some.inj attached
  exact ⟨⟨List.length_replicate, rfl, Nat.zero_le _, Nat.dvd_zero _⟩, rfl, rfl⟩

/-- A track's calls stay inside its buffer if and only if none brings more samples than it has
room for. -/
theorem bounded_iff [Zero α] (cfg : AudioSenderConfig) {found : Bool} {trackId : ℤ}
    {opusCreates : ℕ → ℕ → Bool} (attached : cfg.create.attach found trackId opusCreates = some t)
    (calls : List (Capture α)) :
    t.Bounded calls ↔
      ∀ call ∈ calls, ∀ data ∈ call.audible,
        data.frames.toNat * cfg.create.channels ≤ cfg.create.capacity := by
  obtain ⟨sound, shape, -⟩ := sound_attach attached
  have bounded := sound.within_iff calls
  rw [shape] at bounded
  exact bounded

end SenderTrack

/-! ### A long block -/

/-- Samples of the cases below. -/
structure Level where
  height : ℕ

instance : Zero Level := ⟨⟨0⟩⟩

/-- One channel at 8 kHz, with room for 1600 samples. -/
def monoConfig : AudioSenderConfig where
  sampleRate := 8000
  channels := 1
  sampleRate_lt := by decide
  channels_lt := by decide

def monoTrack : SenderTrack Level where
  trackId := 0
  shape := monoConfig.create
  buf := List.replicate monoConfig.create.capacity 0
  bufCapacity := monoConfig.create.capacity
  bufFill := 0

theorem attach_monoConfig : monoConfig.create.attach true 0 (fun _ _ => true) = some monoTrack :=
  rfl

/-- A block of some frames of silence. -/
def silentBlock (frames : UInt32) : Capture Level where
  muted := false
  data := some { frames, planes := fun _ => none }
  opus := fun _ => 0

namespace SenderTrack

theorem bounded_iff_mono :
    monoTrack.Bounded [silentBlock 1600, silentBlock 1600] ↔
      ∀ call ∈ [silentBlock 1600, silentBlock 1600], ∀ data ∈ call.audible,
        data.frames.toNat * monoConfig.create.channels ≤ monoConfig.create.capacity :=
  bounded_iff monoConfig attach_monoConfig _

/-- A block of 200 ms and one more frame, into an empty buffer: one sample more than there is
would have to make room. -/
theorem long_block_overflows :
    monoConfig.create.attach true 0 (fun _ _ => true) = some monoTrack ∧
      ¬ monoTrack.Bounded [silentBlock 1601] := by
  refine ⟨attach_monoConfig, ?_⟩
  obtain ⟨sound, -, -⟩ := sound_attach attach_monoConfig
  rw [sound.within_iff]
  intro fits
  have room := fits (silentBlock 1601) List.mem_cons_self _ rfl
  exact absurd room (by decide)

end SenderTrack

end Tether.Plugin
