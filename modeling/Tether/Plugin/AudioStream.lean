import Tether.Plugin.AudioTrack
import Tether.Semantics.Conveyor

/-!
# The audio stream

The buffer is moved and refilled in place, call by call. What leaves it is what would
leave a conveyor belt with room for 200 ms, onto which the captured samples are loaded
in their order and from which blocks of 20 ms are taken.

## Main definitions

* `SenderTrack.captureAll` — one call of the callback after another
* `SenderTrack.Shows` — the buffer holds what is on the belt
* `Blocks` — what is encoded while the belt moves on

## Main results

* `Shows.captured` — one call feeds the belt once
* `capture_fifo` — a run encodes what the belt hands on, block by block
-/

namespace Tether.Plugin

open Semantics AudioEffect

variable {α : Type*}

/-- The rates that `opus_encoder_create` knows. -/
def opusRates : List ℕ := [8000, 12000, 16000, 24000, 48000]

/-- At these rates a block is not empty. -/
theorem AudioShape.needed_pos {shape : AudioShape} (known : shape.sampleRate ∈ opusRates) :
    0 < shape.needed := by
  have channels := shape.channels_pos
  have samples : 0 < shape.sampleRate * 20 / 1000 := by
    simp only [opusRates, List.mem_cons, List.not_mem_nil, or_false] at known
    omega
  rw [needed_eq]
  exact Nat.mul_pos samples channels

theorem AudioShape.needed_eq_mul (shape : AudioShape) :
    shape.needed = shape.frameSamples * shape.channels := by
  rw [needed_eq, frameSamples_eq]

theorem Capture.dvd_length_incoming [Zero α] (call : Capture α) (channels : ℕ) :
    channels ∣ (call.incoming channels).length := by
  rw [incoming]
  cases call.audible with
  | none => exact Nat.dvd_zero _
  | some data =>
    rw [Option.elim_some, AudioData.length_interleaved]
    exact Nat.dvd_mul_left _ _

/-- What is encoded while a belt moves on is what it hands on, in blocks that start with a
frame of the stream and do not overlap. -/
structure Blocks (shape : AudioShape) (line next : Conveyor α) (stream : List α)
    (blocks : List (List α)) : Prop where
  handed : next.handed = line.handed ++ blocks.flatten
  framed : ∃ frames : List ℕ,
    blocks = slices stream shape.needed (frames.map fun f => f * shape.channels) ∧
      frames.Pairwise (fun f g => f + shape.frameSamples ≤ g) ∧
      ∀ f ∈ frames, line.passed.length ≤ f * shape.channels ∧
        (f + shape.frameSamples) * shape.channels ≤ next.passed.length

theorem Blocks.nil (shape : AudioShape) (line : Conveyor α) (stream : List α) :
    Blocks shape line line stream [] where
  handed := (List.append_nil _).symm
  framed := ⟨[], rfl, .nil, by simp⟩

theorem Blocks.append {shape : AudioShape} {line next last : Conveyor α} {stream : List α}
    {first second : List (List α)} (here : Blocks shape line next stream first)
    (there : Blocks shape next last stream second)
    (ahead : line.passed.length ≤ next.passed.length)
    (behind : next.passed.length ≤ last.passed.length) :
    Blocks shape line last stream (first ++ second) where
  handed := by
    rw [there.handed, here.handed, List.append_assoc, List.flatten_append]
  framed := by
    obtain ⟨frames, sliced, apart, within⟩ := here.framed
    obtain ⟨frames', sliced', apart', within'⟩ := there.framed
    refine ⟨frames ++ frames', ?_, ?_, ?_⟩
    · rw [List.map_append, slices_append, ← sliced, ← sliced']
    · -- the blocks of the first part end where those of the second begin, counted in frames
      apply List.pairwise_append.mpr ⟨apart, apart', fun f mem g mem' => ?_⟩
      apply Nat.le_of_mul_le_mul_right _ shape.channels_pos
      exact Nat.le_trans (within f mem).2 (within' g mem').1
    · intro f member
      rcases List.mem_append.mp member with mem | mem
      · exact ⟨(within f mem).1, Nat.le_trans (within f mem).2 behind⟩
      · exact ⟨Nat.le_trans ahead (within' f mem).1, (within' f mem).2⟩

namespace SenderTrack

/-! ### Calls -/

/-- One call after another. -/
def captureAll [Zero α] : SenderTrack α → List (Capture α) →
    Option (SenderTrack α × List (AudioEffect α))
  | t, [] => some (t, [])
  | t, call :: rest =>
    (t.onAudioCapture call).bind fun (next, log) =>
      (next.captureAll rest).map fun (last, more) => (last, log ++ more)

/-- The samples that are waiting are those on the belt, less than a block of them, and only
whole frames have passed. -/
structure Shows (t : SenderTrack α) (line : Conveyor α) : Prop where
  sound : t.Sound
  content : t.content = line.belt
  less : t.bufFill < t.shape.needed
  whole : t.shape.channels ∣ line.passed.length

variable {t : SenderTrack α} {line : Conveyor α}

/-- A call feeds the belt. -/
theorem Shows.captured (shows : t.Shows line) {incoming : List α}
    (frames : t.shape.channels ∣ incoming.length) {last : SenderTrack α}
    {log : List (AudioEffect α)} (captured : Captured t incoming last log) (later : List α) :
    last.Shows (line.feed t.bufCapacity t.shape.needed incoming) ∧
      line.passed.length ≤ (line.feed t.bufCapacity t.shape.needed incoming).passed.length ∧
      Blocks t.shape line (line.feed t.bufCapacity t.shape.needed incoming)
        (line.stream ++ incoming ++ later) (blocks log) := by
  have positive : 0 < t.shape.needed := by
    have := shows.less
    omega
  have fill : line.belt.length = t.bufFill := by
    rw [← shows.content, shows.sound.length_content]
  have ended := captured.less positive shows.less
  -- the belt after loading, from which the blocks are taken
  generalize room : t.bufCapacity = capacity at *
  have length : (line.offer capacity incoming).passed.length =
      line.passed.length + min (t.bufFill + incoming.length - capacity) t.bufFill := by
    rw [Conveyor.offer, Conveyor.load, Conveyor.length_passed_pass, fill]
  have belt : (blocks log).flatten ++ last.content = (line.offer capacity incoming).belt := by
    rw [captured.kept, Conveyor.belt_offer, fill, shows.content, room]
  have short : last.content.length < t.shape.needed := by
    rw [captured.sound.length_content]
    exact ended
  obtain ⟨left, handed, count⟩ := Conveyor.drain_eq _ captured.whole short belt
  have stream : (line.offer capacity incoming).stream = line.stream ++ incoming := by
    simp [Conveyor.offer]
  -- what is pushed off the belt are whole frames, as the capacity is a number of them
  obtain ⟨frame, aligned⟩ : t.shape.channels ∣ (line.offer capacity incoming).passed.length := by
    have surplus : t.shape.channels ∣ t.bufFill + incoming.length - capacity := by
      apply Nat.dvd_sub (Nat.dvd_add shows.sound.whole frames)
      rw [← room, shows.sound.capacity]
      exact t.shape.channels_dvd_capacity
    rw [length]
    apply Nat.dvd_add shows.whole
    rcases Nat.le_total (t.bufFill + incoming.length - capacity) t.bufFill with least | least
    · rwa [Nat.min_eq_left least]
    · rw [Nat.min_eq_right least]
      exact shows.sound.whole
  rw [Nat.mul_comm] at aligned
  have needed := t.shape.needed_eq_mul
  refine ⟨⟨captured.sound, left.symm, ?_, ?_⟩, ?_, ⟨?_, ?_⟩⟩
  · rw [captured.shape]
    exact ended
  · rw [captured.shape, Conveyor.feed, count, aligned, needed, ← Nat.mul_assoc, ← Nat.add_mul]
    exact Nat.dvd_mul_left _ _
  · rw [Conveyor.feed, count, length]
    omega
  · rw [Conveyor.feed, handed, Conveyor.handed_offer]
  · have split : (line.stream ++ incoming ++ later).drop
        (line.offer capacity incoming).passed.length =
          (blocks log).flatten ++ (last.content ++ later) := by
      have within : (line.offer capacity incoming).passed.length ≤
          (line.offer capacity incoming).stream.length := by
        simp [Conveyor.stream]
      rw [← stream, List.drop_append_of_le_length within, Conveyor.drop_stream, ← belt,
        List.append_assoc]
    -- blocks of one length that make up a piece of the stream are its slices
    have sliced := eq_slices captured.whole split
    refine ⟨(List.range (blocks log).length).map fun k => frame + k * t.shape.frameSamples,
      ?_, ?_, ?_⟩
    · have starts : ((List.range (blocks log).length).map fun k =>
          (line.offer capacity incoming).passed.length + k * t.shape.needed) =
            ((List.range (blocks log).length).map fun k => frame + k * t.shape.frameSamples).map
              fun f => f * t.shape.channels := by
        rw [List.map_map]
        apply List.map_congr_left
        intro k _
        rw [Function.comp_apply, Nat.add_mul, aligned, needed, Nat.mul_assoc]
      rw [← starts]
      exact sliced
    · apply List.Pairwise.map _ _ List.pairwise_lt_range
      intro j k less
      have next := Nat.mul_le_mul_right t.shape.frameSamples less
      rw [Nat.succ_mul] at next
      omega
    · intro f member
      obtain ⟨k, inside, rfl⟩ := List.mem_map.mp member
      have last := Nat.mul_le_mul_right t.shape.needed (List.mem_range.mp inside)
      have position : (frame + k * t.shape.frameSamples) * t.shape.channels =
          (line.offer capacity incoming).passed.length + k * t.shape.needed := by
        rw [Nat.add_mul, aligned, needed, Nat.mul_assoc]
      rw [Nat.succ_mul] at last
      rw [Nat.add_mul _ t.shape.frameSamples, position, ← needed, Conveyor.feed, count]
      omega

/-- A run of calls feeds the belt with what the calls bring, one load after another. -/
theorem Shows.captureAll [Zero α] (shows : t.Shows line) {calls : List (Capture α)}
    (fits : ∀ call ∈ calls, call.Fits t.shape) :
    ∃ last log, t.captureAll calls = some (last, log) ∧
      let loads := calls.map fun call => call.incoming t.shape.channels
      let next := line.feedAll t.bufCapacity t.shape.needed loads
      last.Shows next ∧ last.shape = t.shape ∧ line.passed.length ≤ next.passed.length ∧
        Blocks t.shape line next (line.stream ++ loads.flatten) (blocks log) ∧
        ∀ block ∈ blocks log, block.length = t.shape.needed := by
  induction calls generalizing t line with
  | nil => exact ⟨t, [], rfl, shows, rfl, Nat.le_refl _, .nil _ _ _, by simp⟩
  | cons call rest ih =>
    obtain ⟨here, others⟩ := List.forall_mem_cons.mp fits
    obtain ⟨next, log, returned, captured⟩ := onAudioCapture_eq shows.sound here
    have frames := call.dvd_length_incoming t.shape.channels
    have capacity := captured.capacity shows.sound
    -- what later calls bring is behind the samples that this one can see
    obtain ⟨showsNext, ahead, first⟩ := shows.captured frames captured
      (rest.map fun call => call.incoming t.shape.channels).flatten
    rw [← captured.shape] at others
    obtain ⟨last, more, ran, ended⟩ := ih showsNext others
    simp only [captured.shape, capacity] at ended
    obtain ⟨showsLast, shape, behind, second, whole⟩ := ended
    refine ⟨last, log ++ more, ?_, showsLast, shape, Nat.le_trans ahead behind, ?_, ?_⟩
    · simp only [SenderTrack.captureAll, returned, ran, Option.bind_some, Option.map_some]
    · rw [Conveyor.stream_feed] at second
      rw [blocks_append, List.map_cons, List.flatten_cons, ← List.append_assoc]
      exact first.append second ahead behind
    · intro block member
      rw [blocks_append] at member
      rcases List.mem_append.mp member with mem | mem
      · exact captured.whole block mem
      · exact whole block mem

/-! ### Runs -/

/-- What a run of calls captures. -/
def streamOf [Zero α] (shape : AudioShape) (calls : List (Capture α)) : List α :=
  (calls.map fun call => call.incoming shape.channels).flatten

/-- The belt after a run of calls: onto it they load what they bring. -/
def beltOf [Zero α] (shape : AudioShape) (calls : List (Capture α)) : Conveyor α :=
  Conveyor.start.feedAll shape.capacity shape.needed
    (calls.map fun call => call.incoming shape.channels)

/-- What is encoded and what is still waiting is the captured stream without the samples that
the belt has lost, every block is whole and starts with a frame, and less than a block is
left. -/
structure Fifo [Zero α] (shape : AudioShape) (calls : List (Capture α)) (last : SenderTrack α)
    (log : List (AudioEffect α)) : Prop where
  stream : (beltOf shape calls).passed.map Prod.fst ++ (beltOf shape calls).belt =
    streamOf shape calls
  encoded : (blocks log).flatten = (beltOf shape calls).handed
  waiting : last.content = (beltOf shape calls).belt
  whole : ∀ block ∈ blocks log, block.length = shape.needed
  framed : ∃ frames : List ℕ,
    blocks log = slices (streamOf shape calls) shape.needed
      (frames.map fun f => f * shape.channels) ∧
        frames.Pairwise fun f g => f + shape.frameSamples ≤ g
  less : last.bufFill < shape.needed

theorem capture_fifo [Zero α] (cfg : AudioSenderConfig) {found : Bool} {trackId : ℤ}
    (opusCreates : ℕ → ℕ → Bool)
    (documented : ∀ rate channels, opusCreates rate channels = true → rate ∈ opusRates)
    (attached : cfg.create.attach found trackId opusCreates = some t) (calls : List (Capture α))
    (fits : ∀ call ∈ calls, ∀ data ∈ call.audible,
      data.frames.toNat * cfg.create.channels ≤ cfg.create.capacity) :
    ∃ last log, t.captureAll calls = some (last, log) ∧ Fifo cfg.create calls last log := by
  obtain ⟨sound, shape, empty⟩ := sound_attach attached
  -- an encoder that is created has a rate at which a block is not empty
  have known : cfg.create.sampleRate ∈ opusRates := by
    rw [AudioShape.attach] at attached
    split_ifs at attached with _ _ creates
    exact documented _ _ (by simpa using creates)
  have capacity := sound.capacity
  rw [shape] at capacity
  have shows : t.Shows Conveyor.start := by
    refine ⟨sound, ?_, ?_, Nat.dvd_zero _⟩
    · rw [content, empty]
      rfl
    · rw [empty, shape]
      exact AudioShape.needed_pos known
  have room : ∀ call ∈ calls, call.Fits t.shape := by
    rw [shape]
    exact fits
  obtain ⟨last, log, ran, ended⟩ := shows.captureAll room
  simp only [shape, capacity] at ended
  obtain ⟨showsLast, kept, -, ⟨handed, frames, sliced, apart, -⟩, whole⟩ := ended
  have less := showsLast.less
  rw [kept] at less
  refine ⟨last, log, ran, ?_, handed.symm, showsLast.content, whole, ⟨frames, sliced, apart⟩, less⟩
  exact Conveyor.stream_feedAll _ _ _ _

theorem silentBlock_fits {frames : UInt32} (short : frames.toNat ≤ 1600) :
    ∀ data ∈ (silentBlock frames).audible,
      data.frames.toNat * monoConfig.create.channels ≤ monoConfig.create.capacity := by
  intro data heard
  obtain rfl := Option.some.inj heard
  have room : monoConfig.create.capacity = 1600 := by decide
  have one : monoConfig.create.channels = 1 := rfl
  rw [room, one, Nat.mul_one]
  exact short

/-- Two blocks of silence at 8 kHz, the second of which makes room for itself. -/
theorem capture_fifo_mono :
    ∃ last log, monoTrack.captureAll [silentBlock 100, silentBlock 1600] = some (last, log) ∧
      Fifo monoConfig.create [silentBlock 100, silentBlock 1600] last log := by
  have attached : monoConfig.create.attach true 0 (fun rate _ => decide (rate ∈ opusRates)) =
      some monoTrack := rfl
  apply capture_fifo monoConfig _ (fun rate _ known => of_decide_eq_true known) attached
  rw [List.forall_mem_cons, List.forall_mem_singleton]
  exact ⟨silentBlock_fits (by decide), silentBlock_fits (by decide)⟩

end SenderTrack

end Tether.Plugin
