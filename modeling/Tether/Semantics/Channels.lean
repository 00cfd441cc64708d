import Mathlib.Data.List.Basic
import Mathlib.Tactic.Common

/-!
# Channels of an interleaved stream

A stream of frames has the samples of a frame next to each other, one for each channel. A
channel is the sequence of its samples over all frames.

## Main definitions

* `channel` — one channel of a stream

## Main results

* `channel_append` — whole frames keep their samples
* `channel_interleaved` — the channels of frames that have been put together
-/

namespace Semantics

variable {α : Type*} {channels c : ℕ}

/-- The samples of channel `c`, over the whole frames of the stream. -/
def channel (channels c : ℕ) (stream : List α) : List α :=
  (List.range (stream.length / channels)).filterMap fun f => stream[f * channels + c]?

@[simp] theorem channel_nil : channel channels c ([] : List α) = [] := by
  simp [channel]

theorem mem_of_mem_channel {stream : List α} {x : α} (member : x ∈ channel channels c stream) :
    x ∈ stream := by
  obtain ⟨f, -, there⟩ := List.mem_filterMap.mp member
  exact List.mem_of_getElem? there

/-- The sample of a whole frame is in the stream. -/
theorem sample_lt {stream : List α} (one : c < channels) {f : ℕ}
    (whole : f < stream.length / channels) : f * channels + c < stream.length := by
  have next := Nat.mul_le_of_le_div channels (f + 1) stream.length whole
  rw [Nat.succ_mul] at next
  omega

theorem length_channel (one : c < channels) (stream : List α) :
    (channel channels c stream).length = stream.length / channels := by
  have there : ∀ f ∈ List.range (stream.length / channels),
      (stream[f * channels + c]?).isSome := by
    intro f member
    rw [List.getElem?_eq_getElem (sample_lt one (List.mem_range.mp member))]
    rfl
  rw [channel, List.length_filterMap_eq_countP, List.countP_eq_length.mpr there,
    List.length_range]

theorem channel_append (one : c < channels) {first second : List α}
    (whole : channels ∣ first.length) :
    channel channels c (first ++ second) =
      channel channels c first ++ channel channels c second := by
  obtain ⟨frames, length⟩ := whole
  have positive : 0 < channels := Nat.zero_lt_of_lt one
  have frames_eq : first.length / channels = frames := by
    rw [length, Nat.mul_div_cancel_left _ positive]
  have count : (first ++ second).length / channels = frames + second.length / channels := by
    rw [List.length_append, length, Nat.mul_add_div positive]
  rw [channel, count, List.range_add, List.filterMap_append, List.filterMap_map, channel, frames_eq,
    channel]
  congr 1
  · apply List.filterMap_congr
    intro f member
    have inside : f < first.length / channels := by
      rw [frames_eq]
      exact List.mem_range.mp member
    rw [List.getElem?_append_left (sample_lt one inside)]
  · apply List.filterMap_congr
    intro f _
    have place : (frames + f) * channels + c = first.length + (f * channels + c) := by
      rw [Nat.add_mul, length, Nat.mul_comm channels, Nat.add_assoc]
    rw [Function.comp_apply, place, List.getElem?_append_right (Nat.le_add_right _ _),
      Nat.add_sub_cancel_left]

theorem channel_flatten (one : c < channels) {streams : List (List α)}
    (whole : ∀ stream ∈ streams, channels ∣ stream.length) :
    channel channels c streams.flatten = streams.flatMap (channel channels c) := by
  induction streams with
  | nil => exact channel_nil
  | cons stream rest ih =>
    obtain ⟨here, others⟩ := List.forall_mem_cons.mp whole
    rw [List.flatten_cons, channel_append one here, ih others, List.flatMap_cons]

/-- Frames that are put together sample by sample have the channels that they were made of. -/
theorem channel_interleaved (one : c < channels) (frames : ℕ) (sample : ℕ → ℕ → α) :
    channel channels c
        ((List.range frames).flatMap fun f => (List.range channels).map (sample f)) =
      (List.range frames).map fun f => sample f c := by
  induction frames with
  | zero => simp
  | succ frames ih =>
    have whole : channels ∣
        ((List.range frames).flatMap fun f => (List.range channels).map (sample f)).length := by
      rw [List.length_flatMap, List.map_congr_left fun f _ => List.length_map (sample f),
        List.map_const', List.sum_replicate_nat, List.length_range, List.length_range]
      exact Nat.dvd_mul_left channels frames
    have last : channel channels c ((List.range channels).map (sample frames)) =
        [sample frames c] := by
      have positive : 0 < channels := Nat.zero_lt_of_lt one
      simp [channel, Nat.div_self positive, one]
    rw [List.range_succ, List.flatMap_append, channel_append one whole, ih, List.map_append,
      List.flatMap_singleton, last, List.map_singleton]

end Semantics
