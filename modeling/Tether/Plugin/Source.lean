import Mathlib.Data.Int.Notation
import Tether.Text.Bytes

/-!
# What a source decodes

A session hands every packet of every track to each of its sources. A source may have
selected one track of each kind, and drops the packets of the others; what is left goes
into one H.264 decoder and one Opus decoder. Without a selection nothing is dropped.

## Main definitions

* `TetherSource.onSessionVideo`, `TetherSource.onSessionAudio` — the packets of a session
* `wantedPackets` — the packets of the selected track, or of the first one
* `OneStream` — the packets tell their tracks, and come from one if none is selected

## Main results

* `filter_passes_eq_wanted_iff` — what passes the selection is what is wanted
* `decodes_one_stream_iff` — each decoder gets one stream if and only if there is no other
-/

namespace Tether.Plugin

open Text

/-- A packet as a session delivers it; the data and the mid may be missing. -/
structure MediaPacket where
  data : Option Bytes
  pts : ℤ
  mid : Option Bytes
  deriving DecidableEq

namespace MediaPacket

/-- There is data. -/
def present (packet : MediaPacket) : Bool := packet.data.any fun data => data ≠ []

/-- The packet is not of another track than the selected one. -/
def passes (selected : Option Bytes) (packet : MediaPacket) : Bool :=
  match selected, packet.mid with
  | some sel, some mid => sel = [] ∨ sel = mid
  -- a packet without a mid passes, and without a selection every packet does
  | _, _ => true

end MediaPacket

/-- `tether_audio_receiver_t`: what it decodes, and the tracks that have a decoder. -/
structure AudioReceiver where
  sampleRate : ℕ
  channels : ℕ
  bound : Bool
  tracks : List ℤ

/-- `get_or_create_track`; `opus_decoder_create` may fail. -/
def AudioReceiver.getOrCreateTrack (opusCreates : ℕ → ℕ → Bool) (r : AudioReceiver) (id : ℤ) :
    Option AudioReceiver :=
  if id ∈ r.tracks then some r
  else if opusCreates r.sampleRate r.channels then some { r with tracks := r.tracks ++ [id] }
  else none

/-- `tether_audio_receiver_push_packet`, and what it decodes under which track. -/
def AudioReceiver.pushPacket (opusCreates : ℕ → ℕ → Bool) (r : AudioReceiver) (trackId : ℤ)
    (packet : MediaPacket) : AudioReceiver × List (ℤ × MediaPacket) :=
  if !packet.present || !r.bound then (r, [])
  else
    match r.getOrCreateTrack opusCreates trackId with
    | none => (r, [])
    | some r => (r, [(trackId, packet)])

/-- `struct tether_source`, the part that decides what is decoded. -/
structure TetherSource where
  videoMid : Option Bytes
  audioMid : Option Bytes
  audio : AudioReceiver
  /-- Whether there is an H.264 decoder. -/
  vctx : Bool

/-- A mid that is set. -/
def selectedMid (mid : Bytes) : Option Bytes := if mid = [] then none else some mid

/-- A packet that the session delivers. -/
inductive PacketArrival
  | video (packet : MediaPacket)
  | audio (packet : MediaPacket)

/-- A packet that goes into a decoder. -/
inductive Decoded
  /-- `avcodec_send_packet` -/
  | h264 (packet : MediaPacket)
  /-- `opus_decode_float` -/
  | opus (trackId : ℤ) (packet : MediaPacket)
  deriving DecidableEq

namespace TetherSource

/-- `create`, for the mids of the settings and a decoder that can be set up or not. -/
def create (videoMid audioMid : Bytes) (decoder : Bool) : TetherSource where
  videoMid := selectedMid videoMid
  audioMid := selectedMid audioMid
  audio := ⟨48000, 2, true, []⟩
  vctx := decoder

/-- `on_session_video` -/
def onSessionVideo (s : TetherSource) (packet : MediaPacket) : List Decoded :=
  if !packet.present then []
  else if !packet.passes s.videoMid then []
  else if !s.vctx then []
  else [.h264 packet]

/-- `on_session_audio` -/
def onSessionAudio (opusCreates : ℕ → ℕ → Bool) (s : TetherSource) (packet : MediaPacket) :
    TetherSource × List Decoded :=
  if !packet.passes s.audioMid then (s, [])
  else
    -- all audio of the source goes to the track `0`
    let (audio, decoded) := s.audio.pushPacket opusCreates 0 packet
    ({ s with audio }, decoded.map fun (id, packet) => .opus id packet)

/-- A packet of the session. -/
def deliver (opusCreates : ℕ → ℕ → Bool) (s : TetherSource) :
    PacketArrival → TetherSource × List Decoded
  | .video packet => (s, s.onSessionVideo packet)
  | .audio packet => s.onSessionAudio opusCreates packet

/-- What is decoded of a sequence of packets. -/
def decodeAll (opusCreates : ℕ → ℕ → Bool) : TetherSource → List PacketArrival → List Decoded
  | _, [] => []
  | s, delivery :: rest =>
    let (s, decoded) := s.deliver opusCreates delivery
    decoded ++ decodeAll opusCreates s rest

end TetherSource

/-! ### Streams -/

/-- The video packets among some deliveries, without empty ones. -/
def videoPackets (deliveries : List PacketArrival) : List MediaPacket :=
  deliveries.filterMap fun
    | .video packet => if packet.present then some packet else none
    | .audio _ => none

/-- The audio packets. -/
def audioPackets (deliveries : List PacketArrival) : List MediaPacket :=
  deliveries.filterMap fun
    | .audio packet => if packet.present then some packet else none
    | .video _ => none

/-- What goes into the H.264 decoder. -/
def h264Packets (decoded : List Decoded) : List MediaPacket :=
  decoded.filterMap fun
    | .h264 packet => some packet
    | .opus _ _ => none

/-- What goes into Opus decoders, with the track that the decoder belongs to. -/
def opusPackets (decoded : List Decoded) : List (ℤ × MediaPacket) :=
  decoded.filterMap fun
    | .opus id packet => some (id, packet)
    | .h264 _ => none

/-- The track that should be decoded: the selected one, or the first that delivers. -/
def targetMid (mid : Bytes) (packets : List MediaPacket) : Option Bytes :=
  (selectedMid mid).or (packets.filterMap MediaPacket.mid).head?

/-- The packets of that track. -/
def wantedPackets (mid : Bytes) (packets : List MediaPacket) : List MediaPacket :=
  packets.filter fun packet => packet.mid.isSome && packet.mid == targetMid mid packets

/-- Every packet tells its track, and if none is selected, all tell the same one. -/
def OneStream (mid : Bytes) (packets : List MediaPacket) : Prop :=
  (∀ packet ∈ packets, packet.mid.isSome) ∧
    (mid = [] → ∀ first ∈ packets, ∀ second ∈ packets, first.mid = second.mid)

/-- Of two selections, one of which keeps more, the results are the same only if the other
keeps as much. -/
theorem filter_eq_filter_iff {α : Type*} {p q : α → Bool} {xs : List α}
    (weaker : ∀ x ∈ xs, q x = true → p x = true) :
    xs.filter p = xs.filter q ↔ ∀ x ∈ xs, p x = true → q x = true := by
  constructor
  · intro same x member kept
    have there : x ∈ xs.filter p := List.mem_filter.mpr ⟨member, kept⟩
    rw [same] at there
    exact (List.mem_filter.mp there).2
  · intro stronger
    apply List.filter_congr
    intro x member
    rw [Bool.eq_iff_iff]
    exact ⟨stronger x member, weaker x member⟩

theorem passes_none (packet : MediaPacket) : packet.passes none = true := rfl

/-- With a track selected, packets of it and packets of no track pass. -/
theorem passes_some_iff {mid : Bytes} (set : mid ≠ []) (packet : MediaPacket) :
    packet.passes (some mid) = true ↔ packet.mid = none ∨ packet.mid = some mid := by
  obtain ⟨data, pts, told⟩ := packet
  cases told with
  | none => simp [MediaPacket.passes]
  | some other => simp [MediaPacket.passes, set, eq_comm]

/-- Without a selection, the first packet tells the track. -/
theorem targetMid_nil_cons {packet : MediaPacket} {rest : List MediaPacket}
    (told : packet.mid.isSome) : targetMid [] (packet :: rest) = packet.mid := by
  obtain ⟨mid, told⟩ := Option.isSome_iff_exists.mp told
  simp [targetMid, selectedMid, told]

theorem targetMid_of_set {mid : Bytes} (set : mid ≠ []) (packets : List MediaPacket) :
    targetMid mid packets = some mid := by
  simp [targetMid, selectedMid, set]

/-- What passes is what is wanted if and only if there is one stream. -/
theorem filter_passes_eq_wanted_iff (mid : Bytes) (packets : List MediaPacket) :
    packets.filter (MediaPacket.passes (selectedMid mid)) = wantedPackets mid packets ↔
      OneStream mid packets := by
  by_cases set : mid = []
  · subst set
    have weaker : ∀ packet ∈ packets,
        (packet.mid.isSome && packet.mid == targetMid [] packets) = true →
          -- no selection keeps everything
          packet.passes (selectedMid []) = true := fun packet _ _ => passes_none packet
    rw [wantedPackets, filter_eq_filter_iff weaker]
    constructor
    · intro same
      have told (packet) (member : packet ∈ packets) :
          packet.mid.isSome = true ∧ packet.mid = targetMid [] packets := by
        simpa using same packet member (passes_none packet)
      refine ⟨fun packet member => (told packet member).1, fun _ first mem second mem' => ?_⟩
      rw [(told first mem).2, (told second mem').2]
    · rintro ⟨told, same⟩ packet member -
      cases packets with
      -- the first packet tells which track is meant
      | nil => exact absurd member List.not_mem_nil
      | cons first rest =>
        have here := told first List.mem_cons_self
        rw [targetMid_nil_cons here, same rfl first List.mem_cons_self packet member]
        simp [told packet member]
  · have chosen : selectedMid mid = some mid := if_neg set
    have weaker : ∀ packet ∈ packets,
        (packet.mid.isSome && packet.mid == targetMid mid packets) = true →
          packet.passes (selectedMid mid) = true := by
      intro packet _ both
      rw [chosen, passes_some_iff set]
      rw [targetMid_of_set set] at both
      right
      simpa using (Bool.and_eq_true_iff.mp both).2
    rw [wantedPackets, filter_eq_filter_iff weaker, chosen, targetMid_of_set set]
    constructor
    · intro same
      refine ⟨fun packet member => ?_, fun empty => absurd empty set⟩
      by_contra untold
      -- a packet that tells no track passes and is not wanted
      have passed : packet.passes (some mid) = true := by
        rw [passes_some_iff set]
        exact .inl (by simpa using untold)
      exact untold (Bool.and_eq_true_iff.mp (same packet member passed)).1
    · rintro ⟨told, -⟩ packet member passed
      have some_ := told packet member
      rw [passes_some_iff set] at passed
      rcases passed with none | here
      · rw [none] at some_
        contradiction
      · simp [here]

/-! ### Decoders -/

namespace TetherSource

variable (opusCreates : ℕ → ℕ → Bool)

/-- Two states of a source that differ in its Opus decoders at most. -/
structure Alike (s s' : TetherSource) : Prop where
  videoMid : s'.videoMid = s.videoMid
  audioMid : s'.audioMid = s.audioMid
  vctx : s'.vctx = s.vctx
  sampleRate : s'.audio.sampleRate = s.audio.sampleRate
  channels : s'.audio.channels = s.audio.channels
  bound : s'.audio.bound = s.audio.bound

theorem Alike.refl (s : TetherSource) : Alike s s := ⟨rfl, rfl, rfl, rfl, rfl, rfl⟩

theorem alike_deliver (s : TetherSource) (delivery : PacketArrival) :
    Alike s (s.deliver opusCreates delivery).1 := by
  cases delivery with
  | video packet => exact .refl s
  | audio packet =>
    rw [deliver, onSessionAudio]
    split_ifs
    · exact .refl s
    simp only [AudioReceiver.pushPacket]
    split_ifs
    · exact .refl s
    simp only [AudioReceiver.getOrCreateTrack]
    split_ifs <;> exact ⟨rfl, rfl, rfl, rfl, rfl, rfl⟩

theorem h264Packets_append (first second : List Decoded) :
    h264Packets (first ++ second) = h264Packets first ++ h264Packets second :=
  List.filterMap_append

theorem opusPackets_append (first second : List Decoded) :
    opusPackets (first ++ second) = opusPackets first ++ opusPackets second :=
  List.filterMap_append

/-- Of one delivery, a video packet that passes goes into the H.264 decoder. -/
theorem h264Packets_deliver {s : TetherSource} (decoder : s.vctx = true)
    (delivery : PacketArrival) :
    h264Packets (s.deliver opusCreates delivery).2 =
      (videoPackets [delivery]).filter (MediaPacket.passes s.videoMid) := by
  cases delivery with
  | video packet =>
    rw [deliver, onSessionVideo]
    cases present : packet.present
    · simp [h264Packets, videoPackets, present]
    cases passes : packet.passes s.videoMid <;>
      simp [h264Packets, videoPackets, present, passes, decoder]
  | audio packet =>
    have nothing (decoded : List (ℤ × MediaPacket)) :
        h264Packets (decoded.map fun (id, packet) => .opus id packet) = [] := by
      simp [h264Packets]
    rw [deliver, onSessionAudio]
    split_ifs
    · rfl
    · exact nothing _

/-- An audio packet that passes goes into the decoder of track `0`. -/
theorem opusPackets_deliver {s : TetherSource} (bound : s.audio.bound = true)
    (creates : opusCreates s.audio.sampleRate s.audio.channels = true) (delivery : PacketArrival) :
    opusPackets (s.deliver opusCreates delivery).2 =
      ((audioPackets [delivery]).filter (MediaPacket.passes s.audioMid)).map
        fun packet => (0, packet) := by
  cases delivery with
  | video packet =>
    rw [deliver, onSessionVideo]
    split_ifs <;> rfl
  | audio packet =>
    rw [deliver, onSessionAudio]
    cases present : packet.present
    · cases packet.passes s.audioMid <;>
        simp [opusPackets, audioPackets, AudioReceiver.pushPacket, present]
    cases passes : packet.passes s.audioMid
    · simp [opusPackets, audioPackets, present, passes]
    simp only [AudioReceiver.pushPacket, AudioReceiver.getOrCreateTrack, present, bound, creates]
    by_cases known : (0 : ℤ) ∈ s.audio.tracks <;>
      simp [opusPackets, audioPackets, present, passes, known]

theorem videoPackets_cons (delivery : PacketArrival) (rest : List PacketArrival) :
    videoPackets (delivery :: rest) = videoPackets [delivery] ++ videoPackets rest :=
  List.filterMap_append (l := [delivery])

theorem audioPackets_cons (delivery : PacketArrival) (rest : List PacketArrival) :
    audioPackets (delivery :: rest) = audioPackets [delivery] ++ audioPackets rest :=
  List.filterMap_append (l := [delivery])

/-- Along a run, the H.264 decoder gets what passes the selection. -/
theorem h264Packets_decodeAll (deliveries : List PacketArrival) {s : TetherSource}
    (decoder : s.vctx = true) :
    h264Packets (s.decodeAll opusCreates deliveries) =
      (videoPackets deliveries).filter (MediaPacket.passes s.videoMid) := by
  induction deliveries generalizing s with
  | nil => rfl
  | cons delivery rest ih =>
    have alike := alike_deliver opusCreates s delivery
    rw [decodeAll, h264Packets_append, h264Packets_deliver opusCreates decoder,
      ih (alike.vctx.trans decoder), alike.videoMid, videoPackets_cons delivery rest,
      List.filter_append]

theorem opusPackets_decodeAll (deliveries : List PacketArrival) {s : TetherSource}
    (bound : s.audio.bound = true)
    (creates : opusCreates s.audio.sampleRate s.audio.channels = true) :
    opusPackets (s.decodeAll opusCreates deliveries) =
      ((audioPackets deliveries).filter (MediaPacket.passes s.audioMid)).map
        fun packet => (0, packet) := by
  induction deliveries generalizing s with
  | nil => rfl
  | cons delivery rest ih =>
    -- the selection and the decoders that can be created stay as they are
    have alike := alike_deliver opusCreates s delivery
    have stillCreates : opusCreates (s.deliver opusCreates delivery).1.audio.sampleRate
        (s.deliver opusCreates delivery).1.audio.channels = true := by
      rw [alike.sampleRate, alike.channels]
      exact creates
    rw [decodeAll, opusPackets_append, opusPackets_deliver opusCreates bound creates,
      ih (alike.bound.trans bound) stillCreates, alike.audioMid,
      audioPackets_cons delivery rest, List.filter_append, List.map_append]

/-- Each decoder that there is gets exactly the packets of one track, the selected one or the
first, if and only if the packets that are delivered are one stream. -/
theorem decodes_one_stream_iff (videoMid audioMid : Bytes) (decoder : Bool)
    (deliveries : List PacketArrival) :
    ((decoder = true →
        h264Packets ((create videoMid audioMid decoder).decodeAll opusCreates deliveries) =
          wantedPackets videoMid (videoPackets deliveries)) ∧
      (opusCreates 48000 2 = true →
        opusPackets ((create videoMid audioMid decoder).decodeAll opusCreates deliveries) =
          (wantedPackets audioMid (audioPackets deliveries)).map fun packet => (0, packet))) ↔
    (decoder = true → OneStream videoMid (videoPackets deliveries)) ∧
      (opusCreates 48000 2 = true → OneStream audioMid (audioPackets deliveries)) := by
  have pairing : Function.Injective fun packet : MediaPacket => ((0 : ℤ), packet) :=
    fun _ _ same => (Prod.mk.inj same).2
  apply and_congr
  · apply imp_congr_right
    intro there
    rw [h264Packets_decodeAll opusCreates deliveries there]
    exact filter_passes_eq_wanted_iff videoMid _
  · apply imp_congr_right
    intro creates
    rw [opusPackets_decodeAll opusCreates deliveries rfl creates,
      (List.map_injective_iff.mpr pairing).eq_iff]
    exact filter_passes_eq_wanted_iff audioMid _

/-- One packet of each of two tracks. -/
def twoTracks : List PacketArrival :=
  [.video ⟨some [1], 0, some (bytes "video0")⟩, .video ⟨some [2], 0, some (bytes "video1")⟩]

/-- Nothing is selected, and the decoder gets the packets of both tracks. -/
theorem two_tracks_decoded :
    ¬ h264Packets ((create [] [] true).decodeAll (fun _ _ => true) twoTracks) =
      wantedPackets [] (videoPackets twoTracks) := by
  decide +kernel

end TetherSource

end Tether.Plugin
