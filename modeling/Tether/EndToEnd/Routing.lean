import Tether.Plugin.Incoming
import Tether.Plugin.Source

/-!
# From a capture to a decoder

A session of the sender has a track for every captured source, and on the other side every
source of the scene may be set to one stream. The tracks cross the connection with their
descriptions, and what ties the two ends together is the mid: the sender's number leads to the
track that was announced with the capture's mid, and the receiver finds the mid in the
description of the track that a packet comes on.

## Main definitions

* `Transports` — what the connection is relied on for
* `Receiver.received` — the packets that the sources get of some messages

## Main results

* `onTrackMessage_of_transports` — a message keeps its kind and its mid
* `set_up_of_created` — the tracks of a new session
* `capture_is_decoded` — a source set to the mids of two tracks decodes their packets and no
  others, and for a capture's track these are the packets that are pushed for the capture
-/

namespace Tether.EndToEnd

open Text Semantics Plugin

/-! ### The connection -/

/-- Every track of one side has a handle of its own on the other side, and a description with
its kind and its mid. -/
structure Transports (w : Webrtc) (link : ℤ → ℤ) (describe : TrackEntry → Bytes) : Prop where
  handles : ∀ t ∈ w.tracks, ∀ u ∈ w.tracks, link t.handle = link u.handle → t = u
  kind : ∀ t ∈ w.tracks, (strstr (bytes "m=video") (describe t)).isSome = t.isVideo
  mid : ∀ t ∈ w.tracks, Scanners.midOf (describe t) = some t.mid

section Receiver

variable (link : ℤ → ℤ) (describe : TrackEntry → Bytes)

/-- The connection of the receiver when these tracks have come in. -/
def incoming (order : List TrackEntry) : Webrtc :=
  order.foldl (fun w t => w.onTrack (link t.handle) (some (describe t))) .create

/-- A packet as the callbacks of a source are given it. -/
def forSource (arrival : Arrival) : PacketArrival :=
  let packet : MediaPacket := ⟨some arrival.packet.data, arrival.packet.pts, arrival.packet.mid⟩
  if arrival.isVideo then .video packet else .audio packet

/-- What a source gets of messages, which are listed with the sender's handles. -/
def received (receiver : Webrtc) (messages : List (ℤ × Bytes)) : List PacketArrival :=
  messages.filterMap fun message =>
    (receiver.onTrackMessage (link message.1) (some message.2) message.2.length).map forSource

end Receiver

variable {link : ℤ → ℤ} {describe : TrackEntry → Bytes} {w : Webrtc} {order : List TrackEntry}

/-- What the receiver knows of a track. -/
def summary (t : TrackEntry) : ℤ × Bool × Bytes := (t.handle, t.isVideo, t.mid)

/-- The tracks have come in with their kinds and mids. -/
theorem summary_incoming (transports : Transports w link describe)
    (fits : ∀ t ∈ w.tracks, Sender.Fits t.mid) (some_ : order ⊆ w.tracks) :
    (incoming link describe order).tracks.map summary =
      order.map fun t => (link t.handle, t.isVideo, t.mid) := by
  induction order using List.reverseRecOn with
  | nil => rfl
  | append_singleton before t ih =>
    obtain ⟨earlier, last⟩ := List.append_subset.mp some_
    have there : t ∈ w.tracks := last (List.mem_singleton_self t)
    have entry : summary ((incoming link describe before).entry (link t.handle)
        (strstr (bytes "m=video") (describe t)).isSome
        ((Scanners.midOf (describe t)).getD [])) = (link t.handle, t.isVideo, t.mid) := by
      rw [transports.kind t there, transports.mid t there]
      exact congrArg (fun mid => (link t.handle, t.isVideo, mid)) (fits t there)
    have grown : (incoming link describe (before ++ [t])).tracks =
        (incoming link describe before).tracks ++
          [(incoming link describe before).entry (link t.handle)
            (strstr (bytes "m=video") (describe t)).isSome
            ((Scanners.midOf (describe t)).getD [])] := by
      rw [incoming, List.foldl_append]
      rfl
    rw [grown, List.map_append, List.map_append, ih earlier, List.map_singleton, entry,
      List.map_singleton]

/-- A message with data becomes a packet of its track's kind, with its mid. -/
theorem onTrackMessage_of_transports (transports : Transports w link describe)
    (fits : ∀ t ∈ w.tracks, Sender.Fits t.mid) (all : order.Perm w.tracks)
    (distinct : w.tracks.Nodup) {t : TrackEntry} (there : t ∈ w.tracks) (data : Bytes) :
    (incoming link describe order).onTrackMessage (link t.handle) (some data) data.length =
      if data = [] then none else some ⟨t.isVideo, data, 0, some t.mid⟩ := by
  have summaries := summary_incoming transports fits (fun _ => all.mem_iff.mp)
  have handles : (incoming link describe order).tracks.map (·.handle) =
      order.map fun t => link t.handle := by
    have firsts := congrArg (List.map Prod.fst) summaries
    rwa [List.map_map, List.map_map] at firsts
  have keys : ((incoming link describe order).tracks.map (·.handle)).Nodup := by
    rw [handles]
    refine (all.nodup_iff.mpr distinct).map_on fun t first u second same => ?_
    exact transports.handles t (all.mem_iff.mp first) u (all.mem_iff.mp second) same
  have came : (link t.handle, t.isVideo, t.mid) ∈
      (incoming link describe order).tracks.map summary := by
    rw [summaries]
    exact List.mem_map_of_mem (all.mem_iff.mpr there)
  obtain ⟨e, member, same⟩ := List.mem_map.mp came
  obtain ⟨handle, rest⟩ := Prod.mk.inj same
  obtain ⟨kind, mid⟩ := Prod.mk.inj rest
  have found := find?_key keys member
  rw [handle] at found
  rw [Webrtc.onTrackMessage, found]
  by_cases empty : data = []
  · rw [if_pos empty, if_pos (by simp [empty])]
  · have positive := List.length_pos_iff.mpr empty
    rw [if_neg empty, if_neg (by omega), Int.toNat_natCast, List.take_length, ← kind, ← mid]

/-! ### What is decoded -/

/-- The packets of a kind, without empty ones. -/
def packetsOf (isVideo : Bool) (deliveries : List PacketArrival) : List MediaPacket :=
  if isVideo then videoPackets deliveries else audioPackets deliveries

theorem packetsOf_append (isVideo : Bool) (first second : List PacketArrival) :
    packetsOf isVideo (first ++ second) = packetsOf isVideo first ++ packetsOf isVideo second := by
  cases isVideo <;> exact List.filterMap_append

/-- A packet with data is one of its kind. -/
theorem packetsOf_forSource (isVideo kind : Bool) {data : Bytes} (text : data ≠ [])
    (mid : Option Bytes) :
    packetsOf isVideo [forSource ⟨kind, data, 0, mid⟩] =
      if kind = isVideo then [⟨some data, 0, mid⟩] else [] := by
  have present : (⟨some data, 0, mid⟩ : MediaPacket).present = true := by
    simp [MediaPacket.present, text]
  cases isVideo <;> cases kind <;>
    simp [packetsOf, forSource, videoPackets, audioPackets, present]

/-- The packets that come of the messages on a track, empty ones left out. -/
def packetsOn (handle : ℤ) (mid : Bytes) (messages : List (ℤ × Bytes)) : List MediaPacket :=
  (messages.filter fun message => message.1 = handle ∧ message.2 ≠ []).map
    fun message => ⟨some message.2, 0, some mid⟩

theorem packetsOn_cons (handle : ℤ) (mid : Bytes) (message : ℤ × Bytes)
    (rest : List (ℤ × Bytes)) :
    packetsOn handle mid (message :: rest) =
      (if message.1 = handle ∧ message.2 ≠ [] then [⟨some message.2, 0, some mid⟩] else []) ++
        packetsOn handle mid rest := by
  by_cases here : message.1 = handle ∧ message.2 ≠ [] <;> simp [packetsOn, here]

/-- Of the packets of a track's kind, those that pass with its mid selected are those of its
messages. -/
theorem passes_received (transports : Transports w link describe)
    (fits : ∀ t ∈ w.tracks, Sender.Fits t.mid) (all : order.Perm w.tracks)
    (mids : (w.tracks.map (·.mid)).Nodup) {u : TrackEntry} (there : u ∈ w.tracks)
    (set : u.mid ≠ []) {messages : List (ℤ × Bytes)}
    (ofTracks : ∀ message ∈ messages, ∃ t ∈ w.tracks, t.handle = message.1) :
    (packetsOf u.isVideo (received link (incoming link describe order) messages)).filter
        (MediaPacket.passes (some u.mid)) = packetsOn u.handle u.mid messages := by
  have distinct : w.tracks.Nodup := List.Nodup.of_map _ mids
  induction messages with
  | nil => cases u.isVideo <;> rfl
  | cons message rest ih =>
    obtain ⟨first, others⟩ := List.forall_mem_cons.mp ofTracks
    obtain ⟨t, member, handle⟩ := first
    obtain ⟨h, data⟩ := message
    obtain rfl : t.handle = h := handle
    have arrives := onTrackMessage_of_transports transports fits all distinct member data
    by_cases empty : data = []
    · have nothing : received link (incoming link describe order) ((t.handle, data) :: rest) =
          received link (incoming link describe order) rest := by
        rw [received, List.filterMap_cons, arrives, if_pos empty]
        rfl
      rw [nothing, ih others, packetsOn_cons, if_neg fun both => both.2 empty, List.nil_append]
    · have heard : received link (incoming link describe order) ((t.handle, data) :: rest) =
          [forSource ⟨t.isVideo, data, 0, some t.mid⟩] ++
            received link (incoming link describe order) rest := by
        rw [received, List.filterMap_cons, arrives, if_neg empty]
        rfl
      rw [heard, packetsOf_append, List.filter_append, ih others,
        packetsOf_forSource _ _ empty, packetsOn_cons]
      by_cases here : t = u
      · subst here
        have passed : (⟨some data, 0, some t.mid⟩ : MediaPacket).passes (some t.mid) = true :=
          (passes_some_iff set _).mpr (.inr rfl)
        rw [if_pos rfl, if_pos ⟨rfl, empty⟩, List.filter_cons_of_pos passed, List.filter_nil]
      -- another track has another mid, and another handle
      · have otherHandle : t.handle ≠ u.handle := fun same =>
          here (transports.handles t member u there (congrArg link same))
        have otherMid : t.mid ≠ u.mid := fun same => here (key_inj mids member there same)
        have dropped : ¬ (⟨some data, 0, some t.mid⟩ : MediaPacket).passes (some u.mid) = true := by
          rw [passes_some_iff set]
          simpa using otherMid
        have elsewhere : ¬ (t.handle = u.handle ∧ data ≠ []) := fun both => otherHandle both.1
        rw [if_neg elsewhere]
        split_ifs
        · rw [List.filter_cons_of_neg dropped, List.filter_nil]
        · rw [List.filter_nil]

/-! ### The tracks of a session -/

/-- The tracks that a new session is set up with, at any time. -/
theorem set_up_of_created {cfg : SenderConfig} {fresh : Sender} (rtcAddTrackEx : ℕ → ℤ)
    (found : ℕ → Bool) (created : Sender.create cfg = some fresh)
    (videos : cfg.videoSourceNames.length < sizeMod)
    (audios : cfg.audioSourceNames.length < sizeMod) (events : List Sender.Event) :
    let s := fresh.after events
    let w := (s.createTracks rtcAddTrackEx found).1
    Sender.SetUp rtcAddTrackEx s (s.createTracks rtcAddTrackEx found) ∧
      (s.captures.map (·.mid)).Nodup ∧ (w.tracks.map (·.mid)).Nodup ∧
      (∀ cap ∈ s.captures, cap.mid ≠ [] ∧ Sender.Fits cap.mid) ∧
      ∀ t ∈ w.tracks, t.mid ≠ [] ∧ Sender.Fits t.mid := by
  intro s w
  have captures : s.captures = (Sender.resolveSources cfg).mapIdx Sender.capture :=
    (fresh.after_captures events).1.trans (Sender.captures_of_create created).1
  have audioNames : s.audioSourceNames = cfg.audioSourceNames :=
    (fresh.after_captures events).2.trans (Sender.captures_of_create created).2
  have named : ∀ cap ∈ s.captures, cap.mid ≠ [] ∧ Sender.Fits cap.mid := by
    intro cap member
    rw [captures] at member
    obtain ⟨i, _, rfl⟩ := List.mem_mapIdx.mp member
    exact ⟨List.cons_ne_nil _ _, Sender.fits_numbered _ _⟩
  have setUp : Sender.SetUp rtcAddTrackEx s (s.createTracks rtcAddTrackEx found) :=
    Sender.createTracks_spec (fun cap member => (named cap member).1)
      fun cap member => (named cap member).2
  have length := Sender.resolveSources_length_le cfg
  have positive : 0 < sizeMod := by decide
  refine ⟨setUp, ?_, setUp.nodup_mids captures (by omega) (by rwa [audioNames]), named, ?_⟩
  · rw [captures]
    exact Sender.nodup_captureMids (by omega)
  · intro t member
    constructor
    · obtain ⟨videos, audios, tracks, sublist, numbers⟩ := setUp.tracks
      rw [tracks] at member
      rcases List.mem_append.mp member with video | audio
      · obtain ⟨cap, there, same⟩ := List.mem_map.mp (sublist.subset (List.mem_map_of_mem video))
        rw [← same]
        exact (named cap there).1
      · obtain ⟨n, -, mid⟩ := numbers t audio
        rw [mid]
        exact List.cons_ne_nil _ _
    · obtain ⟨_, mid, _, same, _⟩ := setUp.sound.called t member
      rw [same]
      exact strncpy_strncpy 64 mid

/-- The messages that are sent for some pushes, each of packets for a capture. -/
def wire (r : Session) (w : Webrtc) (pushes : List (ℕ × List Bytes)) : List (ℤ × Bytes) :=
  pushes.flatMap fun push => (Sender.pushPackets r push.1 push.2).filterMap (Sender.sent w)

/-- The packets of a capture among them, without empty ones. -/
def pushedFor (i : ℕ) (pushes : List (ℕ × List Bytes)) : List Bytes :=
  (pushes.filter (·.1 = i)).flatMap fun push => push.2.filter (· ≠ [])

section Wire

variable {s : Sender} {rtcAddTrackEx : ℕ → ℤ} {after : Webrtc × List SourceEncoder}

/-- The track of a capture, if it could be added. -/
theorem track_of_capture (setUp : Sender.SetUp rtcAddTrackEx s after)
    (named : ∀ cap ∈ s.captures, cap.mid ≠ [] ∧ Sender.Fits cap.mid) {i : ℕ} {cap : VideoCapture}
    (here : s.captures[i]? = some cap) (added : 0 < rtcAddTrackEx i) :
    ∃ t ∈ after.1.tracks, t.handle = rtcAddTrackEx i ∧ t.isVideo = true ∧ t.mid = cap.mid := by
  obtain ⟨encoder, -, got⟩ := setUp.encoders i cap here
  have track := (got.resolve setUp.sound (named cap (List.mem_of_getElem? here)).2).2.1
  rw [if_pos added] at track
  exact ⟨_, track, rfl, rfl, rfl⟩

/-- On the track of a capture, the messages are the packets for the capture. -/
theorem wire_of_capture (setUp : Sender.SetUp rtcAddTrackEx s after)
    (named : ∀ cap ∈ s.captures, cap.mid ≠ [] ∧ Sender.Fits cap.mid)
    (distinct : (s.captures.map (·.mid)).Nodup)
    (handles : ∀ t ∈ after.1.tracks, ∀ u ∈ after.1.tracks, t.handle = u.handle → t = u)
    {i : ℕ} {cap : VideoCapture} (here : s.captures[i]? = some cap) (added : 0 < rtcAddTrackEx i)
    (peerId : Bytes) (pushes : List (ℕ × List Bytes)) :
    (wire (s.newSession peerId (after.2.map (·.videoTrackId))) after.1 pushes).filter
        (·.1 = rtcAddTrackEx i) =
      (pushedFor i pushes).map fun data => (rtcAddTrackEx i, data) := by
  have one (j : ℕ) (packets : List Bytes) :
      ((Sender.pushPackets (s.newSession peerId (after.2.map (·.videoTrackId))) j
          packets).filterMap (Sender.sent after.1)).filter (·.1 = rtcAddTrackEx i) =
        if j = i then (packets.filter (· ≠ [])).map fun data => (rtcAddTrackEx i, data)
        else [] := by
    cases capture : s.captures[j]? with
    | none =>
      have noEncoder : (s.newSession peerId (after.2.map (·.videoTrackId))).srcEncoders[j]? =
          none := by
        refine List.getElem?_mapIdx.trans ?_
        rw [capture, Option.map_none]
      have other : j ≠ i := by
        rintro rfl
        rw [here] at capture
        cases capture
      rw [if_neg other, Sender.pushPackets, noEncoder]
      rfl
    | some second =>
      obtain ⟨encoder, place, got⟩ := setUp.srcEncoders capture peerId
      obtain ⟨-, -, handle⟩ :=
        got.resolve setUp.sound (named second (List.mem_of_getElem? capture)).2
      rw [Sender.sent_pushPackets rfl place, handle]
      by_cases same : j = i
      · subst same
        rw [if_pos added, if_neg (by omega), if_pos rfl]
        exact List.filter_eq_self.mpr fun message member => by
          obtain ⟨data, -, rfl⟩ := List.mem_map.mp member
          exact decide_eq_true rfl
      · rw [if_neg same]
        refine List.filter_eq_nil_iff.mpr fun message member => ?_
        split_ifs at member with answered negative negative
        · cases member
        · obtain ⟨data, -, rfl⟩ := List.mem_map.mp member
          -- another capture's track has another mid, and so another handle
          obtain ⟨t, first, handle, -, mid⟩ := track_of_capture setUp named here added
          obtain ⟨u, second', handle', -, mid'⟩ :=
            track_of_capture setUp named capture answered
          intro twice
          have equal : u.handle = t.handle := by
            rw [handle, handle']
            simpa using twice
          have mids : second.mid = cap.mid := by
            rw [← mid', handles u second' t first equal, mid]
          have place : j < (s.captures.map (·.mid)).length := by
            rw [List.length_map]
            exact (List.getElem?_eq_some_iff.mp capture).1
          refine same ((List.getElem?_inj place distinct).mp ?_)
          rw [List.getElem?_map, List.getElem?_map, capture, here, Option.map_some,
            Option.map_some, mids]
        · cases member
        · exact absurd (by decide) negative
  induction pushes with
  | nil => rfl
  | cons push rest ih =>
    have cons : pushedFor i (push :: rest) =
        (if push.1 = i then push.2.filter (· ≠ []) else []) ++ pushedFor i rest := by
      by_cases same : push.1 = i <;> simp [pushedFor, same]
    rw [wire, List.flatMap_cons, List.filter_append, one, ← wire, ih, cons, List.map_append]
    split_ifs <;> rfl

end Wire

/-! ### From a capture to a decoder -/

/-- A source that is set to the mid of a capture and to that of an audio track decodes the
messages of these two tracks, in their order, and none of the others. What is sent on the
capture's track are the packets that are pushed for the capture, so that a connection which
loses none of them gives the decoder exactly these. -/
theorem capture_is_decoded {cfg : SenderConfig} {fresh : Sender}
    (created : Sender.create cfg = some fresh) (videos : cfg.videoSourceNames.length < sizeMod)
    (audios : cfg.audioSourceNames.length < sizeMod) (events : List Sender.Event)
    (rtcAddTrackEx : ℕ → ℤ) (found : ℕ → Bool) (peerId : Bytes) (link : ℤ → ℤ)
    (describe : TrackEntry → Bytes) (opusCreates : ℕ → ℕ → Bool) :
    let s := fresh.after events
    let w := (s.createTracks rtcAddTrackEx found).1
    let encoders := (s.createTracks rtcAddTrackEx found).2
    let r := s.newSession peerId (encoders.map (·.videoTrackId))
    ∀ order, Transports w link describe → order.Perm w.tracks →
      ∀ i cap, s.captures[i]? = some cap → 0 < rtcAddTrackEx i →
        ∀ audio ∈ w.tracks, audio.isVideo = false →
          ∀ messages, (∀ message ∈ messages, ∃ t ∈ w.tracks, t.handle = message.1) →
            let decoded := (TetherSource.create cap.mid audio.mid true).decodeAll opusCreates
              (received link (incoming link describe order) messages)
            h264Packets decoded = packetsOn (rtcAddTrackEx i) cap.mid messages ∧
              (opusCreates 48000 2 = true → opusPackets decoded =
                (packetsOn audio.handle audio.mid messages).map fun packet => (0, packet)) ∧
              ∀ pushes, messages.filter (·.1 = rtcAddTrackEx i) =
                  (wire r w pushes).filter (·.1 = rtcAddTrackEx i) →
                h264Packets decoded =
                  (pushedFor i pushes).map fun data => ⟨some data, 0, some cap.mid⟩ := by
  intro s w encoders r order transports all i cap here added audio member kind messages ofTracks
    decoded
  obtain ⟨setUp, distinct, mids, named, fit⟩ :=
    set_up_of_created rtcAddTrackEx found created videos audios events
  have fits : ∀ t ∈ w.tracks, Sender.Fits t.mid := fun t there => (fit t there).2
  obtain ⟨video, track, handle, isVideo, mid⟩ := track_of_capture setUp named here added
  have set : cap.mid ≠ [] := (named cap (List.mem_of_getElem? here)).1
  have chosen : (TetherSource.create cap.mid audio.mid true).videoMid = some cap.mid :=
    if_neg set
  have chosenAudio : (TetherSource.create cap.mid audio.mid true).audioMid = some audio.mid :=
    if_neg (fit audio member).1
  have pictures : h264Packets decoded = packetsOn (rtcAddTrackEx i) cap.mid messages := by
    have passed := passes_received transports fits all mids track (fit video track).1 ofTracks
    rw [isVideo, handle, mid] at passed
    rw [TetherSource.h264Packets_decodeAll opusCreates _ rfl, chosen]
    exact passed
  refine ⟨pictures, fun creates => ?_, fun pushes same => ?_⟩
  · have passed := passes_received transports fits all mids member (fit audio member).1 ofTracks
    rw [kind] at passed
    rw [TetherSource.opusPackets_decodeAll opusCreates _ rfl creates, chosenAudio]
    exact congrArg (List.map fun packet => ((0 : ℤ), packet)) passed
  · have sent := wire_of_capture setUp named distinct
      (fun t first u second equal => transports.handles t first u second (congrArg link equal))
      here added peerId pushes
    have both : (messages.filter fun message =>
        message.1 = rtcAddTrackEx i ∧ message.2 ≠ []) =
          (messages.filter (·.1 = rtcAddTrackEx i)).filter (·.2 ≠ []) := by
      rw [List.filter_filter]
      refine List.filter_congr fun message _ => ?_
      rw [Bool.decide_and, Bool.and_comm]
    have texts : (pushedFor i pushes).filter (· ≠ []) = pushedFor i pushes := by
      refine List.filter_eq_self.mpr fun data there => ?_
      obtain ⟨push, -, packet⟩ := List.mem_flatMap.mp there
      exact (List.mem_filter.mp packet).2
    rw [pictures, packetsOn, both, same, sent, List.filter_map, List.map_map]
    exact congrArg (List.map _) texts

/-- The description of a track, as far as it is read. -/
def mediaSection (t : TrackEntry) : Bytes :=
  bytes (if t.isVideo then "m=video" else "m=audio") ++
    bytes " 9 UDP/TLS/RTP/SAVPF 96\r\na=mid:" ++ t.mid ++ bytes "\r\na=sendonly\r\n"

/-- Two captures and some music, whose tracks come in the other way round. The decoder of the
first capture's source gets the first and the last packet. -/
theorem capture_is_decoded_twoCaptures :
    ∃ fresh, Sender.create Sender.twoCaptures = some fresh ∧
      let w := (fresh.createTracks (fun call => 41 + call) fun _ => true).1
      let source := TetherSource.create (bytes "video0") (bytes "audio3") true
      h264Packets (source.decodeAll (fun _ _ => true)
          (received (· + 100) (incoming (· + 100) mediaSection w.tracks.reverse)
            [(41, [1]), (42, [2]), (43, [3]), (41, [4])])) =
        [⟨some [1], 0, some (bytes "video0")⟩, ⟨some [4], 0, some (bytes "video0")⟩] := by
  refine ⟨_, rfl, ?_⟩
  have decoded := capture_is_decoded (rfl : Sender.create Sender.twoCaptures = some _)
    (by decide) (by decide) [] (fun call => 41 + call) (fun _ => true) (bytes "peer") (· + 100)
    mediaSection (fun _ _ => true) _ ⟨by decide, by decide, by decide⟩ (List.reverse_perm _) 0
    ⟨bytes "cam", bytes "video0"⟩ (by decide) (by decide)
    ⟨43, 3, false, bytes "audio3"⟩ (by decide) rfl [(41, [1]), (42, [2]), (43, [3]), (41, [4])]
    (by decide)
  exact decoded.2.2 [(0, [[1]]), (1, [[2]]), (0, [[4]])] (by decide)

end Tether.EndToEnd
