import Tether.Plugin.Sender
import Tether.Semantics.Cells
import Tether.Semantics.Lookup
import Tether.Text.Decimal

/-!
# Tracks

The tracks that a session of the sender is set up with: one for every captured source and
one for every audio source that is there. A track has a number, under which packets are
pushed, and a mid, under which the other side finds it. The number comes from a counter that
goes on when the WebRTC stack has added a track, the mid of a video track is that of its
capture, and the mid of an audio track comes from the counter again.

## Main definitions

* `TrackEntry`, `Webrtc` — a track, and the tracks of a peer connection
* `Webrtc.addVideoTrackEx`, `addAudioTrack`, `trackHandleFor`, `pushVideo` — what is done with
  them
* `Sender.createTracks` — the tracks that a new session has, and its encoders

## Main results

* `Webrtc.Sound.trackHandleFor_eq` — a number leads to the track it was given to
* `Sender.addCaptures_spec` — what each capture has got
* `Sender.track_identity` — numbers and mids are distinct, and a capture's packets go to the
  track with its mid
-/

namespace Tether.Plugin

open Text Semantics

/-! ### The tracks of a connection -/

/-- `struct track_entry` -/
structure TrackEntry where
  handle : ℤ
  trackId : ℤ
  isVideo : Bool
  mid : Bytes
  deriving DecidableEq

/-- The part of `struct tether_webrtc` that has to do with tracks. `announced` are the mids
that `rtcAddTrackEx` has been called with. -/
structure Webrtc where
  tracks : List TrackEntry
  nextTrackId : ℕ
  announced : List Bytes
  deriving DecidableEq

namespace Webrtc

/-- A new connection has no tracks. -/
def create : Webrtc := ⟨[], 1, []⟩

section Calls

-- What the calls of `rtcAddTrackEx` answer, by their number: a handle, or something that is
-- not positive if the track has not been added.
variable (rtcAddTrackEx : ℕ → ℤ) (w : Webrtc)

/-- The entry of the next track. -/
def entry (handle : ℤ) (isVideo : Bool) (mid : Bytes) : TrackEntry :=
  ⟨handle, w.nextTrackId, isVideo, strncpy 64 mid⟩

/-- What the two calls have in common. -/
def addTrack (isVideo : Bool) (mid : Bytes) : Webrtc × ℤ :=
  let tr := rtcAddTrackEx w.announced.length
  let called := { w with announced := w.announced ++ [mid] }
  if tr ≤ 0 then (called, -1)
  else
    ({ called with
        tracks := w.tracks ++ [w.entry tr isVideo mid]
        nextTrackId := w.nextTrackId + 1 },
      w.nextTrackId)

/-- `tether_webrtc_add_video_track_ex`, without the label. -/
def addVideoTrackEx (mid : Bytes) : Webrtc × ℤ :=
  w.addTrack rtcAddTrackEx true
    (if mid = [] then numbered 64 (bytes "video") w.tracks.length else mid)

/-- `tether_webrtc_add_audio_track`, without the label. -/
def addAudioTrack : Webrtc × ℤ :=
  w.addTrack rtcAddTrackEx false (numbered 64 (bytes "audio") w.nextTrackId)

end Calls

def trackHandleFor (w : Webrtc) (trackId : ℤ) : ℤ :=
  match w.tracks.find? (·.trackId = trackId) with
  | some t => t.handle
  | none => -1

/-- `tether_webrtc_push_video`: the handle that a message is sent to, and the message. -/
def pushVideo (w : Webrtc) (trackId : ℤ) (data : Bytes) : Option (ℤ × Bytes) :=
  if data = [] then none
  else
    let handle := w.trackHandleFor trackId
    if handle < 0 then none else some (handle, data)

/-! ### Numbers and handles -/

/-- The tracks that a connection has got: their numbers are distinct and have been given out,
and each has been added by a call with its mid. -/
structure Sound (rtcAddTrackEx : ℕ → ℤ) (w : Webrtc) : Prop where
  issued : ∀ t ∈ w.tracks, 0 < t.trackId ∧ t.trackId < w.nextTrackId
  distinct : (w.tracks.map (·.trackId)).Nodup
  called : ∀ t ∈ w.tracks, ∃ (call : ℕ) (mid : Bytes), w.announced[call]? = some mid ∧
    t.mid = strncpy 64 mid ∧ t.handle = rtcAddTrackEx call ∧ 0 < t.handle
  positive : 0 < w.nextTrackId
  few : w.nextTrackId ≤ w.announced.length + 1

variable {rtcAddTrackEx : ℕ → ℤ} {w : Webrtc}

theorem sound_create (rtcAddTrackEx : ℕ → ℤ) : Sound rtcAddTrackEx create :=
  ⟨by simp [create], by simp [create], by simp [create], by decide, by decide⟩

/-- A call that fails adds nothing, and any other adds one track with the next number. -/
theorem addTrack_cases (rtcAddTrackEx : ℕ → ℤ) (w : Webrtc) (isVideo : Bool) (mid : Bytes) :
    rtcAddTrackEx w.announced.length ≤ 0 ∧ w.addTrack rtcAddTrackEx isVideo mid =
        ({ w with announced := w.announced ++ [mid] }, -1) ∨
      0 < rtcAddTrackEx w.announced.length ∧ w.addTrack rtcAddTrackEx isVideo mid =
        ({ w with
            tracks := w.tracks ++ [w.entry (rtcAddTrackEx w.announced.length) isVideo mid]
            nextTrackId := w.nextTrackId + 1
            announced := w.announced ++ [mid] }, (w.nextTrackId : ℤ)) := by
  rw [addTrack]
  by_cases failed : rtcAddTrackEx w.announced.length ≤ 0
  · exact .inl ⟨failed, if_pos failed⟩
  · exact .inr ⟨Int.not_le.mp failed, if_neg failed⟩

theorem addTrack_announced (rtcAddTrackEx : ℕ → ℤ) (w : Webrtc) (isVideo : Bool) (mid : Bytes) :
    (w.addTrack rtcAddTrackEx isVideo mid).1.announced = w.announced ++ [mid] := by
  rcases addTrack_cases rtcAddTrackEx w isVideo mid with
    ⟨-, failed⟩ | ⟨-, added⟩
  · rw [failed]
  · rw [added]

theorem Sound.addTrack (sound : Sound rtcAddTrackEx w) (isVideo : Bool) (mid : Bytes) :
    Sound rtcAddTrackEx (w.addTrack rtcAddTrackEx isVideo mid).1 := by
  have earlier {call : ℕ} {old : Bytes} (was : w.announced[call]? = some old) :
      (w.announced ++ [mid])[call]? = some old := by
    rw [List.getElem?_append_left (List.getElem?_eq_some_iff.mp was).1, was]
  have few := sound.few
  rcases addTrack_cases rtcAddTrackEx w isVideo mid with ⟨-, failed⟩ | ⟨answered, added⟩
  · rw [failed]
    refine ⟨sound.issued, sound.distinct, fun t member => ?_, sound.positive, ?_⟩
    · obtain ⟨call, old, was, rest⟩ := sound.called t member
      exact ⟨call, old, earlier was, rest⟩
    · change w.nextTrackId ≤ (w.announced ++ [mid]).length + 1
      rw [List.length_append]
      omega
  · rw [added]
    refine ⟨fun t member => ?_, ?_, fun t member => ?_, Nat.succ_pos _, ?_⟩
    · change 0 < t.trackId ∧ t.trackId < (w.nextTrackId + 1 : ℕ)
      rcases List.mem_append.mp member with old | new
      · have bounds := sound.issued t old
        omega
      · obtain rfl := List.mem_singleton.mp new
        have positive := sound.positive
        change (0 : ℤ) < w.nextTrackId ∧ (w.nextTrackId : ℤ) < (w.nextTrackId + 1 : ℕ)
        omega
    · rw [List.map_append, List.map_singleton, ← List.concat_eq_append]
      refine sound.distinct.concat fun twice => ?_
      -- no track has the number that the counter shows
      obtain ⟨t, member, same⟩ := List.mem_map.mp twice
      have bound := (sound.issued t member).2
      rw [same] at bound
      exact Int.lt_irrefl w.nextTrackId bound
    · rcases List.mem_append.mp member with old | new
      · obtain ⟨call, mid', was, rest⟩ := sound.called t old
        exact ⟨call, mid', earlier was, rest⟩
      · obtain rfl := List.mem_singleton.mp new
        exact ⟨w.announced.length, mid, List.getElem?_concat_length, rfl, rfl, answered⟩
    · change w.nextTrackId + 1 ≤ (w.announced ++ [mid]).length + 1
      rw [List.length_append, List.length_singleton]
      omega

/-- A number leads to the track that it was given to. -/
theorem Sound.trackHandleFor_eq (sound : Sound rtcAddTrackEx w) {t : TrackEntry}
    (member : t ∈ w.tracks) : w.trackHandleFor t.trackId = t.handle := by
  rw [trackHandleFor, find?_key sound.distinct member]

/-- No track has the number of a failure. -/
theorem Sound.trackHandleFor_failed (sound : Sound rtcAddTrackEx w) :
    w.trackHandleFor (-1) = -1 := by
  have nothing : w.tracks.find? (·.trackId = -1) = none := by
    refine List.find?_eq_none.mpr fun t member same => ?_
    have positive := (sound.issued t member).1
    rw [decide_eq_true_eq] at same
    omega
  rw [trackHandleFor, nothing]

end Webrtc

/-! ### The tracks of a session -/

namespace Sender

section Set

-- `found` says which audio sources are there, by their place in the list.
variable (rtcAddTrackEx : ℕ → ℤ) (found : ℕ → Bool)

/-- The loop over the captures: the connection, and the encoders. -/
def addCaptures (w : Webrtc) : List VideoCapture → Webrtc × List SourceEncoder
  | [] => (w, [])
  | cap :: rest =>
    let (w, videoTrackId) := w.addVideoTrackEx rtcAddTrackEx cap.mid
    let (w, srcEncoders) := addCaptures w rest
    (w, ⟨videoTrackId, strncpy 64 cap.mid⟩ :: srcEncoders)

/-- `tether_audio_sender_attach`, as far as the connection is concerned. -/
def attach (w : Webrtc) (source : Bool) : Webrtc :=
  if source then (w.addAudioTrack rtcAddTrackEx).1 else w

/-- The loop over the audio sources, from a place on. -/
def attachSources (twitchStMode : Bool) (w : Webrtc) (place : ℕ) : List Bytes → Webrtc
  | [] => w
  | name :: rest =>
    -- strip host mic
    let skipped := twitchStMode && (strstr (bytes "Mic") name).isSome
    let w := if skipped then w else attach rtcAddTrackEx w (found place)
    attachSources twitchStMode w (place + 1) rest

/-- What `create_session` makes of a new connection: its tracks, and the encoders of the
session. -/
def createTracks (s : Sender) : Webrtc × List SourceEncoder :=
  let (w, srcEncoders) := addCaptures rtcAddTrackEx .create s.captures
  (attachSources rtcAddTrackEx found s.twitchStMode w 0 s.audioSourceNames, srcEncoders)

end Set

variable {rtcAddTrackEx : ℕ → ℤ} {found : ℕ → Bool} {w : Webrtc}

/-- A mid that fits into the entry of its track. -/
def Fits (mid : Bytes) : Prop := strncpy 64 mid = mid

theorem fits_numbered (stem : Bytes) (n : ℕ) : Fits (numbered 64 stem n) := strncpy_strncpy 64 _

/-- What the call for a capture has come to, the call with this number: a track with the
capture's mid, or nothing. -/
def Got (rtcAddTrackEx : ℕ → ℤ) (w : Webrtc) (call : ℕ) (cap : VideoCapture)
    (encoder : SourceEncoder) : Prop :=
  encoder.mid = strncpy 64 cap.mid ∧
    if 0 < rtcAddTrackEx call then
      ⟨rtcAddTrackEx call, encoder.videoTrackId, true, strncpy 64 cap.mid⟩ ∈ w.tracks
    else encoder.videoTrackId = -1

theorem Got.mono {call : ℕ} {cap : VideoCapture} {encoder : SourceEncoder} {later : Webrtc}
    (got : Got rtcAddTrackEx w call cap encoder) (more : w.tracks <+: later.tracks) :
    Got rtcAddTrackEx later call cap encoder := by
  refine ⟨got.1, ?_⟩
  have track := got.2
  split_ifs at track ⊢
  · exact more.subset track
  · exact track

/-- The encoder's number leads to what the call has answered, or nowhere. -/
theorem Got.resolve {call : ℕ} {cap : VideoCapture} {encoder : SourceEncoder}
    (got : Got rtcAddTrackEx w call cap encoder) (sound : w.Sound rtcAddTrackEx)
    (fits : Fits cap.mid) :
    encoder.mid = cap.mid ∧
      (if 0 < rtcAddTrackEx call then
        ⟨rtcAddTrackEx call, encoder.videoTrackId, true, cap.mid⟩ ∈ w.tracks
      else encoder.videoTrackId = -1) ∧
      w.trackHandleFor encoder.videoTrackId =
        if 0 < rtcAddTrackEx call then rtcAddTrackEx call else -1 := by
  obtain ⟨mid, track⟩ := got
  rw [fits] at mid track
  refine ⟨mid, track, ?_⟩
  split_ifs at track ⊢
  · exact sound.trackHandleFor_eq track
  · rw [track]
    exact sound.trackHandleFor_failed

/-- One call for each capture, in their order, and a track for each call that succeeds. -/
structure Served (rtcAddTrackEx : ℕ → ℤ) (w : Webrtc) (captures : List VideoCapture)
    (after : Webrtc × List SourceEncoder) : Prop where
  sound : after.1.Sound rtcAddTrackEx
  announced : after.1.announced = w.announced ++ captures.map (·.mid)
  tracks : ∃ added, after.1.tracks = w.tracks ++ added ∧
    (added.map (·.mid)).Sublist (captures.map fun cap => strncpy 64 cap.mid)
  encoders : ∀ i cap, captures[i]? = some cap → ∃ encoder, after.2[i]? = some encoder ∧
    Got rtcAddTrackEx after.1 (w.announced.length + i) cap encoder

theorem addCaptures_spec (sound : w.Sound rtcAddTrackEx) {captures : List VideoCapture}
    (named : ∀ cap ∈ captures, cap.mid ≠ []) :
    Served rtcAddTrackEx w captures (addCaptures rtcAddTrackEx w captures) := by
  induction captures generalizing w with
  | nil => exact ⟨sound, by simp [addCaptures], ⟨[], by simp [addCaptures]⟩, by simp⟩
  | cons cap rest ih =>
    obtain ⟨mid, others⟩ := List.forall_mem_cons.mp named
    have same : w.addVideoTrackEx rtcAddTrackEx cap.mid =
        w.addTrack rtcAddTrackEx true cap.mid := by
      rw [Webrtc.addVideoTrackEx, if_neg mid]
    have served := ih (sound.addTrack true cap.mid) others
    have announced := Webrtc.addTrack_announced rtcAddTrackEx w true cap.mid
    rw [addCaptures, same]
    -- the calls behind this one leave its track alone
    obtain ⟨added, tracks, mids⟩ := served.tracks
    refine ⟨served.sound, ?_, ?_, fun i => ?_⟩
    · rw [served.announced, announced, List.map_cons, List.append_assoc, List.singleton_append]
    · rcases Webrtc.addTrack_cases rtcAddTrackEx w true cap.mid with
        ⟨-, failed⟩ | ⟨-, succeeded⟩
      · refine ⟨added, ?_, mids.cons _⟩
        rw [tracks, failed]
      · refine ⟨w.entry (rtcAddTrackEx w.announced.length) true cap.mid :: added, ?_,
          mids.cons_cons _⟩
        rw [tracks, succeeded, List.append_assoc, List.singleton_append]
    · cases i with
      | zero =>
        intro first here
        obtain rfl := Option.some.inj here
        refine ⟨⟨_, _⟩, List.getElem?_cons_zero, rfl, ?_⟩
        rw [Nat.add_zero, tracks]
        rcases Webrtc.addTrack_cases rtcAddTrackEx w true cap.mid with
          ⟨answer, failed⟩ | ⟨answer, succeeded⟩
        · rw [if_neg (Int.not_lt.mpr answer), failed]
        · rw [if_pos answer, succeeded]
          exact List.mem_append_left added (List.mem_append_right _ (List.mem_singleton_self _))
      | succ i =>
        intro other there
        obtain ⟨encoder, here, got⟩ := served.encoders i other there
        refine ⟨encoder, here, ?_⟩
        rw [announced, List.length_append, List.length_singleton] at got
        have place : w.announced.length + 1 + i = w.announced.length + (i + 1) := by omega
        rwa [place] at got

/-- Some calls with audio mids, and no more than so many. -/
structure Attached (rtcAddTrackEx : ℕ → ℤ) (w after : Webrtc) (calls : ℕ) : Prop where
  sound : after.Sound rtcAddTrackEx
  announced : ∃ more, after.announced = w.announced ++ more ∧ (∀ mid ∈ more, Fits mid) ∧
    more.length ≤ calls
  tracks : ∃ added, after.tracks = w.tracks ++ added ∧
    ∀ t ∈ added, ∃ n : ℕ, t.trackId = n ∧ t.mid = numbered 64 (bytes "audio") n

theorem Attached.refl (sound : w.Sound rtcAddTrackEx) (calls : ℕ) :
    Attached rtcAddTrackEx w w calls :=
  ⟨sound, ⟨[], by simp, by simp, Nat.zero_le _⟩, [], by simp, by simp⟩

theorem Attached.trans {middle after : Webrtc} {first second : ℕ}
    (left : Attached rtcAddTrackEx w middle first)
    (right : Attached rtcAddTrackEx middle after second) :
    Attached rtcAddTrackEx w after (first + second) := by
  obtain ⟨called, announced, fits, count⟩ := left.announced
  obtain ⟨called', announced', fits', count'⟩ := right.announced
  obtain ⟨added, tracks, mids⟩ := left.tracks
  obtain ⟨added', tracks', mids'⟩ := right.tracks
  refine ⟨right.sound, ⟨called ++ called', ?_, ?_, ?_⟩, added ++ added', ?_, ?_⟩
  · rw [announced', announced, List.append_assoc]
  · exact List.forall_mem_append.mpr ⟨fits, fits'⟩
  · rw [List.length_append]
    exact Nat.add_le_add count count'
  · rw [tracks', tracks, List.append_assoc]
  · exact List.forall_mem_append.mpr ⟨mids, mids'⟩

theorem attach_spec (sound : w.Sound rtcAddTrackEx) (source : Bool) :
    Attached rtcAddTrackEx w (attach rtcAddTrackEx w source) 1 := by
  cases source with
  | false => exact .refl sound 1
  | true =>
    rw [attach, if_pos rfl, Webrtc.addAudioTrack]
    refine ⟨sound.addTrack _ _, ⟨_, Webrtc.addTrack_announced _ _ _ _, ?_, Nat.le_refl 1⟩, ?_⟩
    · exact List.forall_mem_singleton.mpr (fits_numbered _ _)
    · rcases Webrtc.addTrack_cases rtcAddTrackEx w false
        (numbered 64 (bytes "audio") w.nextTrackId) with ⟨-, failed⟩ | ⟨-, succeeded⟩
      · refine ⟨[], ?_, by simp⟩
        rw [failed, List.append_nil]
      · rw [succeeded]
        refine ⟨_, rfl, List.forall_mem_singleton.mpr ?_⟩
        exact ⟨w.nextTrackId, rfl, fits_numbered _ _⟩

theorem attachSources_spec (sound : w.Sound rtcAddTrackEx) (twitchStMode : Bool) (place : ℕ)
    (names : List Bytes) :
    Attached rtcAddTrackEx w (attachSources rtcAddTrackEx found twitchStMode w place names)
      names.length := by
  induction names generalizing w place with
  | nil => exact .refl sound 0
  | cons name rest ih =>
    rw [attachSources, List.length_cons, Nat.add_comm rest.length]
    split_ifs
    · exact (Attached.refl sound 1).trans (ih sound (place + 1))
    · have one := attach_spec sound (found place)
      exact one.trans (ih one.sound (place + 1))

/-- What the calls for a session have come to: those for the captures, and then those for the
audio sources. -/
structure SetUp (rtcAddTrackEx : ℕ → ℤ) (s : Sender) (after : Webrtc × List SourceEncoder) :
    Prop where
  sound : after.1.Sound rtcAddTrackEx
  announced : ∃ more, after.1.announced = s.captures.map (·.mid) ++ more ∧
    more.length ≤ s.audioSourceNames.length
  fits : ∀ mid ∈ after.1.announced, Fits mid
  tracks : ∃ videos audios, after.1.tracks = videos ++ audios ∧
    (videos.map (·.mid)).Sublist (s.captures.map (·.mid)) ∧
    ∀ t ∈ audios, ∃ n : ℕ, t.trackId = n ∧ t.mid = numbered 64 (bytes "audio") n
  encoders : ∀ i cap, s.captures[i]? = some cap → ∃ encoder, after.2[i]? = some encoder ∧
    Got rtcAddTrackEx after.1 i cap encoder

theorem createTracks_spec {s : Sender} (named : ∀ cap ∈ s.captures, cap.mid ≠ [])
    (fits : ∀ cap ∈ s.captures, Fits cap.mid) :
    SetUp rtcAddTrackEx s (s.createTracks rtcAddTrackEx found) := by
  have served := addCaptures_spec (Webrtc.sound_create rtcAddTrackEx) named
  have attached : Attached rtcAddTrackEx (addCaptures rtcAddTrackEx .create s.captures).1
      (s.createTracks rtcAddTrackEx found).1 s.audioSourceNames.length :=
    attachSources_spec served.sound s.twitchStMode 0 _
  obtain ⟨more, announced, short, count⟩ := attached.announced
  obtain ⟨audios, tracks, audio⟩ := attached.tracks
  obtain ⟨videos, served_tracks, video⟩ := served.tracks
  have whole : (s.createTracks rtcAddTrackEx found).1.announced =
      s.captures.map (·.mid) ++ more := by
    rw [announced, served.announced]
    rfl
  have mids : s.captures.map (fun cap => strncpy 64 cap.mid) = s.captures.map (·.mid) :=
    List.map_congr_left fits
  refine ⟨attached.sound, ⟨more, whole, count⟩, ?_, ⟨videos, audios, ?_, ?_, audio⟩,
    fun i cap here => ?_⟩
  · rw [whole]
    exact List.forall_mem_append.mpr ⟨List.forall_mem_map.mpr fits, short⟩
  · rw [tracks, served_tracks]
    rfl
  · rwa [mids] at video
  · obtain ⟨encoder, place, got⟩ := served.encoders i cap here
    refine ⟨encoder, place, ?_⟩
    rw [← Nat.zero_add i]
    exact got.mono (tracks ▸ List.prefix_append _ _)

/-! ### The captures of a sender -/

theorem callAdmission_captures (s : Sender) (op : Admission.Op) (connected : Connected) :
    (s.callAdmission op connected).1.captures = s.captures ∧
      (s.callAdmission op connected).1.audioSourceNames = s.audioSourceNames := by
  rw [callAdmission]
  rcases s.adm.perform op with ⟨adm, _ | peer⟩
  · exact ⟨rfl, rfl⟩
  · cases state : peer.state <;> cases connected <;>
      simp [onAdmissionChanged, createSession, state]

/-- No event changes what is captured. -/
theorem next_captures (s : Sender) (event : Event) :
    (s.next event).captures = s.captures ∧
      (s.next event).audioSourceNames = s.audioSourceNames := by
  have signaled (t : Sender) (evt : SignalingEvent) (msg : Msg) (now : UInt64)
      (connected : Connected) :
      (t.onSignalingEvent evt msg now connected).1.captures = t.captures ∧
        (t.onSignalingEvent evt msg now connected).1.audioSourceNames = t.audioSourceNames := by
    rcases msg with ⟨_ | peerId, _ | payload⟩ <;> cases evt <;>
      simp only [onSignalingEvent, callAdmission_captures, and_self]
    all_goals split <;> exact ⟨rfl, rfl⟩
  cases event with
  | message json now connected =>
    rw [next, handle, onMessage]
    split
    · exact ⟨rfl, rfl⟩
    · exact signaled _ _ _ _ _
  | accept peerId pin connected => exact s.callAdmission_captures _ _
  | reject peerId => exact s.callAdmission_captures _ _
  | disconnectPeer peerId => exact callAdmission_captures _ _ _
  | revokeToken => exact s.callAdmission_captures .revokeAll none
  | localSdp session sdpType sdp =>
    rw [next, handle]
    split <;> exact ⟨rfl, rfl⟩
  | localIce session candidate mid mlineIndex =>
    rw [next, handle]
    split <;> exact ⟨rfl, rfl⟩
  | sessionState session state =>
    rw [next, handle]
    split
    · exact ⟨rfl, rfl⟩
    · rw [sessionState]
      split_ifs
      · exact s.callAdmission_captures _ _
      · exact ⟨rfl, rfl⟩
  | frame capIdx output => exact ⟨rfl, rfl⟩

theorem after_captures (fresh : Sender) (events : List Event) :
    (fresh.after events).captures = fresh.captures ∧
      (fresh.after events).audioSourceNames = fresh.audioSourceNames := by
  have kept : ∀ (s : Sender) (event : Event),
      s.captures = fresh.captures ∧ s.audioSourceNames = fresh.audioSourceNames →
        (s.next event).captures = fresh.captures ∧
          (s.next event).audioSourceNames = fresh.audioSourceNames := by
    rintro s event ⟨captures, names⟩
    rw [(s.next_captures event).1, (s.next_captures event).2]
    exact ⟨captures, names⟩
  exact run_invariant next fresh kept ⟨rfl, rfl⟩ events

/-- The captures are as many as the names of the array, or there is a single one. -/
theorem captures_of_create {cfg : SenderConfig} {fresh : Sender}
    (created : create cfg = some fresh) :
    fresh.captures = (resolveSources cfg).mapIdx capture ∧
      fresh.audioSourceNames = cfg.audioSourceNames := by
  rw [create] at created
  split at created
  · cases created
  · rename_i first more captures
    obtain rfl := Option.some.inj created
    exact ⟨captures.symm, rfl⟩

theorem resolveSources_length_le (cfg : SenderConfig) :
    (resolveSources cfg).length ≤ max cfg.videoSourceNames.length 1 := by
  rw [resolveSources]
  split
  · have single : cfg.sourceName.toList.length ≤ 1 := by
      cases cfg.sourceName <;> simp
    exact ((List.length_filter_le _ _).trans single).trans (Nat.le_max_right _ _)
  · exact (List.length_filter_le _ _).trans (Nat.le_max_left _ _)

theorem nodup_numbered {stem : Bytes} (room : stem.length = 5) {numbers : List ℕ}
    (distinct : numbers.Nodup) (few : ∀ n ∈ numbers, n ≤ 2 * sizeMod) :
    (numbers.map (numbered 64 stem)).Nodup := by
  have digits {n : ℕ} (member : n ∈ numbers) : n < 10 ^ (64 - stem.length - 1) := by
    rw [room]
    exact Nat.lt_of_le_of_lt (few n member) (by decide)
  refine distinct.map_on fun m first n second same => ?_
  exact numbered_injective (by omega) (digits first) (digits second) same

/-- The mids of captures are distinct. -/
theorem nodup_captureMids {names : List Bytes} (few : names.length ≤ 2 * sizeMod) :
    ((names.mapIdx capture).map (·.mid)).Nodup := by
  have mids : (names.mapIdx capture).map (·.mid) =
      (List.range names.length).map (numbered 64 (bytes "video")) := by
    refine List.ext_getElem (by simp) fun i _ _ => ?_
    rw [List.getElem_map, List.getElem_mapIdx, List.getElem_map, List.getElem_range]
    rfl
  rw [mids]
  refine nodup_numbered (by decide) List.nodup_range fun n member => ?_
  rw [List.mem_range] at member
  omega

theorem audio_ne_video (m n : ℕ) :
    numbered 64 (bytes "audio") m ≠ numbered 64 (bytes "video") n := by
  intro same
  have letters : some (97 : UInt8) = some 118 := congrArg List.head? same
  exact absurd letters (by decide)

/-! ### Packets -/

/-- The message that an effect sends on this connection, and its handle. -/
def sent (w : Webrtc) : Effect → Option (ℤ × Bytes)
  | .pushVideo _ trackId data => w.pushVideo trackId data
  | _ => none

/-- All packets that are not empty are sent to the handle of the encoder's track, if it has
one. -/
theorem sent_pushPackets {r : Session} {wrtc i : ℕ} {encoder : SourceEncoder}
    (live : r.wrtc = some wrtc) (here : r.srcEncoders[i]? = some encoder) (w : Webrtc)
    (packets : List Bytes) :
    (pushPackets r i packets).filterMap (sent w) =
      if w.trackHandleFor encoder.videoTrackId < 0 then []
      else (packets.filter (· ≠ [])).map fun data =>
        (w.trackHandleFor encoder.videoTrackId, data) := by
  have pushed : (pushPackets r i packets).filterMap (sent w) =
      (packets.filter (· ≠ [])).filterMap (w.pushVideo encoder.videoTrackId) := by
    rw [pushPackets, live, here]
    exact List.filterMap_map
  have message {data : Bytes} (member : data ∈ packets.filter (· ≠ [])) :
      w.pushVideo encoder.videoTrackId data =
        if w.trackHandleFor encoder.videoTrackId < 0 then none
        else some (w.trackHandleFor encoder.videoTrackId, data) := by
    have text : data ≠ [] := by simpa using (List.mem_filter.mp member).2
    rw [Webrtc.pushVideo, if_neg text]
  rw [pushed, List.filterMap_congr fun data member => message member]
  split_ifs
  · exact List.filterMap_none _
  · exact congrFun List.filterMap_eq_map' _

/-! ### Track identity -/

variable {s : Sender} {after : Webrtc × List SourceEncoder} {names : List Bytes}

/-- Video mids come from distinct captures and audio mids from distinct numbers, and a mid of
one kind is none of the other. -/
theorem SetUp.nodup_mids (setUp : SetUp rtcAddTrackEx s after)
    (captures : s.captures = names.mapIdx capture) (videos : names.length ≤ sizeMod)
    (audios : s.audioSourceNames.length < sizeMod) : (after.1.tracks.map (·.mid)).Nodup := by
  obtain ⟨video, audio, tracks, sublist, numbered'⟩ := setUp.tracks
  obtain ⟨more, announced, count⟩ := setUp.announced
  have few := setUp.sound.few
  rw [announced, captures, List.length_append, List.length_map, List.length_mapIdx] at few
  have issued {t : TrackEntry} (member : t ∈ audio) :
      0 < t.trackId ∧ t.trackId < after.1.nextTrackId := by
    refine setUp.sound.issued t ?_
    rw [tracks]
    exact List.mem_append_right _ member
  have mids : audio.map (·.mid) =
      (audio.map (·.trackId.toNat)).map (numbered 64 (bytes "audio")) := by
    rw [List.map_map]
    refine List.map_congr_left fun t member => ?_
    obtain ⟨n, number, mid⟩ := numbered' t member
    rw [mid, Function.comp_apply, number, Int.toNat_natCast]
  have distinct : (audio.map (·.trackId.toNat)).Nodup := by
    have ids : (audio.map (·.trackId)).Nodup := by
      refine setUp.sound.distinct.sublist ?_
      rw [tracks, List.map_append]
      exact List.sublist_append_right _ _
    have same : (audio.map (·.trackId.toNat)).map (fun n : ℕ => (n : ℤ)) =
        audio.map (·.trackId) := by
      rw [List.map_map]
      exact List.map_congr_left fun t member =>
        Int.toNat_of_nonneg (Int.le_of_lt (issued member).1)
    refine List.Nodup.of_map (fun n : ℕ => (n : ℤ)) ?_
    rwa [same]
  rw [captures] at sublist
  rw [tracks, List.map_append, mids]
  refine List.Nodup.append (sublist.nodup (nodup_captureMids (by omega))) ?_ ?_
  · refine nodup_numbered (by decide) distinct fun n member => ?_
    obtain ⟨t, there, rfl⟩ := List.mem_map.mp member
    have bound := (issued there).2
    omega
  · intro mid ofVideo ofAudio
    obtain ⟨cap, member, rfl⟩ := List.mem_map.mp (sublist.subset ofVideo)
    obtain ⟨n, -, same⟩ := List.mem_map.mp ofAudio
    obtain ⟨i, _, rfl⟩ := List.mem_mapIdx.mp member
    exact audio_ne_video n i same

/-- A track has been added by a call with its mid, and its number leads to what that call has
answered. -/
theorem SetUp.handle (setUp : SetUp rtcAddTrackEx s after) {t : TrackEntry}
    (member : t ∈ after.1.tracks) :
    after.1.trackHandleFor t.trackId = t.handle ∧
      ∃ call : ℕ, after.1.announced[call]? = some t.mid ∧ rtcAddTrackEx call = t.handle := by
  obtain ⟨call, mid, was, same, handle, -⟩ := setUp.sound.called t member
  have short := setUp.fits mid (List.mem_of_getElem? was)
  refine ⟨setUp.sound.trackHandleFor_eq member, call, ?_, handle.symm⟩
  rw [was, same, short]

/-- The session has the encoder of a capture at the capture's place. -/
theorem SetUp.srcEncoders (setUp : SetUp rtcAddTrackEx s after) {i : ℕ} {cap : VideoCapture}
    (here : s.captures[i]? = some cap) (peerId : Bytes) :
    ∃ encoder, (s.newSession peerId (after.2.map (·.videoTrackId))).srcEncoders[i]? = some encoder ∧
      Got rtcAddTrackEx after.1 i cap encoder := by
  obtain ⟨encoder, place, got⟩ := setUp.encoders i cap here
  refine ⟨encoder, ?_, got⟩
  have number : (after.2.map (·.videoTrackId)).getD i (-1) = encoder.videoTrackId := by
    rw [List.getD_eq_getElem?_getD, List.getElem?_map, place]
    rfl
  refine List.getElem?_mapIdx.trans ?_
  rw [here, Option.map_some, number, ← got.1]

/-- A session's tracks have distinct numbers and distinct mids, and a number leads to the
handle that the call for its track has answered. The call for a capture comes at the
capture's place, and if it succeeds, it is its track that the capture's packets go to. -/
theorem track_identity {cfg : SenderConfig} {fresh : Sender} (created : create cfg = some fresh)
    (videos : cfg.videoSourceNames.length < sizeMod)
    (audios : cfg.audioSourceNames.length < sizeMod) (events : List Event)
    (rtcAddTrackEx : ℕ → ℤ) (found : ℕ → Bool) (peerId : Bytes) :
    let s := fresh.after events
    let w := (s.createTracks rtcAddTrackEx found).1
    let encoders := (s.createTracks rtcAddTrackEx found).2
    let r := s.newSession peerId (encoders.map (·.videoTrackId))
    (w.tracks.map (·.mid)).Nodup ∧ (w.tracks.map (·.trackId)).Nodup ∧
      (∀ t ∈ w.tracks, w.trackHandleFor t.trackId = t.handle ∧
        ∃ call : ℕ, w.announced[call]? = some t.mid ∧ rtcAddTrackEx call = t.handle) ∧
      w.trackHandleFor (-1) = -1 ∧
      ∀ i cap, s.captures[i]? = some cap →
        w.announced[i]? = some cap.mid ∧
        ∃ encoder, r.srcEncoders[i]? = some encoder ∧ encoder.mid = cap.mid ∧
          (if 0 < rtcAddTrackEx i then
            ⟨rtcAddTrackEx i, encoder.videoTrackId, true, cap.mid⟩ ∈ w.tracks
          else encoder.videoTrackId = -1) ∧
          ∀ packets, (pushPackets r i packets).filterMap (sent w) =
            if 0 < rtcAddTrackEx i then
              (packets.filter (· ≠ [])).map fun data => (rtcAddTrackEx i, data)
            else [] := by
  intro s w encoders r
  have captures : s.captures = (resolveSources cfg).mapIdx capture :=
    (fresh.after_captures events).1.trans (captures_of_create created).1
  have audioNames : s.audioSourceNames = cfg.audioSourceNames :=
    (fresh.after_captures events).2.trans (captures_of_create created).2
  have mid_of {cap : VideoCapture} (member : cap ∈ s.captures) : cap.mid ≠ [] ∧ Fits cap.mid := by
    rw [captures] at member
    obtain ⟨i, _, rfl⟩ := List.mem_mapIdx.mp member
    exact ⟨List.cons_ne_nil _ _, fits_numbered _ _⟩
  have setUp : SetUp rtcAddTrackEx s (w, encoders) :=
    createTracks_spec (fun _ member => (mid_of member).1) fun _ member => (mid_of member).2
  refine ⟨?_, setUp.sound.distinct, fun t member => setUp.handle member,
    setUp.sound.trackHandleFor_failed, fun i cap here => ⟨?_, ?_⟩⟩
  · have length := resolveSources_length_le cfg
    have positive : 0 < sizeMod := by decide
    refine setUp.nodup_mids captures (by omega) ?_
    rwa [audioNames]
  · obtain ⟨more, announced, -⟩ := setUp.announced
    rw [announced, List.getElem?_append_left, List.getElem?_map, here]
    · rfl
    · rw [List.length_map]
      exact (List.getElem?_eq_some_iff.mp here).1
  · obtain ⟨encoder, place, got⟩ := setUp.srcEncoders here peerId
    obtain ⟨mid, track, handle⟩ := got.resolve setUp.sound (mid_of (List.mem_of_getElem? here)).2
    refine ⟨encoder, place, mid, track, fun packets => ?_⟩
    rw [sent_pushPackets rfl place, handle]
    split_ifs with answered negative negative
    · omega
    · rfl
    · rfl
    · exact absurd negative (by decide)

/-- Two captures and an audio source. -/
def twoCaptures : SenderConfig where
  sourceName := none
  videoSourceNames := [bytes "cam", bytes "screen"]
  audioSourceNames := [bytes "music"]
  maxReceivers := 1
  tokenTtlMinutes := 30
  reusableToken := false
  twitchStMode := false

/-- The first track is refused, so that the second capture gets the first number. -/
theorem twoCaptures_identity :
    ∃ fresh, create twoCaptures = some fresh ∧
      let w := (fresh.createTracks (fun call => if call = 0 then -1 else 40 + call) fun _ => true).1
      w.tracks = [⟨41, 1, true, bytes "video1"⟩, ⟨42, 2, false, bytes "audio2"⟩] ∧
        (w.tracks.map (·.mid)).Nodup ∧ w.trackHandleFor 1 = 41 ∧ w.trackHandleFor (-1) = -1 := by
  refine ⟨_, rfl, by decide, ?_⟩
  have identity := track_identity (rfl : create twoCaptures = some _) (by decide) (by decide) []
    (fun call => if call = 0 then -1 else 40 + call) (fun _ => true) (bytes "peer")
  exact ⟨identity.1, by decide, identity.2.2.2.1⟩

end Sender

end Tether.Plugin
