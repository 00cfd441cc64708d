import Tether.Plugin.ReceiveRegistry
import Tether.Plugin.Scanners
import Tether.Plugin.Tracks
import Tether.Semantics.Outputs

/-!
# Incoming streams

The tracks of a remote peer come with a description each, and their messages become packets of
the session that the connection belongs to. A session counts its packets and remembers the
streams that they have come on, which the properties of a source then list by their kind. Here
this goes on while the registry is used by everyone else.

## Main definitions

* `Webrtc.onTrack`, `Webrtc.onTrackMessage` — a track that comes in, and a message on it
* `RxSession.collectMidsLocked` — the streams of a kind
* `Receiving` — the registry, with the connection of every session
* `Receiving.arrivals` — the packets that a session gets along a run

## Main results

* `ReceiveRegistry.next_records` — what a call of the registry leaves of the records
* `Receiving.streams` — the streams that are listed are those that have delivered, under the
  kind of their tracks, and the statistics are sums over all packets
-/

namespace Tether.Plugin

open Text Semantics

/-! ### Tracks that come in -/

/-- A packet with the kind of its track. -/
structure Arrival where
  isVideo : Bool
  packet : Packet
  deriving DecidableEq

namespace Webrtc

/-- `on_track`; `desc` is what `rtcGetTrackDescription` has written, if it has written
anything. -/
def onTrack (tr : ℤ) (desc : Option Bytes) (w : Webrtc) : Webrtc :=
  let isVideo := desc.any fun desc => (strstr (bytes "m=video") desc).isSome
  let mid := (desc.bind Scanners.midOf).getD []
  { w with tracks := w.tracks ++ [w.entry tr isVideo mid], nextTrackId := w.nextTrackId + 1 }

/-- `on_track_message`: the packet that a message becomes. A text has a negative size. -/
def onTrackMessage (tr : ℤ) (msg : Option Bytes) (size : ℤ) (w : Webrtc) : Option Arrival :=
  match msg with
  | none => none
  | some msg =>
    if size ≤ 0 then none
    else
      match w.tracks.find? (·.handle = tr) with
      | some t => some ⟨t.isVideo, msg.take size.toNat, 0, some t.mid⟩
      -- the message of a track that is not known
      | none => some ⟨false, msg.take size.toNat, 0, none⟩

/-- A packet with a mid comes from a track that has the mid and the kind. -/
theorem onTrackMessage_mid {w : Webrtc} {tr size : ℤ} {msg : Option Bytes} {arrival : Arrival}
    {mid : Bytes} (arrives : w.onTrackMessage tr msg size = some arrival)
    (told : arrival.packet.mid = some mid) :
    ∃ t ∈ w.tracks, t.mid = mid ∧ t.isVideo = arrival.isVideo := by
  cases msg with
  | none => cases arrives
  | some msg =>
    rw [onTrackMessage] at arrives
    split_ifs at arrives
    cases found : w.tracks.find? (·.handle = tr) with
    | none =>
      rw [found] at arrives
      obtain rfl := Option.some.inj arrives
      cases told
    | some t =>
      rw [found] at arrives
      obtain rfl := Option.some.inj arrives
      exact ⟨t, List.mem_of_find?_eq_some found, Option.some.inj told, rfl⟩

end Webrtc

/-! ### Records of a session -/

namespace RxSession

/-- `collect_mids_locked`, and with it `tether_receive_session_video_mids` and
`tether_receive_session_audio_mids`. -/
def collectMidsLocked (s : RxSession) (wantVideo : Bool) : List Bytes :=
  (s.seenMids.filter (·.isVideo = wantVideo)).map (·.mid)

/-- What a session has recorded of its packets. -/
def records (s : RxSession) : List MidEntry × ReceiveStats := (s.seenMids, s.stats)

/-- `wrtc_video_cb` or `wrtc_audio_cb`, as far as the session is concerned. -/
def record (arrival : Arrival) (now : UInt64) (s : RxSession) : RxSession :=
  if arrival.isVideo then s.recordVideo arrival.packet now else s.recordAudio arrival.packet now

end RxSession

/-- A session in memory changes without its records. -/
theorem records_update {memory : ℕ → RxSession} {s : ℕ} {new : RxSession}
    (same : new.records = (memory s).records) (t : ℕ) :
    (Function.update memory s new t).records = (memory t).records := by
  rw [Function.update_apply]
  split_ifs with here
  · rw [same, here]
  · rfl

namespace ReceiveRegistry

/-- The packets of a connection. -/
def Event.isPacket : Event → Bool
  | .video _ _ _ | .audio _ _ _ => true
  | _ => false

theorem records_foldl (sessions : List ℕ) (memory : ℕ → RxSession) (t : ℕ) :
    (sessions.foldl (fun memory s => increment s memory) memory t).records =
      (memory t).records := by
  induction sessions generalizing memory with
  | nil => rfl
  | cons s rest ih =>
    rw [List.foldl_cons, ih]
    exact records_update (by rfl) t

variable {r : ReceiveRegistry}

/-- No session is new, and all have kept their records. -/
structure KeepsRecords (r other : ReceiveRegistry) : Prop where
  allocated : other.allocated = r.allocated
  records : ∀ t, (other.memory t).records = (r.memory t).records

theorem keepsRecords_proceed (i : ℕ) (call : Call) : r.KeepsRecords (r.proceed i call).1 := by
  cases call with
  | bump sub => exact ⟨rfl, records_update rfl⟩
  | visit rest => cases rest <;> exact ⟨rfl, fun _ => rfl⟩
  | release s caller =>
    rw [proceed, releaseLocked_eq]
    split_ifs <;> exact ⟨rfl, records_update rfl⟩
  | deliver delivery rest => cases rest <;> exact ⟨rfl, fun _ => rfl⟩
  | _ => exact ⟨rfl, fun _ => rfl⟩

/-- A call may set up a session, which has no records yet, and changes no others. -/
theorem next_records (r : ReceiveRegistry) {event : Event} (call : event.isPacket = false) :
    r.KeepsRecords (r.next event) ∨
      ∃ session : RxSession, session.records = RxSession.bzalloc.records ∧
        (r.next event).allocated = r.allocated + 1 ∧
        (r.next event).memory = Function.update r.memory r.allocated session := by
  cases event with
  | init =>
    left
    rw [next, step, ReceiveRegistry.init]
    split_ifs <;> exact ⟨rfl, fun _ => rfl⟩
  | get token connects =>
    have got := got_get r token connects
    rw [next, step]
    generalize r.get token connects = result at got
    cases got with
    | nothing => exact .inl ⟨rfl, fun _ => rfl⟩
    | found s => exact .inl ⟨rfl, records_update rfl⟩
    | created session _ _ made =>
      refine .inr ⟨session, ?_, rfl, rfl⟩
      rw [RxSession.sessionCreateLocked] at made
      split at made
      · cases made
      · split_ifs at made
        obtain rfl := Option.some.inj made
        rfl
  | release s =>
    left
    rw [next, step]
    split_ifs <;> exact ⟨rfl, fun _ => rfl⟩
  | subscribe s onVideo onAudio onState =>
    left
    rw [next, step]
    split_ifs
    · exact ⟨rfl, records_update rfl⟩
    · exact ⟨rfl, fun _ => rfl⟩
  | unsubscribe sub =>
    left
    rw [next, step]
    split_ifs
    · exact ⟨rfl, records_update rfl⟩
    · exact ⟨rfl, fun _ => rfl⟩
  | enumerate => exact .inl ⟨rfl, records_foldl r.sessions r.memory⟩
  | video s packet now => cases call
  | audio s packet now => cases call
  | state s newState =>
    left
    rw [next, step, setState]
    split_ifs
    · exact ⟨rfl, fun _ => rfl⟩
    · exact ⟨rfl, records_update rfl⟩
    · exact ⟨rfl, fun _ => rfl⟩
  | resume i =>
    left
    rw [next, step]
    cases r.calls[i]? with
    | none => exact ⟨rfl, fun _ => rfl⟩
    | some call => exact keepsRecords_proceed i call

end ReceiveRegistry

/-! ### Streams -/

/-- The kind of the first packet that has come on a stream. -/
def kindOf (mid : Bytes) (arrivals : List Arrival) : Option Bool :=
  (arrivals.find? (·.packet.mid = some mid)).map (·.isVideo)

/-- The data of all packets of a kind. -/
def dataOf (isVideo : Bool) (arrivals : List Arrival) : List Bytes :=
  (arrivals.filter (·.isVideo = isVideo)).map (·.packet.data)

theorem kindOf_concat (mid : Bytes) (arrivals : List Arrival) (arrival : Arrival) :
    kindOf mid (arrivals ++ [arrival]) =
      (kindOf mid arrivals).or
        (if arrival.packet.mid = some mid then some arrival.isVideo else none) := by
  rw [kindOf, kindOf, List.find?_append]
  cases arrivals.find? (·.packet.mid = some mid) with
  | some first => rfl
  | none =>
    by_cases here : arrival.packet.mid = some mid <;> simp [here]

theorem dataOf_concat (isVideo : Bool) (arrivals : List Arrival) (arrival : Arrival) :
    dataOf isVideo (arrivals ++ [arrival]) =
      dataOf isVideo arrivals ++
        if arrival.isVideo = isVideo then [arrival.packet.data] else [] := by
  rw [dataOf, List.filter_append, List.map_append]
  by_cases here : arrival.isVideo = isVideo <;> simp [dataOf, here]

/-- The packets of a kind have been counted, as far as the counters go. -/
structure Counted (isVideo : Bool) (packets octets : UInt64) (arrivals : List Arrival) : Prop where
  packets : packets = .ofNat (dataOf isVideo arrivals).length
  octets : octets = .ofNat (dataOf isVideo arrivals).flatten.length

theorem Counted.concat {isVideo : Bool} {packets octets : UInt64} {arrivals : List Arrival}
    (counted : Counted isVideo packets octets arrivals) {arrival : Arrival}
    (same : arrival.isVideo = isVideo) :
    Counted isVideo (packets + 1) (octets + .ofNat arrival.packet.data.length)
      (arrivals ++ [arrival]) := by
  constructor
  · rw [dataOf_concat, if_pos same, counted.packets, List.length_append, UInt64.ofNat_add]
    rfl
  · rw [dataOf_concat, if_pos same, counted.octets, List.flatten_append, List.length_append,
      UInt64.ofNat_add]
    simp

theorem Counted.skip {isVideo : Bool} {packets octets : UInt64} {arrivals : List Arrival}
    (counted : Counted isVideo packets octets arrivals) {arrival : Arrival}
    (other : arrival.isVideo ≠ isVideo) :
    Counted isVideo packets octets (arrivals ++ [arrival]) := by
  constructor
  · rw [dataOf_concat, if_neg other, List.append_nil, counted.packets]
  · rw [dataOf_concat, if_neg other, List.append_nil, counted.octets]

/-- The streams that are remembered are those that packets have come on, each once. -/
structure Remembered (seenMids : List MidEntry) (arrivals : List Arrival) : Prop where
  distinct : (seenMids.map (·.mid)).Nodup
  seen : ∀ mid isVideo, ⟨mid, isVideo⟩ ∈ seenMids ↔
    mid ≠ [] ∧ kindOf mid arrivals = some isVideo

theorem Remembered.concat {session : RxSession} {arrivals : List Arrival}
    (remembered : Remembered session.seenMids arrivals) {arrival : Arrival}
    (short : ∀ mid ∈ arrival.packet.mid, mid.length < 64) :
    Remembered (session.rememberMidLocked arrival.packet.mid arrival.isVideo).seenMids
      (arrivals ++ [arrival]) := by
  -- a packet that is not on a stream, or not the first on its stream, changes no kind
  have unchanged (same : ∀ mid ≠ [], kindOf mid (arrivals ++ [arrival]) = kindOf mid arrivals) :
      Remembered session.seenMids (arrivals ++ [arrival]) := by
    refine ⟨remembered.distinct, fun mid isVideo => ?_⟩
    rw [remembered.seen]
    exact and_congr_right fun set => by rw [same mid set]
  unfold RxSession.rememberMidLocked
  split
  · rename_i untold
    refine unchanged fun mid _ => ?_
    rw [kindOf_concat, untold, if_neg (by simp), Option.or_none]
  · rename_i empty
    refine unchanged fun mid set => ?_
    have other : ¬ (some [] : Option Bytes) = some mid := fun same =>
      set (Option.some.inj same).symm
    rw [kindOf_concat, empty, if_neg other, Option.or_none]
  · rename_i mid set told
    have nonempty : mid ≠ [] := by
      rintro rfl
      exact set rfl
    split_ifs with known
    · obtain ⟨entry, there, same⟩ := List.any_eq_true.mp known
      have same : entry.mid = mid := by simpa using same
      have kind := ((remembered.seen entry.mid entry.isVideo).mp there).2
      refine unchanged fun other _ => ?_
      rw [kindOf_concat, told]
      by_cases here : mid = other
      · rw [← here, ← same, kind, Option.some_or]
      · rw [if_neg (by simpa using here), Option.or_none]
    · have new : kindOf mid arrivals = none := by
        cases kind : kindOf mid arrivals with
        | none => rfl
        | some isVideo =>
          have there := (remembered.seen mid isVideo).mpr ⟨nonempty, kind⟩
          exact absurd (List.any_eq_true.mpr ⟨_, there, by simp⟩) known
      have whole : strncpy 64 mid = mid := strncpy_of_lt (short mid told)
      rw [whole]
      constructor
      · rw [List.map_append, List.map_singleton, ← List.concat_eq_append]
        refine remembered.distinct.concat fun twice => ?_
        obtain ⟨entry, there, same⟩ := List.mem_map.mp twice
        exact known (List.any_eq_true.mpr ⟨entry, there, by simpa using same⟩)
      · intro other isVideo
        rw [List.mem_append, List.mem_singleton, remembered.seen, kindOf_concat, told]
        by_cases here : mid = other
        · subst here
          simp [new, nonempty, eq_comm]
        · have elsewhere : ¬ other = mid := Ne.symm here
          simp [here, elsewhere]

/-! ### Connections of sessions -/

/-- The registry, and the connection that every session has been created with. -/
structure Receiving where
  registry : ReceiveRegistry
  peers : ℕ → Webrtc

namespace Receiving

inductive Event
  | call (event : ReceiveRegistry.Event)
  | track (s : ℕ) (tr : ℤ) (desc : Option Bytes)
  | message (s : ℕ) (tr : ℤ) (msg : Option Bytes) (size : ℤ) (now : UInt64)

/-- Nothing has been set up. -/
def start : Receiving := ⟨.start, fun _ => .create⟩

/-- The packet that an event brings to a session. -/
def arrival (s : ℕ) (r : Receiving) : Event → Option Arrival
  | .message dest tr msg size _ =>
    if dest = s ∧ r.registry.Exists s then (r.peers s).onTrackMessage tr msg size else none
  | .call _ | .track _ _ _ => none

/-- The registry's event for a packet. -/
def packetEvent (s : ℕ) (now : UInt64) (arrival : Arrival) : ReceiveRegistry.Event :=
  if arrival.isVideo then .video s arrival.packet now else .audio s arrival.packet now

def next (r : Receiving) : Event → Receiving
  | .call event =>
    -- packets come from the connections only
    if event.isPacket then r else { r with registry := r.registry.next event }
  | .track s tr desc =>
    if r.registry.Exists s then
      { r with peers := Function.update r.peers s ((r.peers s).onTrack tr desc) }
    else r
  | .message s tr msg size now =>
    match r.arrival s (.message s tr msg size now) with
    | none => r
    | some arrival => { r with registry := r.registry.next (packetEvent s now arrival) }

def after (events : List Event) : Receiving := run next start events

/-- The packets that a session gets along a run. -/
def arrivals (s : ℕ) (events : List Event) : List Arrival :=
  outputs next (fun r event => (arrival s r event).toList) start events

theorem after_concat (events : List Event) (event : Event) :
    after (events ++ [event]) = (after events).next event :=
  run_concat next start events event

theorem arrivals_concat (s : ℕ) (events : List Event) (event : Event) :
    arrivals s (events ++ [event]) =
      arrivals s events ++ (arrival s (after events) event).toList :=
  outputs_concat next _ start events event

/-! ### What a session records -/

/-- The tracks of a session's packets are there, and their mids fit. -/
structure Known (w : Webrtc) (arrivals : List Arrival) : Prop where
  short : ∀ t ∈ w.tracks, t.mid.length < 64
  told : ∀ arrival ∈ arrivals, ∀ mid ∈ arrival.packet.mid,
    ∃ t ∈ w.tracks, t.mid = mid ∧ t.isVideo = arrival.isVideo

theorem Known.onTrack {w : Webrtc} {arrivals : List Arrival} (known : Known w arrivals) (tr : ℤ)
    (desc : Option Bytes) : Known (w.onTrack tr desc) arrivals := by
  constructor
  · refine List.forall_mem_append.mpr ⟨known.short, List.forall_mem_singleton.mpr ?_⟩
    exact strncpy_length_lt (by decide) _
  · intro arrival member mid told
    obtain ⟨t, there, same⟩ := known.told arrival member mid told
    exact ⟨t, List.mem_append_left _ there, same⟩

theorem Known.concat {w : Webrtc} {arrivals : List Arrival} (known : Known w arrivals)
    {tr size : ℤ} {msg : Option Bytes} {arrival : Arrival}
    (arrives : w.onTrackMessage tr msg size = some arrival) :
    Known w (arrivals ++ [arrival]) := by
  refine ⟨known.short, List.forall_mem_append.mpr ⟨known.told, ?_⟩⟩
  exact List.forall_mem_singleton.mpr fun mid told => Webrtc.onTrackMessage_mid arrives told

/-- Everything that a session has recorded comes from its packets. -/
structure Recorded (session : RxSession) (arrivals : List Arrival) : Prop where
  remembered : Remembered session.seenMids arrivals
  video : Counted true session.stats.videoPackets session.stats.videoBytes arrivals
  audio : Counted false session.stats.audioPackets session.stats.audioBytes arrivals

theorem recorded_nil {session : RxSession} (none : session.records = RxSession.bzalloc.records) :
    Recorded session [] := by
  obtain ⟨seenMids, stats⟩ := Prod.mk.inj none
  refine ⟨?_, ?_, ?_⟩
  · rw [seenMids]
    exact ⟨List.nodup_nil, by simp [RxSession.bzalloc, kindOf]⟩
  · rw [stats]
    exact ⟨rfl, rfl⟩
  · rw [stats]
    exact ⟨rfl, rfl⟩

theorem Recorded.of_records {session other : RxSession} {arrivals : List Arrival}
    (recorded : Recorded session arrivals) (same : other.records = session.records) :
    Recorded other arrivals := by
  obtain ⟨seenMids, stats⟩ := Prod.mk.inj same
  refine ⟨?_, ?_, ?_⟩
  · rw [seenMids]
    exact recorded.remembered
  · rw [stats]
    exact recorded.video
  · rw [stats]
    exact recorded.audio

/-- A session with new statistics, and the packet's stream. -/
theorem Recorded.concat {session : RxSession} {arrivals : List Arrival}
    (recorded : Recorded session arrivals) {arrival : Arrival} (now : UInt64)
    (short : ∀ mid ∈ arrival.packet.mid, mid.length < 64) :
    Recorded (session.record arrival now) (arrivals ++ [arrival]) := by
  have stats (mid : Option Bytes) (isVideo : Bool) (s : RxSession) :
      (s.rememberMidLocked mid isVideo).stats = s.stats := by
    obtain ⟨seenMids, same⟩ := RxSession.rememberMidLocked_eq mid isVideo s
    rw [same]
  obtain ⟨isVideo, packet⟩ := arrival
  cases isVideo with
  | true =>
    rw [RxSession.record, if_pos rfl, RxSession.recordVideo]
    refine ⟨?_, ?_, ?_⟩
    · apply Remembered.concat
      · exact recorded.remembered
      · exact short
    · rw [stats]
      exact recorded.video.concat rfl
    · rw [stats]
      exact recorded.audio.skip (by simp)
  | false =>
    rw [RxSession.record, if_neg (by simp), RxSession.recordAudio]
    refine ⟨?_, ?_, ?_⟩
    · apply Remembered.concat
      · exact recorded.remembered
      · exact short
    · rw [stats]
      exact recorded.video.skip (by simp)
    · rw [stats]
      exact recorded.audio.concat rfl

/-! ### Along a run -/

/-- What is known of a session, whether it has been created yet or not. -/
structure Inv (s : ℕ) (r : Receiving) (arrivals : List Arrival) : Prop where
  recorded : Recorded (r.registry.memory s) arrivals
  known : Known (r.peers s) arrivals
  none_before : r.registry.allocated ≤ s → arrivals = []

/-- A packet is recorded by its session. -/
theorem next_packetEvent {registry : ReceiveRegistry} {s : ℕ} (there : registry.Exists s)
    (arrival : Arrival) (now : UInt64) :
    (registry.next (packetEvent s now arrival)).allocated = registry.allocated ∧
      (registry.next (packetEvent s now arrival)).memory =
        Function.update registry.memory s ((registry.memory s).record arrival now) := by
  obtain ⟨isVideo, packet⟩ := arrival
  cases isVideo <;>
    simp [packetEvent, ReceiveRegistry.next, ReceiveRegistry.step, there,
      ReceiveRegistry.videoCb, ReceiveRegistry.audioCb, ReceiveRegistry.modify,
      ReceiveRegistry.begin, RxSession.record]

theorem inv_start (s : ℕ) : Inv s start [] :=
  ⟨recorded_nil rfl, ⟨by simp [start, Webrtc.create], by simp⟩, fun _ => rfl⟩

/-- An event that brings nothing to a session and leaves its records alone. -/
theorem Inv.quiet {s : ℕ} {r other : Receiving} {arrivals : List Arrival} (inv : Inv s r arrivals)
    (same : (other.registry.memory s).records = (r.registry.memory s).records)
    (peer : other.peers s = r.peers s) (more : r.registry.allocated ≤ other.registry.allocated) :
    Inv s other arrivals := by
  refine ⟨inv.recorded.of_records same, ?_, fun before => inv.none_before (more.trans before)⟩
  rw [peer]
  exact inv.known

theorem Inv.next {s : ℕ} {r : Receiving} {arrivals : List Arrival} (inv : Inv s r arrivals)
    (event : Event) : Inv s (r.next event) (arrivals ++ (arrival s r event).toList) := by
  cases event with
  | call event =>
    rw [arrival, Option.toList_none, List.append_nil, Receiving.next]
    split_ifs with packet
    · exact inv
    rcases r.registry.next_records (by simpa using packet) with
      keeps | ⟨session, fresh, allocated, memory⟩
    · exact inv.quiet (keeps.records s) rfl keeps.allocated.ge
    · have more : r.registry.allocated ≤ (r.registry.next event).allocated :=
        allocated ▸ Nat.le_succ _
      by_cases here : s = r.registry.allocated
      -- no packet has come before the session was there
      · have none := inv.none_before here.ge
        have recorded : Recorded session arrivals := none ▸ recorded_nil fresh
        refine ⟨?_, inv.known, fun _ => none⟩
        change Recorded ((r.registry.next event).memory s) arrivals
        rwa [memory, here, Function.update_self]
      · refine inv.quiet ?_ rfl more
        change ((r.registry.next event).memory s).records = _
        rw [memory, Function.update_of_ne here]
  | track dest tr desc =>
    rw [arrival, Option.toList_none, List.append_nil, Receiving.next]
    split_ifs with there
    · by_cases here : s = dest
      · subst here
        refine ⟨inv.recorded, ?_, inv.none_before⟩
        change Known (Function.update r.peers s _ s) arrivals
        rw [Function.update_self]
        exact inv.known.onTrack tr desc
      · exact inv.quiet rfl (Function.update_of_ne here _ _) le_rfl
    · exact inv
  | message dest tr msg size now =>
    rw [Receiving.next]
    by_cases here : dest = s
    · subst here
      cases arrives : arrival dest r (.message dest tr msg size now) with
      | none =>
        rw [Option.toList_none, List.append_nil]
        exact inv
      | some packet =>
        rw [arrival] at arrives
        split_ifs at arrives with both
        obtain ⟨allocated, memory⟩ := next_packetEvent both.2 packet now
        have known := inv.known.concat arrives
        rw [Option.toList_some]
        refine ⟨?_, known, fun before => ?_⟩
        · change Recorded ((r.registry.next (packetEvent dest now packet)).memory dest) _
          rw [memory, Function.update_self]
          refine inv.recorded.concat now fun mid told => ?_
          obtain ⟨t, there, rfl, -⟩ :=
            known.told packet (List.mem_append_right _ (List.mem_singleton_self _)) mid told
          exact known.short t there
        · change (r.registry.next (packetEvent dest now packet)).allocated ≤ dest at before
          have exists_ := both.2.1
          omega
    · have elsewhere : arrival s r (.message dest tr msg size now) = none :=
        if_neg fun both => here both.1
      rw [elsewhere, Option.toList_none, List.append_nil]
      cases arrives : arrival dest r (.message dest tr msg size now) with
      | none => exact inv
      | some packet =>
        rw [arrival] at arrives
        split_ifs at arrives with both
        obtain ⟨allocated, memory⟩ := next_packetEvent both.2 packet now
        refine inv.quiet ?_ rfl allocated.ge
        change ((r.registry.next (packetEvent dest now packet)).memory s).records = _
        rw [memory, Function.update_of_ne (Ne.symm here)]

theorem inv_after (s : ℕ) (events : List Event) : Inv s (after events) (arrivals s events) := by
  induction events using history_induction with
  | base => exact inv_start s
  | step before event inv =>
    rw [after_concat, arrivals_concat]
    exact inv.next event

/-- However the registry is used meanwhile, a session lists the streams that have brought it
packets, each once and under the kind of its first packet, which is the kind of a track with
this mid. Its statistics are those of all the packets that it has got. -/
theorem streams (events : List Event) (s : ℕ) :
    let session := (after events).registry.memory s
    let arrived := arrivals s events
    (∀ isVideo mid, mid ∈ session.collectMidsLocked isVideo ↔
        mid ≠ [] ∧ kindOf mid arrived = some isVideo) ∧
      (session.collectMidsLocked true ++ session.collectMidsLocked false).Nodup ∧
      (∀ isVideo, ∀ mid ∈ session.collectMidsLocked isVideo, mid.length < 64 ∧
        ∃ t ∈ ((after events).peers s).tracks, t.mid = mid ∧ t.isVideo = isVideo) ∧
      Counted true session.stats.videoPackets session.stats.videoBytes arrived ∧
      Counted false session.stats.audioPackets session.stats.audioBytes arrived := by
  intro session arrived
  obtain ⟨recorded, known, -⟩ := inv_after s events
  have listed (isVideo : Bool) (mid : Bytes) : mid ∈ session.collectMidsLocked isVideo ↔
      mid ≠ [] ∧ kindOf mid arrived = some isVideo := by
    rw [← recorded.remembered.seen, RxSession.collectMidsLocked]
    simp only [List.mem_map, List.mem_filter, decide_eq_true_eq]
    constructor
    · rintro ⟨⟨mid, isVideo⟩, ⟨there, rfl⟩, rfl⟩
      exact there
    · intro there
      exact ⟨⟨mid, isVideo⟩, ⟨there, rfl⟩, rfl⟩
  have distinct (isVideo : Bool) : (session.collectMidsLocked isVideo).Nodup :=
    recorded.remembered.distinct.sublist (List.filter_sublist.map _)
  refine ⟨listed, ?_, fun isVideo mid there => ?_, recorded.video, recorded.audio⟩
  · refine (distinct true).append (distinct false) fun mid video audio => ?_
    have kinds := ((listed true mid).mp video).2.symm.trans ((listed false mid).mp audio).2
    exact absurd kinds (by simp)
  · -- the first packet of the stream tells its track
    obtain ⟨first, found, kind⟩ := Option.map_eq_some_iff.mp ((listed isVideo mid).mp there).2
    obtain ⟨t, track, same, video⟩ := known.told first (List.mem_of_find?_eq_some found) mid
      (by simpa using List.find?_some found)
    refine ⟨?_, t, track, same, video.trans kind⟩
    rw [← same]
    exact known.short t track

end Receiving

end Tether.Plugin
