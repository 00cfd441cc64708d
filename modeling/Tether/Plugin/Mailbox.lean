import Tether.Semantics.Cells
import Tether.Semantics.Outputs
import Tether.Semantics.Run

/-!
# The mailbox of captured frames

The graphics thread leaves the latest frame of each capture in a buffer, and a worker
takes it from there to encode it. Both hold `frame_lock` while they look at the buffers,
and the worker gives it up whenever it encodes a frame or has nothing to do. An event is
what one of them does while it holds the lock.

## Main definitions

* `Mailbox` — the buffers, and where the worker stands
* `Mailbox.step` — an event, and the frame that is encoded after it
* `framesOf` — the frames of a capture that have been completed
* `Mailbox.Tracks` — the buffers hold the last ones

## Main results

* `Mailbox.after_tracks` — no access leaves a buffer, and the buffers hold the last frames
* `Mailbox.latest_frame` — what is encoded is the latest frame, none of them twice, and
  the worker does not wait while there is one
-/

namespace Tether.Plugin

open Semantics

/-! ### Frames -/

/-- A frame as it is staged. -/
structure StagedFrame where
  width : UInt32
  height : UInt32
  linesize : UInt32
  bytes : List UInt8

/-- What `capture_one` meets: the source, its size, whether it can be rendered, and what is
mapped. -/
structure Rendering where
  found : Bool
  width : UInt32
  height : UInt32
  begins : Bool
  mapped : Option (UInt32 × (ℕ → UInt8))

/-- The length of a frame. -/
def frameNeed (linesize height : UInt32) : ℕ := sizeMul linesize.toNat height.toNat

/-- The frame that `capture_one` comes to copy, if it does. -/
def Rendering.frame? (rendering : Rendering) : Option StagedFrame :=
  if !rendering.found then none
  else if rendering.width = 0 ∨ rendering.height = 0 then none
  else if !rendering.begins then none
  else
    rendering.mapped.map fun (linesize, data) =>
      { width := rendering.width
        height := rendering.height
        linesize
        bytes := (List.range (frameNeed linesize rendering.height)).map data }

/-- `struct video_capture`, the part that `frame_lock` guards. -/
structure CaptureSlot where
  latestFrame : List UInt8
  latestFrameSize : ℕ
  latestFrameW : UInt32
  latestFrameH : UInt32
  latestFrameLinesize : UInt32
  frameReady : Bool

/-- As it is allocated. -/
def CaptureSlot.zero : CaptureSlot := ⟨[], 0, 0, 0, 0, false⟩

/-- The length of the frame in the buffer. -/
def CaptureSlot.need (cap : CaptureSlot) : ℕ :=
  frameNeed cap.latestFrameLinesize cap.latestFrameH

/-- A frame handed to `encode_capture_to_sessions`. -/
@[ext]
structure FrameSnapshot where
  index : ℕ
  bytes : List UInt8
  width : UInt32
  height : UInt32
  linesize : UInt32

/-- A frame of a capture as it should be handed on. -/
def StagedFrame.snapshot (frame : StagedFrame) (index : ℕ) : FrameSnapshot :=
  ⟨index, frame.bytes, frame.width, frame.height, frame.linesize⟩

/-- Where `encoder_worker_main` will go on when it has the lock. -/
inductive WorkerPhase
  /-- To look whether a frame is ready. -/
  | looking
  /-- Not before `frame_cond` is signalled. -/
  | waiting
  /-- Behind a capture whose frame is being encoded. -/
  | encoding (index : ℕ)
  | stopped
  deriving DecidableEq

/-- The captures, the worker, and the worker's own buffer. -/
structure Mailbox where
  captures : List CaptureSlot
  workerRunning : Bool
  phase : WorkerPhase
  buffer : List UInt8
  bufferCap : ℕ

/-- What a thread does while it holds `frame_lock`. -/
inductive FrameEvent
  /-- `capture_one` -/
  | capture (index : ℕ) (rendering : Rendering)
  /-- `encoder_worker_main` goes on. -/
  | worker
  /-- The worker's wait ends without a signal. -/
  | spurious
  /-- `tether_sender_release` -/
  | release

/-- A buffer that is replaced if it is too small; what it holds will be overwritten. -/
def reserve (need : ℕ) (buffer : List UInt8) (size : ℕ) : List UInt8 × ℕ :=
  if size < need then (List.replicate need 0, need) else (buffer, size)

/-- The frame is copied into the buffer of its capture. -/
def CaptureSlot.complete (cap : CaptureSlot) (frame : StagedFrame) : Option CaptureSlot :=
  let need := frameNeed frame.linesize frame.height
  let buffer := reserve need cap.latestFrame cap.latestFrameSize
  (Cells.copy need frame.bytes buffer.1).map fun written =>
    { latestFrame := written
      latestFrameSize := buffer.2
      latestFrameW := frame.width
      latestFrameH := frame.height
      latestFrameLinesize := frame.linesize
      frameReady := true }

/-- The first capture of a list whose frame is ready. -/
def firstReady (index : ℕ) : List CaptureSlot → Option (ℕ × CaptureSlot)
  | [] => none
  | cap :: rest => if cap.frameReady then some (index, cap) else firstReady (index + 1) rest

namespace Mailbox

variable (box : Mailbox)

/-- `pthread_cond_signal` and `pthread_cond_broadcast`: the worker does not wait any longer. -/
def signal : Mailbox :=
  -- a signal while nobody waits is lost
  if box.phase = .waiting then { box with phase := .looking } else box

/-- The loop over the captures from an index on, up to the next encoding or to the end. -/
def pass (index : ℕ) : Option (Mailbox × Option FrameSnapshot) :=
  match firstReady index (box.captures.drop index) with
  | none => some ({ box with phase := .looking }, none)
  | some (i, cap) =>
    let buffer := reserve cap.need box.buffer box.bufferCap
    (Cells.copy cap.need cap.latestFrame buffer.1).map fun written =>
      ({ box with
          captures := box.captures.set i { cap with frameReady := false }
          phase := .encoding i
          buffer := written
          bufferCap := buffer.2 },
        some
          { index := i
            bytes := written.take cap.need
            width := cap.latestFrameW
            height := cap.latestFrameH
            linesize := cap.latestFrameLinesize })

/-- The worker looks for a frame, and waits or stops if there is no reason to go on. -/
def look : Option (Mailbox × Option FrameSnapshot) :=
  if !box.workerRunning then
    some ({ box with phase := .stopped, buffer := [], bufferCap := 0 }, none)
  -- the predicate is checked again before each wait
  else if box.captures.any CaptureSlot.frameReady then box.pass 0
  else some ({ box with phase := .waiting }, none)

/-- An event, and the frame that is handed to `encode_capture_to_sessions` after it. -/
def step : FrameEvent → Option (Mailbox × Option FrameSnapshot)
  | .capture index rendering =>
    match box.captures[index]?, rendering.frame? with
    -- the copy, the flag and the signal are made under one lock
    | some cap, some frame =>
      (cap.complete frame).map fun filled =>
        ({ box with captures := box.captures.set index filled }.signal, none)
    | _, _ => some (box, none)
  | .worker =>
    match box.phase with
    | .looking => box.look
    | .waiting => some (box, none)
    | .encoding index => box.pass (index + 1)
    | .stopped => some (box, none)
  | .spurious => some (box.signal, none)
  | .release => some ({ box with workerRunning := false }.signal, none)

/-- A number of captures, as `tether_sender_create` leaves them, and the worker started. -/
def create (count : ℕ) : Mailbox where
  captures := List.replicate count .zero
  workerRunning := true
  phase := .looking
  buffer := []
  bufferCap := 0

/-- The mailbox after some events, if no access has left a buffer. -/
def after (count : ℕ) (events : List FrameEvent) : Option Mailbox :=
  run (fun box event => box.bind fun box => (box.step event).map Prod.fst) (some (create count))
    events

/-- The frame that is encoded after an event. -/
def encoded (count : ℕ) (before : List FrameEvent) (event : FrameEvent) : Option FrameSnapshot :=
  (after count before).bind fun box => (box.step event).bind Prod.snd

end Mailbox

/-- The frames of a capture that some events complete. -/
def framesOf (index : ℕ) (events : List FrameEvent) : List StagedFrame :=
  events.filterMap fun
    | .capture i rendering => if i = index then rendering.frame? else none
    | _ => none

theorem framesOf_concat (index : ℕ) (events : List FrameEvent) (event : FrameEvent) :
    framesOf index (events ++ [event]) = framesOf index events ++ framesOf index [event] :=
  List.filterMap_append

/-- An event that completes no frame of a capture. -/
theorem framesOf_quiet {index : ℕ} {events : List FrameEvent} {event : FrameEvent}
    (quiet : framesOf index [event] = []) :
    framesOf index (events ++ [event]) = framesOf index events := by
  rw [framesOf_concat, quiet, List.append_nil]

/-- A frame has as many bytes as its rows take. -/
theorem Rendering.length_frame {rendering : Rendering} {frame : StagedFrame}
    (completed : rendering.frame? = some frame) :
    frame.bytes.length = frameNeed frame.linesize frame.height := by
  rw [frame?] at completed
  split_ifs at completed
  obtain ⟨⟨linesize, data⟩, -, rfl⟩ := Option.map_eq_some_iff.mp completed
  simp

theorem length_reserve (need : ℕ) {size : ℕ} {buffer : List UInt8}
    (allocated : buffer.length = size) :
    (reserve need buffer size).1.length = (reserve need buffer size).2 ∧
      need ≤ (reserve need buffer size).2 := by
  rw [reserve]
  split_ifs with small
  · exact ⟨List.length_replicate, Nat.le_refl need⟩
  · exact ⟨allocated, Nat.not_lt.mp small⟩

/-! ### Buffers -/

/-- The frame in the buffer. -/
def CaptureSlot.held (cap : CaptureSlot) : StagedFrame where
  width := cap.latestFrameW
  height := cap.latestFrameH
  linesize := cap.latestFrameLinesize
  bytes := cap.latestFrame.take cap.need

/-- A capture's buffer holds the last of some frames. -/
structure CaptureSlot.Holds (cap : CaptureSlot) (frames : List StagedFrame) : Prop where
  allocated : cap.latestFrame.length = cap.latestFrameSize
  fresh : frames = [] → cap.frameReady = false
  last : ∀ frame ∈ frames.getLast?, cap.need ≤ cap.latestFrameSize ∧ cap.held = frame

theorem CaptureSlot.holds_zero : CaptureSlot.zero.Holds [] :=
  ⟨rfl, fun _ => rfl, by simp⟩

/-- A completed frame fits into the buffer and is held from then on. -/
theorem CaptureSlot.Holds.complete {cap : CaptureSlot} {frames : List StagedFrame}
    (holds : cap.Holds frames) {frame : StagedFrame}
    (length : frame.bytes.length = frameNeed frame.linesize frame.height) :
    ∃ filled, cap.complete frame = some filled ∧ filled.Holds (frames ++ [frame]) := by
  obtain ⟨allocated, enough⟩ :=
    length_reserve (frameNeed frame.linesize frame.height) holds.allocated
  have writable := Nat.le_trans enough (Nat.le_of_eq allocated.symm)
  obtain ⟨written, copied, taken, same⟩ := Cells.copy_eq (Nat.le_of_eq length.symm) writable
  refine ⟨_, by simp only [CaptureSlot.complete, copied, Option.map_some]; rfl,
    same.trans allocated, ?_, ?_⟩
  · intro none
    simp at none
  · intro last member
    rw [List.getLast?_concat, Option.mem_some_iff] at member
    subst member
    refine ⟨enough, ?_⟩
    rw [CaptureSlot.held, CaptureSlot.need, taken, ← length, List.take_length]

/-- Of a frame that is ready there is a last one. -/
theorem CaptureSlot.Holds.exists_last {cap : CaptureSlot} {frames : List StagedFrame}
    (holds : cap.Holds frames) (ready : cap.frameReady = true) :
    ∃ frame, frames.getLast? = some frame := by
  rcases List.eq_nil_or_concat frames with rfl | ⟨earlier, frame, rfl⟩
  · rw [holds.fresh rfl] at ready
    contradiction
  · exact ⟨frame, by rw [List.concat_eq_append, List.getLast?_concat]⟩

theorem CaptureSlot.Holds.clear {cap : CaptureSlot} {frames : List StagedFrame}
    (holds : cap.Holds frames) : ({ cap with frameReady := false } : CaptureSlot).Holds frames :=
  ⟨holds.allocated, fun _ => rfl, holds.last⟩

theorem firstReady_eq_some {start index : ℕ} {caps : List CaptureSlot} {cap : CaptureSlot}
    (first : firstReady start caps = some (index, cap)) :
    ∃ k, index = start + k ∧ caps[k]? = some cap ∧ cap.frameReady = true := by
  induction caps generalizing start with
  | nil => simp [firstReady] at first
  | cons head rest ih =>
    rw [firstReady] at first
    split_ifs at first with ready
    · obtain ⟨rfl, rfl⟩ := Prod.mk.inj (Option.some.inj first)
      exact ⟨0, rfl, rfl, ready⟩
    · obtain ⟨k, rfl, found, ready⟩ := ih first
      exact ⟨k + 1, by omega, found, ready⟩

/-- What is found in a list with one element replaced. -/
theorem getElem?_set_cases {xs : List CaptureSlot} {i j : ℕ} {x y : CaptureSlot}
    (found : (xs.set i x)[j]? = some y) : j = i ∧ y = x ∨ j ≠ i ∧ xs[j]? = some y := by
  rw [List.getElem?_set] at found
  split_ifs at found with same inside
  · exact .inl ⟨same.symm, (Option.some.inj found).symm⟩
  · exact .inr ⟨Ne.symm same, found⟩

namespace Mailbox

/-! ### Steps -/

/-- A frame of a capture is ready. -/
def Ready (box : Mailbox) (index : ℕ) : Prop :=
  ∃ cap, box.captures[index]? = some cap ∧ cap.frameReady = true

/-- After some events the buffers hold the last frames of their captures, and the worker does
not wait while one of them is ready. -/
structure Tracks (box : Mailbox) (events : List FrameEvent) : Prop where
  holds : ∀ index (cap : CaptureSlot), box.captures[index]? = some cap →
    cap.Holds (framesOf index events)
  own : box.buffer.length = box.bufferCap
  idle : box.phase = .waiting → ∀ index, ¬ box.Ready index

/-- What a step does: it encodes the last frame of a capture where one was ready, and a frame
becomes ready only by being completed. -/
structure Moves (box : Mailbox) (events : List FrameEvent) (event : FrameEvent) (next : Mailbox)
    (snapshot : Option FrameSnapshot) : Prop where
  tracks : next.Tracks (events ++ [event])
  latest : ∀ taken, snapshot = some taken →
    ∃ frame, (framesOf taken.index events).getLast? = some frame ∧
      taken = frame.snapshot taken.index
  once : ∀ taken, snapshot = some taken → box.Ready taken.index ∧ ¬ next.Ready taken.index
  quiet : ∀ index, next.Ready index → framesOf index [event] = [] → box.Ready index

variable {box : Mailbox} {events : List FrameEvent} {event : FrameEvent}

/-- An event that completes no frame of a capture there is, and leaves the captures alone. -/
theorem Tracks.idle_step (tracks : box.Tracks events) {next : Mailbox}
    (quiet : ∀ index, index < box.captures.length → framesOf index [event] = [])
    (same : next.captures = box.captures)
    (own : next.buffer.length = next.bufferCap)
    (idle : next.phase = .waiting → ∀ index, ¬ next.Ready index) :
    Moves box events event next none where
  tracks := by
    refine ⟨fun index cap found => ?_, own, idle⟩
    rw [same] at found
    rw [framesOf_quiet (quiet index (List.getElem?_eq_some_iff.mp found).1)]
    exact tracks.holds index cap found
  latest := by simp
  once := by simp
  quiet := by
    rintro index ⟨cap, found, ready⟩ -
    rw [same] at found
    exact ⟨cap, found, ready⟩

theorem signal_captures (box : Mailbox) : box.signal.captures = box.captures := by
  rw [signal]
  split_ifs <;> rfl

theorem signal_own (box : Mailbox) :
    box.signal.buffer = box.buffer ∧ box.signal.bufferCap = box.bufferCap := by
  rw [signal]
  split_ifs <;> exact ⟨rfl, rfl⟩

/-- After a signal the worker does not wait. -/
theorem signal_phase (box : Mailbox) : box.signal.phase ≠ .waiting := by
  rw [signal]
  split_ifs with waiting
  · simp
  · exact waiting

/-- The worker goes on with the captures from an index on. -/
theorem Tracks.pass (tracks : box.Tracks events) (quiet : ∀ index, framesOf index [event] = [])
    (index : ℕ) :
    ∃ next snapshot, box.pass index = some (next, snapshot) ∧
      Moves box events event next snapshot := by
  rw [Mailbox.pass]
  cases first : firstReady index (box.captures.drop index) with
  | none =>
    refine ⟨{ box with phase := .looking }, none, rfl, ?_⟩
    exact tracks.idle_step (fun j _ => quiet j) rfl tracks.own (by simp)
  | some found =>
    obtain ⟨i, cap⟩ := found
    obtain ⟨k, rfl, found, ready⟩ := firstReady_eq_some first
    rw [List.getElem?_drop] at found
    have holds := tracks.holds _ cap found
    obtain ⟨frame, last⟩ := holds.exists_last ready
    obtain ⟨enough, rfl⟩ := holds.last frame last
    obtain ⟨allocated, room⟩ := length_reserve cap.need tracks.own
    obtain ⟨written, copied, taken, length⟩ :=
      Cells.copy_eq (Nat.le_trans enough (Nat.le_of_eq holds.allocated.symm))
        (Nat.le_trans room (Nat.le_of_eq allocated.symm))
    -- the frame stays in its buffer, only the flag is taken back
    have cleared : ({ cap with frameReady := false } : CaptureSlot).Holds
        (framesOf (index + k) events) := holds.clear
    refine ⟨_, _, by simp only [copied, Option.map_some]; rfl, ⟨?_, length.trans allocated, ?_⟩,
      ?_, ?_, ?_⟩
    · intro j other found'
      rw [framesOf_quiet (quiet j)]
      obtain ⟨rfl, rfl⟩ | ⟨-, before⟩ := getElem?_set_cases found'
      · exact cleared
      · exact tracks.holds j other before
    · intro waiting
      contradiction
    · intro handed same
      obtain rfl := Option.some.inj same
      exact ⟨_, last, by rw [taken]; rfl⟩
    · intro handed same
      obtain rfl := Option.some.inj same
      refine ⟨⟨cap, found, ready⟩, ?_⟩
      rintro ⟨other, found', ready'⟩
      obtain ⟨-, rfl⟩ | ⟨different, -⟩ := getElem?_set_cases found'
      · contradiction
      · exact different rfl
    · rintro j ⟨other, found', ready'⟩ -
      obtain ⟨-, rfl⟩ | ⟨-, before⟩ := getElem?_set_cases found'
      · contradiction
      · exact ⟨other, before, ready'⟩

/-- The graphics thread completes a frame. -/
theorem Tracks.complete (tracks : box.Tracks events) {index : ℕ} {rendering : Rendering}
    {cap : CaptureSlot} (found : box.captures[index]? = some cap) {frame : StagedFrame}
    (completed : rendering.frame? = some frame) :
    ∃ filled, cap.complete frame = some filled ∧
      Moves box events (.capture index rendering)
        ({ box with captures := box.captures.set index filled } : Mailbox).signal none := by
  obtain ⟨filled, copied, holds⟩ :=
    (tracks.holds index cap found).complete (Rendering.length_frame completed)
  have here : framesOf index [.capture index rendering] = [frame] := by
    simp [framesOf, completed]
  have there {j : ℕ} (different : j ≠ index) : framesOf j [.capture index rendering] = [] := by
    simp [framesOf, Ne.symm different]
  obtain ⟨buffer, bufferCap⟩ :=
    signal_own { box with captures := box.captures.set index filled }
  refine ⟨filled, copied, ⟨?_, ?_, ?_⟩, by simp, by simp, ?_⟩
  · intro j other found'
    rw [signal_captures] at found'
    obtain ⟨rfl, rfl⟩ | ⟨different, before⟩ := getElem?_set_cases found'
    · rw [framesOf_concat, here]
      exact holds
    · rw [framesOf_quiet (there different)]
      exact tracks.holds j other before
  · rw [buffer, bufferCap]
    exact tracks.own
  · intro waiting
    exact absurd waiting (signal_phase _)
  · rintro j ⟨other, found', ready⟩ quiet
    rw [signal_captures] at found'
    obtain ⟨rfl, rfl⟩ | ⟨-, before⟩ := getElem?_set_cases found'
    · rw [here] at quiet
      contradiction
    · exact ⟨other, before, ready⟩

/-- The worker waits only if no frame is ready. -/
theorem Tracks.look (tracks : box.Tracks events) (quiet : ∀ index, framesOf index [event] = []) :
    ∃ next snapshot, box.look = some (next, snapshot) ∧ Moves box events event next snapshot := by
  rw [Mailbox.look]
  split_ifs with halted ready
  · exact ⟨_, none, rfl, tracks.idle_step (fun j _ => quiet j) rfl rfl (by simp)⟩
  · exact tracks.pass quiet 0
  · refine ⟨_, none, rfl, tracks.idle_step (fun j _ => quiet j) rfl tracks.own ?_⟩
    rintro - index ⟨cap, found, isReady⟩
    exact ready (List.any_eq_true.mpr ⟨cap, List.mem_of_getElem? found, isReady⟩)

/-- No event leaves a buffer. -/
theorem Tracks.step (tracks : box.Tracks events) (event : FrameEvent) :
    ∃ next snapshot, box.step event = some (next, snapshot) ∧
      Moves box events event next snapshot := by
  have unchanged {event : FrameEvent}
      (quiet : ∀ index, index < box.captures.length → framesOf index [event] = []) :
      Moves box events event box none :=
    tracks.idle_step quiet rfl tracks.own tracks.idle
  have signalled {event : FrameEvent} (quiet : ∀ index, framesOf index [event] = [])
      {next : Mailbox} (captures : next.captures = box.captures)
      (own : next.buffer.length = next.bufferCap) : Moves box events event next.signal none := by
    obtain ⟨buffer, bufferCap⟩ := signal_own next
    apply tracks.idle_step (fun j _ => quiet j) ((signal_captures next).trans captures)
    · rw [buffer, bufferCap]
      exact own
    · intro waiting
      exact absurd waiting (signal_phase next)
  cases event with
  | capture index rendering =>
    rw [Mailbox.step]
    cases found : box.captures[index]? with
    | none =>
      refine ⟨box, none, rfl, unchanged fun j inside => ?_⟩
      have different : index ≠ j := by
        rintro rfl
        exact absurd inside (Nat.not_lt.mpr (List.getElem?_eq_none_iff.mp found))
      simp [framesOf, different]
    | some cap =>
      cases completed : rendering.frame? with
      | none =>
        exact ⟨box, none, rfl, unchanged fun j _ => by simp [framesOf, completed]⟩
      | some frame =>
        obtain ⟨filled, copied, moves⟩ := tracks.complete found completed
        exact ⟨_, none, by simp only [copied, Option.map_some], moves⟩
  | worker =>
    have quiet (j : ℕ) : framesOf j [.worker] = [] := rfl
    rw [Mailbox.step]
    cases box.phase with
    | looking => exact tracks.look quiet
    | waiting => exact ⟨box, none, rfl, unchanged fun j _ => quiet j⟩
    | encoding index => exact tracks.pass quiet (index + 1)
    | stopped => exact ⟨box, none, rfl, unchanged fun j _ => quiet j⟩
  | spurious => exact ⟨_, none, rfl, signalled (fun _ => rfl) rfl tracks.own⟩
  | release => exact ⟨_, none, rfl, signalled (fun _ => rfl) rfl tracks.own⟩

/-! ### Runs -/

theorem tracks_create (count : ℕ) : (create count).Tracks [] where
  holds := by
    intro index cap found
    obtain rfl := List.eq_of_mem_replicate (List.mem_of_getElem? found)
    exact CaptureSlot.holds_zero
  own := rfl
  idle := by simp [create]

theorem after_concat (count : ℕ) (events : List FrameEvent) (event : FrameEvent) :
    after count (events ++ [event]) =
      (after count events).bind fun box => (box.step event).map Prod.fst :=
  run_concat _ _ events event

/-- No access ever leaves a buffer, and the buffers hold the last frames. -/
theorem after_tracks (count : ℕ) (events : List FrameEvent) :
    ∃ box, after count events = some box ∧ box.Tracks events := by
  induction events using history_induction with
  | base => exact ⟨_, rfl, tracks_create count⟩
  | step before event ih =>
    obtain ⟨box, reached, tracks⟩ := ih
    obtain ⟨next, snapshot, moved, moves⟩ := tracks.step event
    refine ⟨next, ?_, moves.tracks⟩
    rw [after_concat, reached, Option.bind_some, moved, Option.map_some]

/-- A capture without a frame that is ready has none until the next one is completed. -/
theorem frame_between {count index : ℕ} {before : List FrameEvent} {box : Mailbox}
    (reached : after count before = some box) (empty : ¬ box.Ready index)
    (between : List FrameEvent) {last : Mailbox}
    (later : after count (before ++ between) = some last) (ready : last.Ready index) :
    (framesOf index before).length < (framesOf index (before ++ between)).length := by
  -- forwards from the encoding: a frame that is ready now was ready before or has just come
  induction between using history_induction generalizing last with
  | base =>
    rw [List.append_nil, reached] at later
    obtain rfl := Option.some.inj later
    exact absurd ready empty
  | step between event ih =>
    obtain ⟨middle, reachedMiddle, tracks⟩ := after_tracks count (before ++ between)
    obtain ⟨next, snapshot, moved, moves⟩ := tracks.step event
    rw [← List.append_assoc, after_concat, reachedMiddle, Option.bind_some, moved,
      Option.map_some] at later
    obtain rfl := Option.some.inj later
    rw [← List.append_assoc, framesOf_concat, List.length_append]
    have grown : (framesOf index before).length ≤ (framesOf index (before ++ between)).length := by
      rw [framesOf, framesOf, List.filterMap_append, List.length_append]
      exact Nat.le_add_right _ _
    by_cases quiet : framesOf index [event] = []
    · have earlier := ih reachedMiddle (moves.quiet index ready quiet)
      omega
    · have completed := List.length_pos_iff.mpr quiet
      omega

/-- Whatever the threads do in whatever order, no access leaves a buffer; a frame that is
encoded is the last one of its capture, and a later one than any that was encoded before;
and the worker does not wait while a frame is ready. -/
theorem latest_frame (count : ℕ) (events : List FrameEvent) :
    (∃ box, after count events = some box ∧
      (box.phase = .waiting → ∀ cap ∈ box.captures, cap.frameReady = false)) ∧
    (∀ before event later snapshot, events = before ++ event :: later →
      encoded count before event = some snapshot →
      ∃ frame, (framesOf snapshot.index before).getLast? = some frame ∧
        snapshot = frame.snapshot snapshot.index) ∧
    (∀ before event between event' later snapshot snapshot',
      events = before ++ event :: between ++ event' :: later →
      encoded count before event = some snapshot →
      encoded count (before ++ event :: between) event' = some snapshot' →
      snapshot.index = snapshot'.index →
      (framesOf snapshot.index before).length <
        (framesOf snapshot.index (before ++ event :: between)).length) := by
  refine ⟨?_, ?_, ?_⟩
  · obtain ⟨box, reached, tracks⟩ := after_tracks count events
    refine ⟨box, reached, fun waiting cap member => ?_⟩
    obtain ⟨index, found⟩ := List.getElem?_of_mem member
    by_contra ready
    exact tracks.idle waiting index ⟨cap, found, by simpa using ready⟩
  · intro before event later snapshot _ handed
    obtain ⟨box, reached, tracks⟩ := after_tracks count before
    obtain ⟨next, taken, moved, moves⟩ := tracks.step event
    rw [encoded, reached, Option.bind_some, moved] at handed
    exact moves.latest snapshot handed
  · intro before event between event' later snapshot snapshot' _ handed handed' same
    obtain ⟨box, reached, tracks⟩ := after_tracks count before
    obtain ⟨next, taken, moved, moves⟩ := tracks.step event
    rw [encoded, reached, Option.bind_some, moved] at handed
    obtain ⟨box', reached', tracks'⟩ := after_tracks count (before ++ event :: between)
    obtain ⟨next', taken', moved', moves'⟩ := tracks'.step event'
    rw [encoded, reached', Option.bind_some, moved'] at handed'
    -- right after the first encoding nothing is ready, before the second one something is
    have ready := (moves'.once snapshot' handed').1
    rw [← same] at ready
    have reachedNext : after count (before ++ [event]) = some next := by
      rw [after_concat, reached, Option.bind_some, moved, Option.map_some]
    have split : before ++ event :: between = before ++ [event] ++ between := by simp
    rw [split] at reached' ⊢
    have fresh := frame_between reachedNext (moves.once snapshot handed).2 between reached' ready
    have grown : (framesOf snapshot.index before).length ≤
        (framesOf snapshot.index (before ++ [event])).length := by
      rw [framesOf_concat, List.length_append]
      exact Nat.le_add_right _ _
    omega

/-- A row of one pixel. -/
def pixel (value : UInt8) : Rendering where
  found := true
  width := 1
  height := 1
  begins := true
  mapped := some (4, fun _ => value)

/-- Of two frames that come while the worker is busy with another capture, the second one is
encoded. -/
example :
    (encoded 2 [.capture 1 (pixel 7), .worker, .capture 0 (pixel 8), .capture 0 (pixel 9), .worker]
      .worker).map FrameSnapshot.bytes = some [9, 9, 9, 9] := by
  decide

/-! ### What is handed on -/

/-- The frames of a capture that are handed on to be encoded. -/
def handed (count index : ℕ) (events : List FrameEvent) : List FrameSnapshot :=
  (outputs (fun box event => box.bind fun box => (box.step event).map Prod.fst)
    (fun box event => (box.bind fun box => (box.step event).bind Prod.snd).toList)
    (some (create count)) events).filter (·.index = index)

theorem handed_concat (count index : ℕ) (before : List FrameEvent) (event : FrameEvent) :
    handed count index (before ++ [event]) = handed count index before ++
      (encoded count before event).toList.filter (·.index = index) := by
  rw [handed, outputs_concat, List.filter_append]
  rfl

/-- What has been handed on are completed frames in their order, and the last one is not among
them while it is ready. -/
theorem handed_sublist_dropLast (count index : ℕ) (events : List FrameEvent) :
    (handed count index events).Sublist
        ((framesOf index events).map (StagedFrame.snapshot · index)) ∧
      ∀ box, after count events = some box → box.Ready index →
        (handed count index events).Sublist
          ((framesOf index events).dropLast.map (StagedFrame.snapshot · index)) := by
  induction events using history_induction with
  | base =>
    refine ⟨List.Sublist.refl _, fun box reached ready => ?_⟩
    exact List.Sublist.refl _
  | step before event ih =>
    obtain ⟨sublist, shorter⟩ := ih
    obtain ⟨box, reached, tracks⟩ := after_tracks count before
    obtain ⟨next, snapshot, moved, moves⟩ := tracks.step event
    have reachedNext : after count (before ++ [event]) = some next := by
      rw [after_concat, reached, Option.bind_some, moved, Option.map_some]
    have here : encoded count before event = snapshot := by
      rw [encoded, reached, Option.bind_some, moved, Option.bind_some]
    have more : ((framesOf index before).map (StagedFrame.snapshot · index)).Sublist
        ((framesOf index (before ++ [event])).map (StagedFrame.snapshot · index)) := by
      rw [framesOf_concat, List.map_append]
      exact List.sublist_append_left _ _
    rw [handed_concat, here]
    by_cases taken : ∃ frame, snapshot = some frame ∧ frame.index = index
    · -- the last frame is handed on, and is not ready any more
      obtain ⟨frame, rfl, rfl⟩ := taken
      obtain ⟨ready, gone⟩ := moves.once frame rfl
      obtain ⟨staged, last, same⟩ := moves.latest frame rfl
      have grown : (handed count frame.index before ++ [frame]).Sublist
          ((framesOf frame.index before).map (StagedFrame.snapshot · frame.index)) := by
        rw [← List.dropLast_append_getLast? staged last, List.map_append, List.map_singleton,
          ← same]
        exact (shorter box reached ready).append (List.Sublist.refl _)
      have one : (some frame).toList.filter (·.index = frame.index) = [frame] := by simp
      rw [one]
      refine ⟨grown.trans more, fun other reached' ready' => ?_⟩
      rw [reachedNext] at reached'
      obtain rfl := Option.some.inj reached'
      exact absurd ready' gone
    · have none : snapshot.toList.filter (·.index = index) = [] := by
        refine List.filter_eq_nil_iff.mpr fun frame member same => taken ⟨frame, ?_, ?_⟩
        · exact Option.mem_toList.mp member
        · simpa using same
      rw [none, List.append_nil]
      refine ⟨sublist.trans more, fun other reached' ready' => ?_⟩
      rw [reachedNext] at reached'
      obtain rfl := Option.some.inj reached'
      by_cases quiet : framesOf index [event] = []
      · rw [framesOf_quiet quiet]
        exact shorter box reached (moves.quiet index ready' quiet)
      · -- it is the new frame that is ready
        obtain ⟨frame, one⟩ : ∃ frame, framesOf index [event] = [frame] := by
          obtain ⟨frame, rest, two⟩ := List.exists_cons_of_ne_nil quiet
          have few : (framesOf index [event]).length ≤ 1 := List.length_filterMap_le _ _
          rw [two] at few
          obtain rfl : rest = [] := List.length_eq_zero_iff.mp (by simpa using few)
          exact ⟨frame, two⟩
        rw [framesOf_concat, one, List.dropLast_concat]
        exact sublist

end Mailbox

end Tether.Plugin
