import Tether.Js.Value
import Tether.Plugin.Control
import Tether.Semantics.Deferred
import Tether.Semantics.Outputs

/-!
# The sender dialog

The dialog creates a sender and shows its token and the peers that have knocked. The sender's
callbacks may come on any thread, so they only post to the event loop, which carries them out
on the dialog's own thread one by one. The dialog clears its display when the user revokes the
token, whatever is still to be carried out. What a row is selected for is its identifier.

## Main definitions

* `PeerItem`, `SenderDisplay`, `SenderDisplay.carryOut` — what is shown, and what a callback
  makes of it
* `SenderDialog`, `SenderDialog.next` — the dialog, with the callbacks that are under way
* `SenderDialog.atOnce` — a dialog whose callbacks do not wait
* `SenderDialog.Calm` — a revoke that finds nothing under way that shows again
* `SenderDialog.plane` — the control plane, if it were asked for the same

## Main results

* `settles_iff` — the display settles as if no callback had waited if and only if every revoke
  is calm
* `late_knock_listed` — a knock that a revoke finds under way is listed without a sender
* `lists_what_the_plane_lists` — if every revoke is calm, the dialog lists the peers of the
  control plane
-/

namespace Tether.Plugin

open Text Js Semantics

/-! ### The display -/

/-- An item of `peersList_`. -/
structure PeerItem where
  peerId : Str
  text : Str
  state : DialogState
  deriving DecidableEq

/-- The token field, its button and the list of peers. -/
structure SenderDisplay where
  token : Str
  copyEnabled : Bool
  items : List PeerItem
  deriving DecidableEq

/-- What is posted to the event loop. -/
inductive Notice
  | tokenIssued (token : Str)
  | pendingPeer (peerId name fp : Str)
  | peerState (peerId : Str) (state : DialogState)
  | peerGone (peerId : Str)

/-- The text in front of a separator, all of it if there is none. -/
def upTo (separator : Str) : Str → Str
  | [] => []
  | c :: rest => if separator <+: c :: rest then [] else c :: upTo separator rest

namespace PeerItem

/-- `postPendingPeer`, the new item. -/
def pending (peerId name fp : Str) : PeerItem where
  peerId := peerId
  text := (if name = [] then peerId else name) ++ str "  (" ++ fp ++ str ")"
  state := .waiting

def suffix : DialogState → Str
  | .peerConnected => str " — connected"
  | .failed => str " — failed"
  | .waiting => []

/-- `postPeerState`, the item of the peer. -/
def report (state : DialogState) (item : PeerItem) : PeerItem :=
  { item with text := upTo (str " — ") item.text ++ suffix state, state := state }

end PeerItem

namespace SenderDisplay

def blank : SenderDisplay := ⟨[], false, []⟩

/-- `postTokenIssued`, `postPendingPeer`, `postPeerState` and `postPeerGone`. -/
def carryOut (v : SenderDisplay) : Notice → SenderDisplay
  | .tokenIssued token => { v with token := token, copyEnabled := true }
  | .pendingPeer peerId name fp => { v with items := v.items ++ [.pending peerId name fp] }
  | .peerState peerId state =>
    { v with items := replaceFirst PeerItem.peerId peerId (PeerItem.report state) v.items }
  | .peerGone peerId => { v with items := v.items.eraseP (PeerItem.peerId · = peerId) }

end SenderDisplay

/-! ### The dialog -/

/-- The texts of `statusLabel_`. -/
inductive SenderStatus
  | idle
  | chooseSource
  | failedToStart
  | connecting
  | mixed (connected pending : ℕ)
  | connected (connected : ℕ)
  | pending (pending : ℕ)

/-- `class SenderDialog`, without its widgets for the choice of sources. -/
structure SenderDialog where
  sender : Option Sender
  shown : Deferred SenderDisplay Notice
  generateEnabled : Bool
  revokeEnabled : Bool
  status : SenderStatus

namespace SenderDialog

/-- What happens to the dialog. -/
inductive Event
  | generate (video audio : List Bytes) (twitch : Bool)
  /-- With what reaches the sender while it is revoked and released. -/
  | revoke (during : List Sender.Event)
  | accept (peerId : Str) (connected : Connected)
  | reject (peerId : Str)
  | disconnect (peerId : Str)
  | reaches (event : Sender.Event) (other : event ≠ .revokeToken)
  /-- The event loop carries out what has been posted first. -/
  | deliver
  /-- The dialog is closed; it comes back as a new one. -/
  | close

def fresh : SenderDialog where
  sender := none
  shown := ⟨.blank, []⟩
  generateEnabled := true
  revokeEnabled := false
  status := .idle

/-- `refreshStatusLabel` -/
def refreshStatusLabel (d : SenderDialog) : SenderDialog :=
  let connected := d.shown.view.items.countP (·.state = .peerConnected)
  let pending := d.shown.view.items.countP (·.state ≠ .peerConnected)
  { d with status :=
      if 0 < connected ∧ 0 < pending then .mixed connected pending
      else if 0 < connected then .connected connected
      else if 0 < pending then .pending pending
      else if d.sender.any fun s => s.currentToken ≠ [] then .idle
      else d.status }

section Steps

-- `QString::fromUtf8` and `QString::toUtf8`
variable (fromUtf8 : Bytes → Str) (toUtf8 : Str → Bytes)

/-- What a callback posts. -/
def posted : Sender.Effect → Option Notice
  | .onToken token => some (.tokenIssued (fromUtf8 token))
  | .onPending peerId name fp => some (.pendingPeer (fromUtf8 peerId) (fromUtf8 name) (fromUtf8 fp))
  | .onPeerState peerId state => some (.peerState (fromUtf8 peerId) state)
  | .onPeerGone peerId => some (.peerGone (fromUtf8 peerId))
  | _ => none

def notices (effects : List Sender.Effect) : List Notice := effects.filterMap (posted fromUtf8)

/-- What the sender posts while all this reaches it. -/
def said (s : Sender) (events : List Sender.Event) : List Notice :=
  notices fromUtf8 (outputs Sender.next (fun s event => (s.handle event).2) s events)

/-- The display and its queue, when something has happened to them. -/
def display (d : SenderDialog) (act : Deferred.Act Notice) : Deferred SenderDisplay Notice :=
  d.shown.next SenderDisplay.carryOut .blank act

/-- Something reaches the sender. -/
def tell (d : SenderDialog) (event : Sender.Event) : SenderDialog :=
  match d.sender with
  | none => d
  | some s =>
    { d with
      sender := some (s.handle event).1
      shown := d.display (.post (notices fromUtf8 (s.handle event).2)) }

/-- `onGenerateToken`. While its button is enabled there is no sender that would have to be
released. -/
def onGenerateToken (d : SenderDialog) (video audio : List Bytes) (twitch : Bool) :
    SenderDialog :=
  if video = [] then { d with sender := none, status := .chooseSource }
  else
    match Sender.create
      { TetherControl.senderConfig video audio with twitchStMode := twitch } with
    | none => { d with sender := none, status := .failedToStart }
    | some s =>
      { d with
        sender := some s
        generateEnabled := false
        revokeEnabled := true
        status := .connecting }

/-- `onRevokeToken` -/
def onRevokeToken (d : SenderDialog) (during : List Sender.Event) : SenderDialog where
  sender := none
  shown := d.display (.clear
    (d.sender.elim [] fun s => said fromUtf8 s (.revokeToken :: during)))
  generateEnabled := true
  revokeEnabled := false
  status := .idle

def next (d : SenderDialog) : Event → SenderDialog
  | .generate video audio twitch =>
    if d.generateEnabled then d.onGenerateToken video audio twitch else d
  | .revoke during => if d.revokeEnabled then d.onRevokeToken fromUtf8 during else d
  | .accept peerId connected => d.tell fromUtf8 (.accept (toUtf8 peerId) true connected)
  | .reject peerId => d.tell fromUtf8 (.reject (toUtf8 peerId))
  | .disconnect peerId => d.tell fromUtf8 (.disconnectPeer (toUtf8 peerId))
  | .reaches event _ => d.tell fromUtf8 event
  | .deliver =>
    let told := { d with shown := d.display .deliver }
    match d.shown.queue with
    | [] => told
    | .tokenIssued _ :: _ => { told with status := .idle }
    | _ :: _ => told.refreshStatusLabel
  | .close => fresh

def after (events : List Event) : SenderDialog := run (next fromUtf8 toUtf8) fresh events

/-- What the dialog shows when its event loop has caught up. -/
def caughtUp (events : List Event) : SenderDisplay :=
  (after fromUtf8 toUtf8 (events ++ List.replicate
    (after fromUtf8 toUtf8 events).shown.queue.length .deliver)).shown.view

/-! ### Without a queue -/

/-- What an event brings to the sender. -/
def Event.call? : Event → Option Sender.Event
  | .accept peerId connected => some (.accept (toUtf8 peerId) true connected)
  | .reject peerId => some (.reject (toUtf8 peerId))
  | .disconnect peerId => some (.disconnectPeer (toUtf8 peerId))
  | .reaches event _ => some event
  | .generate _ _ _ | .revoke _ | .deliver | .close => none

/-- The sender behind an event. -/
def senderAfter (sender : Option Sender) (e : Event) : Option Sender :=
  match e with
  | .generate video audio twitch =>
    if sender.isSome then sender
    else if video = [] then none
    else Sender.create { TetherControl.senderConfig video audio with twitchStMode := twitch }
  | .revoke _ | .close => none
  | e => (e.call? toUtf8).elim sender fun call => sender.map fun s => (s.handle call).1

/-- What an event does to the display. -/
def actOf (sender : Option Sender) (e : Event) : Deferred.Act Notice :=
  match e, sender with
  | .deliver, _ => .deliver
  | .close, _ => .restart
  | .revoke during, some s => .clear (said fromUtf8 s (.revokeToken :: during))
  | e, some s => .post ((e.call? toUtf8).elim [] fun call => notices fromUtf8 (s.handle call).2)
  | _, none => .post []

/-- The sender and the display if every callback were carried out where it comes from. -/
def atOnce (events : List Event) : Option Sender × SenderDisplay :=
  run (fun state e => (senderAfter toUtf8 state.1 e,
    Deferred.atOnce SenderDisplay.carryOut .blank state.2 (actOf fromUtf8 toUtf8 state.1 e)))
    (none, .blank) events

/-- What a revoke finds under way, and what comes up while the sender is released, shows
nothing when the display has been cleared. -/
def Calm (d : SenderDialog) (e : Event) : Prop :=
  ∀ during s, e = .revoke during → d.sender = some s →
    (d.shown.queue ++ said fromUtf8 s (.revokeToken :: during)).foldl
      SenderDisplay.carryOut .blank = .blank

instance (d : SenderDialog) : (e : Event) → Decidable (d.Calm fromUtf8 e)
  | .revoke during =>
    decidable_of_iff (∀ s ∈ d.sender,
      (d.shown.queue ++ said fromUtf8 s (.revokeToken :: during)).foldl
        SenderDisplay.carryOut .blank = .blank)
      (by
        constructor
        · rintro calm _ s ⟨⟩ present
          exact calm s present
        · intro calm s present
          exact calm during s rfl present)
  | .generate _ _ _ | .accept _ _ | .reject _ | .disconnect _ | .reaches _ _ | .deliver | .close =>
    isTrue fun _ _ revokes => by cases revokes

end Steps

/-- The buttons say whether there is a sender. -/
structure Enabled (d : SenderDialog) : Prop where
  generate : d.generateEnabled = d.sender.isNone
  revoke : d.revokeEnabled = d.sender.isSome

section Law

variable {fromUtf8 : Bytes → Str} {toUtf8 : Str → Bytes} {d : SenderDialog}

/-- What an event does, part by part. -/
structure Stepped (fromUtf8 : Bytes → Str) (toUtf8 : Str → Bytes) (d : SenderDialog) (e : Event)
    (after : SenderDialog) : Prop where
  sender : after.sender = senderAfter toUtf8 d.sender e
  shown : after.shown = d.display (actOf fromUtf8 toUtf8 d.sender e)
  enabled : after.Enabled

theorem display_nothing (d : SenderDialog) : d.display (.post []) = d.shown := by
  rw [display, Deferred.next, List.append_nil]

theorem senderAfter_of_call {e : Event} {call : Sender.Event} (calls : e.call? toUtf8 = some call)
    (sender : Option Sender) :
    senderAfter toUtf8 sender e = sender.map fun s => (s.handle call).1 := by
  cases e with
  | generate => cases calls
  | revoke => cases calls
  | deliver => cases calls
  | close => cases calls
  | _ =>
    obtain rfl := Option.some.inj calls
    rfl

theorem actOf_of_call {e : Event} {call : Sender.Event} (calls : e.call? toUtf8 = some call)
    (s : Sender) :
    actOf fromUtf8 toUtf8 (some s) e = .post (notices fromUtf8 (s.handle call).2) := by
  cases e with
  | generate => cases calls
  | revoke => cases calls
  | deliver => cases calls
  | close => cases calls
  | _ =>
    obtain rfl := Option.some.inj calls
    rfl

/-- Without a sender nothing is told. -/
theorem actOf_none {e : Event} {call : Sender.Event} (calls : e.call? toUtf8 = some call) :
    actOf fromUtf8 toUtf8 none e = .post [] := by
  cases e with
  | generate => cases calls
  | revoke => cases calls
  | deliver => cases calls
  | close => cases calls
  | _ => rfl

/-- A step that posts nothing leaves the display as it is. -/
theorem Stepped.of_quiet {e : Event} {after : SenderDialog}
    (sender : after.sender = senderAfter toUtf8 d.sender e)
    (quiet : actOf fromUtf8 toUtf8 d.sender e = .post []) (shown : after.shown = d.shown)
    (enabled : after.Enabled) : Stepped fromUtf8 toUtf8 d e after := by
  refine ⟨sender, ?_, enabled⟩
  rw [quiet, display_nothing, shown]

theorem stepped_tell (enabled : d.Enabled) {e : Event} {call : Sender.Event}
    (calls : e.call? toUtf8 = some call) :
    Stepped fromUtf8 toUtf8 d e (d.tell fromUtf8 call) := by
  rw [tell]
  cases present : d.sender with
  | none =>
    refine .of_quiet ?_ ?_ rfl enabled
    · rw [senderAfter_of_call calls, present]
      rfl
    · rw [present, actOf_none calls]
  | some s =>
    refine ⟨?_, ?_, ?_, ?_⟩
    · rw [senderAfter_of_call calls, present]
      rfl
    · rw [present, actOf_of_call calls]
    · rw [enabled.generate, present]
      rfl
    · rw [enabled.revoke, present]
      rfl

/-- A sender that is created has not said anything yet. -/
theorem actOf_generate (sender : Option Sender) (video audio : List Bytes) (twitch : Bool) :
    actOf fromUtf8 toUtf8 sender (.generate video audio twitch) = .post [] := by
  cases sender <;> rfl

theorem stepped_generate (enabled : d.Enabled) (video audio : List Bytes) (twitch : Bool) :
    Stepped fromUtf8 toUtf8 d (.generate video audio twitch)
      (d.next fromUtf8 toUtf8 (.generate video audio twitch)) := by
  rw [next, enabled.generate]
  cases present : d.sender with
  | some s =>
    -- the button is disabled
    rw [Option.isNone_some, if_neg Bool.false_ne_true]
    refine .of_quiet ?_ (actOf_generate _ _ _ _) rfl enabled
    rw [present]
    rfl
  | none =>
    rw [Option.isNone_none, if_pos rfl, onGenerateToken]
    have on : d.generateEnabled = true := by rw [enabled.generate, present]; rfl
    have off : d.revokeEnabled = false := by rw [enabled.revoke, present]; rfl
    by_cases nothing : video = []
    · rw [if_pos nothing]
      refine .of_quiet ?_ (actOf_generate _ _ _ _) rfl ⟨on, off⟩
      rw [senderAfter, present, Option.isSome_none, if_neg Bool.false_ne_true, if_pos nothing]
    · have creates : senderAfter toUtf8 d.sender (.generate video audio twitch) = Sender.create
          { TetherControl.senderConfig video audio with twitchStMode := twitch } := by
        rw [senderAfter, present, Option.isSome_none, if_neg Bool.false_ne_true, if_neg nothing]
      rw [if_neg nothing]
      split
      · rename_i failed
        refine .of_quiet ?_ (actOf_generate _ _ _ _) rfl ⟨on, off⟩
        rw [creates, failed]
      · rename_i s created
        refine .of_quiet ?_ (actOf_generate _ _ _ _) rfl ⟨rfl, rfl⟩
        rw [creates, created]

theorem stepped_revoke (enabled : d.Enabled) (during : List Sender.Event) :
    Stepped fromUtf8 toUtf8 d (.revoke during) (d.next fromUtf8 toUtf8 (.revoke during)) := by
  rw [next, enabled.revoke]
  cases present : d.sender with
  | none =>
    rw [Option.isSome_none, if_neg Bool.false_ne_true]
    refine .of_quiet ?_ ?_ rfl enabled
    · rw [present]
      rfl
    · rw [present]
      rfl
  | some s =>
    rw [Option.isSome_some, if_pos rfl]
    refine ⟨rfl, ?_, rfl, rfl⟩
    rw [present, onRevokeToken, present]
    rfl

variable (fromUtf8 toUtf8) in
theorem stepped (enabled : d.Enabled) (e : Event) :
    Stepped fromUtf8 toUtf8 d e (d.next fromUtf8 toUtf8 e) := by
  cases e with
  | generate video audio twitch => exact stepped_generate enabled video audio twitch
  | revoke during => exact stepped_revoke enabled during
  | accept peerId connected => exact stepped_tell enabled rfl
  | reject peerId => exact stepped_tell enabled rfl
  | disconnect peerId => exact stepped_tell enabled rfl
  | reaches event other => exact stepped_tell enabled rfl
  | deliver =>
    have told : Stepped fromUtf8 toUtf8 d .deliver { d with shown := d.display .deliver } := by
      refine ⟨rfl, ?_, enabled.generate, enabled.revoke⟩
      cases d.sender <;> rfl
    rw [next]
    split
    · exact told
    · exact ⟨told.sender, told.shown, told.enabled.generate, told.enabled.revoke⟩
    · exact ⟨told.sender, told.shown, told.enabled.generate, told.enabled.revoke⟩
  | close =>
    refine ⟨rfl, ?_, rfl, rfl⟩
    cases d.sender <;> rfl

variable (fromUtf8 toUtf8) in
/-- A step is calm for the display exactly if it is for the dialog. -/
theorem calm_actOf (d : SenderDialog) (e : Event) :
    d.shown.Calm SenderDisplay.carryOut .blank (actOf fromUtf8 toUtf8 d.sender e) ↔
      d.Calm fromUtf8 e := by
  constructor
  · rintro calm during s rfl present
    rw [present] at calm
    exact calm _ rfl
  · intro calm notices clears
    cases present : d.sender with
    | none =>
      rw [present] at clears
      cases e <;> cases clears
    | some s =>
      rw [present] at clears
      cases e with
      | revoke during =>
        obtain rfl := Deferred.Act.clear.inj clears
        exact calm during s rfl present
      | _ => cases clears

variable (fromUtf8 toUtf8) in
/-- The sender takes no notice of the queue. -/
theorem sender_after (events : List Event) :
    (after fromUtf8 toUtf8 events).Enabled ∧
      (after fromUtf8 toUtf8 events).sender = (atOnce fromUtf8 toUtf8 events).1 := by
  induction events using history_induction with
  | base => exact ⟨⟨rfl, rfl⟩, rfl⟩
  | step before e ih =>
    have step := stepped fromUtf8 toUtf8 ih.1 e
    rw [after, run_concat, ← after, atOnce, run_concat, ← atOnce]
    exact ⟨step.enabled, by rw [step.sender, ih.2]⟩

theorem shown_deliver (d : SenderDialog) :
    (d.next fromUtf8 toUtf8 .deliver).shown = d.display .deliver := by
  rw [next]
  split <;> rfl

theorem shown_delivers (d : SenderDialog) (n : ℕ) :
    (run (next fromUtf8 toUtf8) d (List.replicate n .deliver)).shown =
      run (Deferred.next SenderDisplay.carryOut .blank) d.shown (List.replicate n .deliver) := by
  induction n generalizing d with
  | zero => rfl
  | succ n ih =>
    rw [List.replicate_succ, List.replicate_succ, run_cons, run_cons, ih, shown_deliver]
    rfl

/-- The display that the event loop arrives at. -/
theorem caughtUp_eq (events : List Event) :
    caughtUp fromUtf8 toUtf8 events =
      (after fromUtf8 toUtf8 events).shown.settled SenderDisplay.carryOut := by
  rw [caughtUp, after, run_append, ← after, shown_delivers, Deferred.run_deliver]

/-- A step leads both displays to the same if and only if it is calm. -/
theorem caughtUp_concat_iff {before : List Event}
    (same : caughtUp fromUtf8 toUtf8 before = (atOnce fromUtf8 toUtf8 before).2) (e : Event) :
    caughtUp fromUtf8 toUtf8 (before ++ [e]) = (atOnce fromUtf8 toUtf8 (before ++ [e])).2 ↔
      (after fromUtf8 toUtf8 before).Calm fromUtf8 e := by
  obtain ⟨enabled, sender⟩ := sender_after fromUtf8 toUtf8 before
  rw [caughtUp_eq] at same ⊢
  rw [after, run_concat, ← after, atOnce, run_concat, ← atOnce, (stepped _ _ enabled e).shown,
    ← same, ← sender, ← calm_actOf fromUtf8 toUtf8]
  exact Deferred.settled_next_iff _ _

theorem caughtUp_nil : caughtUp fromUtf8 toUtf8 [] = (atOnce fromUtf8 toUtf8 []).2 := rfl

/-- Along every run, what the dialog shows when its event loop has caught up is what it would
show if no callback had waited, if and only if no revoke finds something under way that shows
again. -/
theorem settles_iff (events : List Event) :
    (∀ before later, events = before ++ later →
      caughtUp fromUtf8 toUtf8 before = (atOnce fromUtf8 toUtf8 before).2) ↔
      EveryStep (fun before e => (after fromUtf8 toUtf8 before).Calm fromUtf8 e) events := by
  apply always_iff_everyStep (fun before =>
    caughtUp fromUtf8 toUtf8 before = (atOnce fromUtf8 toUtf8 before).2) caughtUp_nil
  · exact fun before e same calm => (caughtUp_concat_iff same e).mpr calm
  · exact fun before same => same
  · exact fun before e same next => (caughtUp_concat_iff same e).mp next

end Law

/-! ### A knock that is late -/

section Late

variable {peerId name fp : Str} {v : SenderDisplay}

theorem listed_carryOut {notice : Notice} (listed : peerId ∈ v.items.map PeerItem.peerId)
    (stays : notice ≠ .peerGone peerId) :
    peerId ∈ (v.carryOut notice).items.map PeerItem.peerId := by
  cases notice with
  | tokenIssued token => exact listed
  | pendingPeer other name fp =>
    rw [SenderDisplay.carryOut, List.map_append]
    exact List.mem_append_left _ listed
  | peerState other state =>
    have keeps (item : PeerItem) : (item.report state).peerId = item.peerId := rfl
    rwa [SenderDisplay.carryOut, map_replaceFirst keeps]
  | peerGone other =>
    obtain ⟨item, member, rfl⟩ := List.mem_map.mp listed
    have differs : item.peerId ≠ other := by
      rintro rfl
      exact stays rfl
    have kept : item ∈ v.items.eraseP (PeerItem.peerId · = other) :=
      (List.mem_eraseP_of_neg (by simpa using differs)).mpr member
    exact List.mem_map_of_mem kept

/-- A peer is listed as long as nothing says that it has gone. -/
theorem listed_foldl {notices : List Notice} (listed : peerId ∈ v.items.map PeerItem.peerId)
    (stay : .peerGone peerId ∉ notices) :
    peerId ∈ (notices.foldl SenderDisplay.carryOut v).items.map PeerItem.peerId := by
  induction notices generalizing v with
  | nil => exact listed
  | cons notice rest ih =>
    rw [List.mem_cons, not_or] at stay
    exact ih (listed_carryOut listed (Ne.symm stay.1)) stay.2

/-- If a revoke finds a knock under way, and nothing behind it that says that the peer has
gone, the dialog lists the peer though it has no sender any more. -/
theorem late_knock_listed {fromUtf8 : Bytes → Str} {toUtf8 : Str → Bytes} {before : List Event}
    {s : Sender} (present : (after fromUtf8 toUtf8 before).sender = some s)
    {during : List Sender.Event} {earlier later : List Notice}
    (waits : (after fromUtf8 toUtf8 before).shown.queue ++
      said fromUtf8 s (.revokeToken :: during) = earlier ++ .pendingPeer peerId name fp :: later)
    (stays : .peerGone peerId ∉ later) :
    (after fromUtf8 toUtf8 (before ++ [.revoke during])).sender = none ∧
      peerId ∈ (caughtUp fromUtf8 toUtf8 (before ++ [.revoke during])).items.map
        PeerItem.peerId := by
  have step := stepped fromUtf8 toUtf8 (sender_after fromUtf8 toUtf8 before).1 (.revoke during)
  rw [caughtUp_eq, after, run_concat, ← after, step.sender, step.shown, present]
  refine ⟨rfl, ?_⟩
  -- the display is cleared, and the queue goes on
  change peerId ∈ (((after fromUtf8 toUtf8 before).shown.queue ++
    said fromUtf8 s (.revokeToken :: during)).foldl SenderDisplay.carryOut .blank).items.map _
  rw [waits, List.foldl_append, List.foldl_cons]
  refine listed_foldl ?_ stays
  rw [SenderDisplay.carryOut, List.map_append]
  exact List.mem_append_right _ (List.mem_singleton_self _)

end Late

/-! ### The list of the control plane -/

section Rows

/-- An identifier that every list keeps as it is. -/
def LegibleId (id : Bytes) : Prop := id.length < 64 ∧ ∀ b ∈ id, b.toNat < 128

/-- What a callback says is about a peer with such an identifier. -/
def LegibleEffect : Sender.Effect → Prop
  | .onPending peerId _ _ | .onPeerState peerId _ | .onPeerGone peerId => LegibleId peerId
  | _ => True

instance (id : Bytes) : Decidable (LegibleId id) := inferInstanceAs (Decidable (_ ∧ _))

instance : DecidablePred LegibleEffect
  | .onPending peerId _ _ | .onPeerState peerId _ | .onPeerGone peerId =>
    inferInstanceAs (Decidable (LegibleId peerId))
  | .signal _ | .negotiate _ | .applyRemoteSdp _ _ _ | .addRemoteIce _ _ _ | .pushVideo _ _ _
  | .release _ | .onToken _ => isTrue trivial

/-- An item and a row of the same peer, in the same state. -/
structure SamePeer (item : PeerItem) (row : CtrlPeer) : Prop where
  legible : LegibleId row.peerId
  peerId : item.peerId = ofAscii row.peerId
  state : rowState item.state = row.state

variable {fromUtf8 : Bytes → Str} {toUtf8 : Str → Bytes}

/-- Qt leaves ASCII texts as they are. -/
def KeepsAscii (fromUtf8 : Bytes → Str) : Prop :=
  ∀ text : Bytes, (∀ b ∈ text, b.toNat < 128) → fromUtf8 text = ofAscii text

theorem SamePeer.named_iff {item : PeerItem} {row : CtrlPeer} (same : SamePeer item row)
    (ascii : KeepsAscii fromUtf8) {id : Bytes} (legible : LegibleId id) :
    item.peerId = fromUtf8 id ↔ row.peerId = id := by
  rw [same.peerId, ascii id legible.2]
  exact ofAscii_injective.eq_iff

/-- One callback leaves both lists with the same peers. -/
theorem samePeers_told (ascii : KeepsAscii fromUtf8) {v : SenderDisplay} {rows : List CtrlPeer}
    (same : List.Forall₂ SamePeer v.items rows) {effect : Sender.Effect}
    (legible : LegibleEffect effect) :
    List.Forall₂ SamePeer ((posted fromUtf8 effect).elim v v.carryOut).items
      (effect.told rows) := by
  cases effect with
  | onPending peerId name fp =>
    have whole : strncpy 64 peerId = peerId := strncpy_of_lt legible.1
    refine List.rel_append same (.cons ⟨?_, ?_, rfl⟩ .nil)
    · rwa [whole]
    · rw [whole]
      exact ascii peerId legible.2
  | onPeerState peerId state =>
    change List.Forall₂ SamePeer (replaceFirst _ _ _ v.items) (replaceFirst _ _ _ rows)
    generalize v.items = items at same
    induction same with
    | nil => exact .nil
    | @cons item row _ _ first rest ih =>
      rw [replaceFirst, replaceFirst]
      by_cases here : row.peerId = peerId
      · rw [if_pos ((first.named_iff ascii legible).mpr here), if_pos here]
        exact .cons ⟨first.legible, first.peerId, rfl⟩ rest
      · rw [if_neg fun named => here ((first.named_iff ascii legible).mp named), if_neg here]
        exact .cons first ih
  | onPeerGone peerId =>
    change List.Forall₂ SamePeer (v.items.eraseP _) (rows.eraseP _)
    generalize v.items = items at same
    induction same with
    | nil => exact .nil
    | @cons item row _ _ first rest ih =>
      have agree := first.named_iff ascii legible
      by_cases here : row.peerId = peerId
      · rw [List.eraseP_cons_of_pos (by simpa using agree.mpr here),
          List.eraseP_cons_of_pos (by simpa using here)]
        exact rest
      · rw [List.eraseP_cons_of_neg (by simpa using fun named => here (agree.mp named)),
          List.eraseP_cons_of_neg (by simpa using here)]
        exact .cons first ih
  | _ => exact same

theorem samePeers_rowsAfter (ascii : KeepsAscii fromUtf8) {v : SenderDisplay}
    {rows : List CtrlPeer} (same : List.Forall₂ SamePeer v.items rows)
    {effects : List Sender.Effect} (legible : ∀ effect ∈ effects, LegibleEffect effect) :
    List.Forall₂ SamePeer ((notices fromUtf8 effects).foldl SenderDisplay.carryOut v).items
      (Sender.rowsAfter rows effects) := by
  induction effects generalizing v rows with
  | nil => exact same
  | cons effect rest ih =>
    obtain ⟨here, later⟩ := List.forall_mem_cons.mp legible
    have told := ih (samePeers_told ascii same here) later
    rw [notices, List.filterMap_cons, Sender.rowsAfter, List.foldl_cons]
    cases silent : posted fromUtf8 effect with
    | none =>
      rw [silent] at told
      exact told
    | some notice =>
      rw [silent] at told
      exact told

/-- What the control plane would be asked to do. -/
def planeEvents (toUtf8 : Str → Bytes) (e : Event) : List ControlEvent :=
  match e with
  | .generate video audio twitch =>
    [.create { TetherControl.senderConfig video audio with twitchStMode := twitch }]
  | .revoke _ | .close => [.revoke]
  | e => (e.call? toUtf8).elim [] fun call =>
    if other : call ≠ .revokeToken then [.reaches call other] else []

def plane (toUtf8 : Str → Bytes) (events : List Event) : ControlPlane :=
  .after (events.flatMap (planeEvents toUtf8))

/-- Whatever this event makes the sender say is about peers with such identifiers. -/
def Legible (toUtf8 : Str → Bytes) (d : SenderDialog) (e : Event) : Prop :=
  ∀ s call, d.sender = some s → e.call? toUtf8 = some call →
    ∀ effect ∈ (s.handle call).2, LegibleEffect effect

instance (d : SenderDialog) (e : Event) : Decidable (d.Legible toUtf8 e) :=
  decidable_of_iff (∀ s ∈ d.sender, ∀ call ∈ e.call? toUtf8, ∀ effect ∈ (s.handle call).2,
    LegibleEffect effect)
    ⟨fun all s call present calls => all s present call calls,
      fun legible s present call calls => legible s call present calls⟩

theorem call?_ne_revoke {e : Event} {call : Sender.Event} (calls : e.call? toUtf8 = some call) :
    call ≠ .revokeToken := by
  cases e with
  | reaches event other =>
    obtain rfl := Option.some.inj calls
    exact other
  | accept => exact (Option.some.inj calls) ▸ nofun
  | reject => exact (Option.some.inj calls) ▸ nofun
  | disconnect => exact (Option.some.inj calls) ▸ nofun
  | _ => cases calls

theorem planeEvents_of_call {e : Event} {call : Sender.Event}
    (calls : e.call? toUtf8 = some call) :
    planeEvents toUtf8 e = [.reaches call (call?_ne_revoke calls)] := by
  cases e with
  | generate => cases calls
  | revoke => cases calls
  | deliver => cases calls
  | close => cases calls
  | reaches event other =>
    obtain rfl := Option.some.inj calls
    exact dif_pos other
  | _ =>
    obtain rfl := Option.some.inj calls
    simp [planeEvents, Event.call?]

/-- The sender is that of the control plane, and the peers are the same; without a sender there
are none. -/
structure Agrees (sender : Option Sender) (v : SenderDisplay) (c : ControlPlane) : Prop where
  sender : c.sender = sender
  peers : List.Forall₂ SamePeer v.items c.peers
  alone : c.sender = none → c.peers = []

/-- What reaches the sender reaches that of the control plane, and tells both lists the same. -/
theorem Agrees.reached (ascii : KeepsAscii fromUtf8) {v : SenderDisplay} {c : ControlPlane}
    (agrees : Agrees c.sender v c) {d : SenderDialog} (present : d.sender = c.sender) {e : Event}
    (legible : d.Legible toUtf8 e) {call : Sender.Event} (calls : e.call? toUtf8 = some call) :
    Agrees (senderAfter toUtf8 c.sender e)
      (Deferred.atOnce SenderDisplay.carryOut .blank v (actOf fromUtf8 toUtf8 c.sender e))
      (run ControlPlane.next c (planeEvents toUtf8 e)) := by
  obtain ⟨-, peers, alone⟩ := agrees
  rw [planeEvents_of_call calls, senderAfter_of_call calls]
  change Agrees _ _ (c.next (.reaches call (call?_ne_revoke calls)))
  rw [ControlPlane.next]
  cases sender : c.sender with
  | none =>
    rw [actOf_none calls]
    exact ⟨sender, peers, alone⟩
  | some s =>
    rw [actOf_of_call calls]
    exact ⟨rfl, samePeers_rowsAfter ascii peers (legible s call (present.trans sender) calls),
      fun absent => absurd absent (Option.some_ne_none _)⟩

/-- A revoked token leaves no sender and no peers. -/
theorem Agrees.revoked {sender : Option Sender} {v cleared : SenderDisplay} {c : ControlPlane}
    (agrees : Agrees sender v c) (blank : cleared.items = []) :
    Agrees none cleared (c.next .revoke) := by
  rw [ControlPlane.next]
  cases sender : c.sender with
  | some s => exact ⟨rfl, blank ▸ .nil, fun _ => rfl⟩
  | none => exact ⟨sender, by rw [blank, agrees.alone sender]; exact .nil, agrees.alone⟩

/-- One event leads both on. -/
theorem Agrees.next (ascii : KeepsAscii fromUtf8) {sender : Option Sender} {v : SenderDisplay}
    {c : ControlPlane} (agrees : Agrees sender v c) {d : SenderDialog}
    (present : d.sender = sender) {e : Event} (legible : d.Legible toUtf8 e) :
    Agrees (senderAfter toUtf8 sender e)
      (Deferred.atOnce SenderDisplay.carryOut .blank v (actOf fromUtf8 toUtf8 sender e))
      (run ControlPlane.next c (planeEvents toUtf8 e)) := by
  obtain rfl := agrees.sender
  have peers := agrees.peers
  have alone := agrees.alone
  cases e with
  | generate video audio twitch =>
    change Agrees _ _ (c.next (.create _))
    rw [ControlPlane.next, senderAfter]
    cases sender : c.sender with
    | some s => exact ⟨sender, peers, alone⟩
    | none =>
      refine ⟨?_, peers, fun _ => alone sender⟩
      rw [Option.isSome_none, if_neg Bool.false_ne_true]
      split_ifs with nothing
      · subst nothing
        rfl
      · rfl
  | revoke during =>
    cases sender : c.sender with
    | some s => exact agrees.revoked rfl
    | none =>
      refine agrees.revoked ?_
      have nobody := alone sender
      rw [nobody] at peers
      exact List.forall₂_nil_right_iff.mp peers
  | accept peerId connected => exact agrees.reached ascii present legible rfl
  | reject peerId => exact agrees.reached ascii present legible rfl
  | disconnect peerId => exact agrees.reached ascii present legible rfl
  | reaches event other => exact agrees.reached ascii present legible rfl
  | deliver =>
    refine ⟨rfl, ?_, alone⟩
    cases c.sender <;> exact peers
  | close => exact agrees.revoked (by cases c.sender <;> rfl)

theorem agrees_atOnce (ascii : KeepsAscii fromUtf8) (events : List Event)
    (legible : EveryStep (fun before e => (after fromUtf8 toUtf8 before).Legible toUtf8 e) events) :
    Agrees (atOnce fromUtf8 toUtf8 events).1 (atOnce fromUtf8 toUtf8 events).2
      (plane toUtf8 events) := by
  refine guarded_induction (fun events => Agrees (atOnce fromUtf8 toUtf8 events).1
    (atOnce fromUtf8 toUtf8 events).2 (plane toUtf8 events)) ⟨rfl, .nil, fun _ => rfl⟩ ?_ events
    legible
  intro before e agrees named
  have stepped := agrees.next ascii (sender_after fromUtf8 toUtf8 before).2 named
  rw [atOnce, run_concat, ← atOnce, plane, List.flatMap_append, ControlPlane.after, run_append,
    List.flatMap_singleton]
  exact stepped

theorem names_of_samePeers {items : List PeerItem} {rows : List CtrlPeer}
    (same : List.Forall₂ SamePeer items rows) :
    items.map PeerItem.peerId = (rows.map CtrlPeer.peerId).map ofAscii := by
  induction same with
  | nil => rfl
  | cons first rest ih => rw [List.map_cons, List.map_cons, List.map_cons, ih, first.peerId]

theorem row_of_item {items : List PeerItem} {rows : List CtrlPeer}
    (same : List.Forall₂ SamePeer items rows) {item : PeerItem} (member : item ∈ items) :
    ∃ row ∈ rows, SamePeer item row := by
  induction same with
  | nil => cases member
  | cons first rest ih =>
    rcases List.mem_cons.mp member with rfl | later
    · exact ⟨_, List.mem_cons_self, first⟩
    · obtain ⟨row, there, pair⟩ := ih later
      exact ⟨row, List.mem_cons_of_mem _ there, pair⟩

/-- A control plane whose events are orderly shows only peers that are let in. -/
theorem shown_of_orderly (events : List ControlEvent)
    (orderly : EveryStep (fun before e => (ControlPlane.after before).Orderly e) events) :
    (ControlPlane.after events).Shown := by
  refine guarded_induction (fun events => (ControlPlane.after events).Shown)
    ⟨fun row member => absurd member List.not_mem_nil, List.nodup_nil⟩ ?_ events orderly
  intro before e shown orderly
  rw [ControlPlane.after, run_concat]
  exact shown.next orderly

/-- Along every run whose revokes are calm, the dialog has caught up with the peers that the
control plane would list, one by one, in the same states and at the same sender. If the control
plane's events are orderly, no peer is shown twice, and one that is shown as waiting is pending
or accepted at the sender. -/
theorem lists_what_the_plane_lists (ascii : KeepsAscii fromUtf8) (events : List Event)
    (calm : EveryStep (fun before e => (after fromUtf8 toUtf8 before).Calm fromUtf8 e) events)
    (legible : EveryStep (fun before e => (after fromUtf8 toUtf8 before).Legible toUtf8 e) events) :
    let items := (caughtUp fromUtf8 toUtf8 events).items
    (after fromUtf8 toUtf8 events).sender = (plane toUtf8 events).sender ∧
    List.Forall₂ SamePeer items (plane toUtf8 events).peers ∧
    (EveryStep (fun before e => (ControlPlane.after before).Orderly e)
        (events.flatMap (planeEvents toUtf8)) →
      (items.map PeerItem.peerId).Nodup ∧
      ∀ item ∈ items, item.state = .waiting → ∃ s id,
        (after fromUtf8 toUtf8 events).sender = some s ∧ item.peerId = ofAscii id ∧
          s.adm.Holds id) := by
  intro items
  obtain ⟨sender, peers, -⟩ := agrees_atOnce ascii events legible
  have settled : caughtUp fromUtf8 toUtf8 events = (atOnce fromUtf8 toUtf8 events).2 :=
    guarded_induction (fun before => caughtUp fromUtf8 toUtf8 before =
      (atOnce fromUtf8 toUtf8 before).2) caughtUp_nil
      (fun before e same calm => (caughtUp_concat_iff same e).mpr calm) events calm
  rw [← (sender_after fromUtf8 toUtf8 events).2] at sender
  rw [← settled] at peers
  refine ⟨sender.symm, peers, fun orderly => ?_⟩
  have shown := shown_of_orderly _ orderly
  constructor
  · rw [names_of_samePeers peers]
    exact shown.unique.map ofAscii_injective
  · intro item member waits
    obtain ⟨row, there, pair⟩ := row_of_item peers member
    have idle : row.state = 0 := by rw [← pair.state, waits]; rfl
    obtain ⟨s, present, holds⟩ := shown.admitted row there idle
    exact ⟨s, row.peerId, sender ▸ present, pair.peerId, holds⟩

/-- Bytes as a text and back, for texts in ASCII. -/
def asciiText : (Bytes → Str) × (Str → Bytes) :=
  (ofAscii, fun text => text.map fun unit => UInt8.ofNat unit.toNat)

/-- A peer knocks and is accepted, its connection is set up, and the token is revoked when the
dialog has caught up; then a peer knocks at the next sender. -/
def twoSenders : List Event :=
  [.generate [bytes "Camera"] [] false,
    .reaches (.message (Sender.pendingFrame (bytes "p1")) 0 none) nofun, .deliver,
    .accept (str "p1") (some [1]), .reaches (.sessionState 0 .connected) nofun, .deliver,
    .revoke [], .generate [bytes "Screen"] [] false,
    .reaches (.message (Sender.pendingFrame (bytes "p2")) 0 none) nofun]

theorem lists_what_the_plane_lists_twoSenders :
    (caughtUp asciiText.1 asciiText.2 (twoSenders.take 6)).items.map (fun item =>
      (item.peerId, item.state)) = [(str "p1", .peerConnected)] ∧
    List.Forall₂ SamePeer (caughtUp asciiText.1 asciiText.2 twoSenders).items
      (plane asciiText.2 twoSenders).peers ∧
    (plane asciiText.2 twoSenders).peers.map CtrlPeer.peerId = [bytes "p2"] := by
  have ascii : KeepsAscii asciiText.1 := fun _ _ => rfl
  refine ⟨by decide +kernel, ?_, by decide +kernel⟩
  exact (lists_what_the_plane_lists ascii twoSenders (by decide +kernel) (by decide +kernel)).2.1

end Rows

end SenderDialog

end Tether.Plugin
