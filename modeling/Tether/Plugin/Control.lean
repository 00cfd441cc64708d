import Mathlib.Data.List.DropRight
import Tether.Plugin.KnownTokens
import Tether.Plugin.PeerRows
import Tether.Plugin.ReceiveRegistry

/-!
# The control socket

A command comes as one line on a connection of its own and is answered by one line, which
starts with `OK` or with `ERR`. A command runs to its end before anything else happens to
what it works on; the wait for a token is what the outcome says about it.

## Main definitions

* `TetherControl`, `ControlInput` — the control plane, and what happens to it
* `TetherControl.dispatch` — a line, and the commands
* `AtomicOnError` — a command that replies `ERR` leaves everything as it was
* `Sound` — no command fails halfway

## Main results

* `plane_run` — the sender and its list of peers go through a run of their own
* `atomic_on_error_iff` — all commands of a run are atomic if and only if all are sound
* `register_keeps_bad_token` — a text that is no token becomes a known token
-/

namespace Tether.Plugin

open Text Semantics

/-! ### State -/

/-- `struct tether_control`, with the stores it works on and `g_held_sessions`. -/
structure TetherControl extends ControlPlane where
  currentToken : Bytes
  known : KnownTokens
  registry : ReceiveRegistry
  held : List ℕ

/-- What the world makes of a command: the token that the sender's callback has brought when
the wait is over, if it has, the connection to a peer, and whether a session can be set up. -/
structure Outcome where
  issued : Option Bytes
  connected : Connected
  connects : Bool

/-- A command's bytes, or what happens to the sender and the stores in between. -/
inductive ControlInput
  | received (data : Bytes) (outcome : Outcome)
  | reaches (event : Sender.Event) (other : event ≠ .revokeToken)
  | registry (event : ReceiveRegistry.Event)
  | known (op : KnownTokens.Op)

/-! ### Replies -/

/-- `reply`: the text, with a newline if it has none. -/
def reply (text : Bytes) : Bytes := if text.getLast? = some 10 then text else text ++ [10]

def replyOk (text : Bytes) : Bytes := reply (bytes "OK " ++ text)

def replyErr (text : Bytes) : Bytes := reply (bytes "ERR " ++ text)

def IsErr (answer : Bytes) : Prop := bytes "ERR" <+: answer

instance : DecidablePred IsErr := fun _ => inferInstanceAs (Decidable (_ <+: _))

theorem isErr_replyErr (text : Bytes) : IsErr (replyErr text) := by
  have err : bytes "ERR" <+: bytes "ERR " ++ text := ⟨bytes " " ++ text, rfl⟩
  rw [replyErr, reply]
  split_ifs
  · exact err
  · exact err.trans (List.prefix_append _ _)

theorem not_isErr_replyOk (text : Bytes) : ¬ IsErr (replyOk text) := by
  rw [replyOk, reply]
  rintro ⟨rest, same⟩
  split_ifs at same <;> exact absurd (List.cons.inj same).1 (by decide)

theorem not_isErr_nil : ¬ IsErr [] := by decide

def stateWord (state : ℤ) : String :=
  if state = 0 then "waiting" else if state = 1 then "connected"
  else if state = 2 then "failed" else "unknown"

def rxStateWord : ReceiveState → String
  | .connecting => "connecting"
  | .awaitingAccept => "awaiting-accept"
  | .accepted => "accepted"
  | .negotiating => "negotiating"
  | .connected => "connected"
  | .failed => "failed"
  | .closed => "closed"

/-! ### Sessions -/

namespace ReceiveRegistry

/-- `tether_receive_session_release`, from its beginning to its end. -/
def releaseNow (s : ℕ) (r : ReceiveRegistry) : ReceiveRegistry :=
  let (r, last) := r.releaseLocked s
  if last then { r with freed := r.freed ++ [s] } else r

/-- `tether_receive_session_enumerate`, from its beginning to its end. -/
def enumerateNow (r : ReceiveRegistry) : ReceiveRegistry :=
  r.sessions.foldl (fun r s => r.releaseNow s)
    { r with memory := r.sessions.foldl (fun memory s => increment s memory) r.memory }

/-- A session can be had under this text: there is one, or one can be set up. -/
def Gives (r : ReceiveRegistry) (token : Bytes) (connects : Bool) : Prop :=
  r.initialised = true ∧ ((∃ s ∈ r.sessions, (r.memory s).token = token) ∨
    tokenNormalise token 20 ≠ none ∧ connects = true)

instance (r : ReceiveRegistry) (token : Bytes) (connects : Bool) :
    Decidable (r.Gives token connects) :=
  inferInstanceAs (Decidable (_ ∧ (_ ∨ _ ∧ _)))

/-- These are the conditions under which a get finds or makes a session. -/
theorem gives_iff {r : ReceiveRegistry} {token : Bytes} {connects : Bool} (text : token ≠ []) :
    r.Gives token connects ↔ (r.get token connects).2 ≠ none := by
  rw [Gives, get, if_neg text]
  cases r.initialised with
  | false => simp
  | true =>
    rw [if_neg (by simp), eq_self, true_and]
    cases found : r.sessions.find? fun s => (r.memory s).token = token with
    | some s =>
      have same := List.find?_some found
      refine iff_of_true (.inl ⟨s, List.mem_of_find?_eq_some found, by simpa using same⟩) ?_
      simp
    | none =>
      have new : ¬ ∃ s ∈ r.sessions, (r.memory s).token = token := by
        simpa using List.find?_eq_none.mp found
      rw [or_iff_right new, RxSession.sessionCreateLocked]
      cases tokenNormalise token 20 <;> cases connects <;> simp

end ReceiveRegistry

namespace TetherControl

/-! ### Callbacks -/

/-- `on_sender_token` -/
def onSenderToken (token : Option Bytes) (c : TetherControl) : TetherControl :=
  match token with
  | none => c
  | some token => { c with currentToken := strncpy 64 token }

/-- What a callback does to the token. -/
def tokenTold (current : Bytes) : Sender.Effect → Bytes
  | .onToken token => strncpy 64 token
  | _ => current

/-- Something reaches the sender, whose callbacks tell the control plane. -/
def reach (event : Sender.Event) (c : TetherControl) : TetherControl :=
  match c.sender with
  | none => c
  | some s =>
    { c with
      sender := some (s.handle event).1
      peers := Sender.rowsAfter c.peers (s.handle event).2
      currentToken := (s.handle event).2.foldl tokenTold c.currentToken }

/-! ### Commands of the sender -/

/-- `strtok_r(text, ",", …)`, until it has no more. -/
def strtokComma (text : Bytes) : List Bytes := (text.splitOn 44).filter (· ≠ [])

/-- The video and the audio sources of `<video,…>|<audio,…>`, or of the legacy form, where the
first is the video source and the rest are audio. -/
def sourceNames (args : Bytes) : List Bytes × List Bytes :=
  let video := strtokComma (args.takeWhile (· ≠ 124))
  match args.dropWhile (· ≠ 124) with
  | _ :: audio => (video, strtokComma audio)
  | [] => (video.take 1, video.drop 1)

def senderConfig (video audio : List Bytes) : SenderConfig where
  sourceName := none
  videoSourceNames := video
  audioSourceNames := audio
  maxReceivers := 4
  tokenTtlMinutes := 30
  reusableToken := true
  twitchStMode := false

def cmdSenderCreate (args : Option Bytes) (outcome : Outcome) (c : TetherControl) :
    TetherControl × Bytes :=
  -- a sender that has failed counts as running, too
  if c.sender.isSome then
    (c, replyErr (bytes "sender already running — call sender-revoke first"))
  else if args.getD [] = [] then (c, replyErr (bytes "missing source name"))
  else
    let (video, audio) := sourceNames (args.getD [])
    if video = [] then (c, replyErr (bytes "missing video source"))
    else
      let c := { c with sender := Sender.create (senderConfig video audio) }
      if c.sender.isNone then (c, replyErr (bytes "sender create failed"))
      else
        -- the loop waits five seconds at most for the callback
        let c := c.onSenderToken outcome.issued
        if c.currentToken ≠ [] then (c, replyOk (bytes "token=" ++ c.currentToken))
        else (c, replyErr (bytes "token not yet issued (timeout)"))

def peerText (p : CtrlPeer) : Bytes := p.peerId ++ bytes (":" ++ stateWord p.state ++ ":") ++ p.name

def cmdSenderStatus (c : TetherControl) : TetherControl × Bytes :=
  (c, replyOk (bytes "token=" ++ (if c.currentToken ≠ [] then c.currentToken else bytes "-") ++
    bytes " peers=" ++ (bytes ",").intercalate (c.peers.map peerText)))

/-- What the commands about one peer have in common. -/
def cmdPeer (done : String) (event : Bytes → Sender.Event) (args : Option Bytes)
    (c : TetherControl) : TetherControl × Bytes :=
  if c.sender.isNone then (c, replyErr (bytes "no sender"))
  else if args.getD [] = [] then (c, replyErr (bytes "missing peer_id"))
  else (c.reach (event (args.getD [])), replyOk (bytes done ++ args.getD []))

def cmdSenderAccept (args : Option Bytes) (outcome : Outcome) (c : TetherControl) :
    TetherControl × Bytes :=
  cmdPeer "accepted " (fun peerId => .accept peerId true outcome.connected) args c

def cmdSenderReject (args : Option Bytes) (c : TetherControl) : TetherControl × Bytes :=
  cmdPeer "rejected " .reject args c

def cmdSenderDisconnect (args : Option Bytes) (c : TetherControl) : TetherControl × Bytes :=
  cmdPeer "disconnected " .disconnectPeer args c

/-- What the sender says while it is revoked and released is forgotten at the end. -/
def cmdSenderRevoke (c : TetherControl) : TetherControl × Bytes :=
  if c.sender.isNone then (c, replyErr (bytes "no sender"))
  else ({ c with sender := none, currentToken := [], peers := [] }, replyOk (bytes "revoked"))

/-! ### Commands of the receiver -/

def cmdReceiveRegister (args : Option Bytes) (outcome : Outcome) (c : TetherControl) :
    TetherControl × Bytes :=
  if args.getD [] = [] then (c, replyErr (bytes "missing token"))
  else
    let token := args.getD []
    -- the text is remembered before anybody has looked whether it is a token
    let c := { c with known := (c.known.add token).1 }
    match (c.registry.get token outcome.connects).2 with
    | none => (c, replyErr (bytes "session create failed"))
    | some s =>
      let c := { c with
        registry := c.registry.next (.get token outcome.connects), held := c.held ++ [s] }
      (c, replyOk (bytes "registered " ++ token ++
        bytes (" state=" ++ rxStateWord (c.registry.memory s).state)))

def sessionText (r : ReceiveRegistry) (s : ℕ) : Bytes :=
  (r.memory s).token ++ bytes (":" ++ rxStateWord (r.memory s).state)

def cmdReceiveStatus (c : TetherControl) : TetherControl × Bytes :=
  ({ c with registry := c.registry.enumerateNow },
    replyOk (bytes "sessions=" ++
      (bytes ",").intercalate (c.registry.sessions.map (sessionText c.registry))))

/-- The references to the sessions of this text are dropped, the last one first. -/
def dropHeld (token : Bytes) (r : ReceiveRegistry) (held : List ℕ) : ReceiveRegistry × List ℕ :=
  held.foldr (fun s (r, kept) =>
    if (r.memory s).token = token then
      (ReceiveRegistry.releaseNow s { r with held := r.held.erase s }, kept)
    else (r, s :: kept)) (r, [])

def cmdReceiveForget (args : Option Bytes) (c : TetherControl) : TetherControl × Bytes :=
  if args.getD [] = [] then (c, replyErr (bytes "missing token"))
  else
    let token := args.getD []
    let (registry, held) := dropHeld token c.registry c.held
    ({ c with known := (c.known.remove token).1, registry := registry, held := held },
      replyOk (bytes "forgot " ++ token))

/-! ### Lines -/

/-- The command and its arguments: the line without trailing whitespace, cut at its first
space. -/
def splitLine (line : Bytes) : Bytes × Option Bytes :=
  let line := line.rdropWhile fun b => b = 10 || b = 13 || b = 32
  match line.dropWhile (· ≠ 32) with
  | [] => (line, none)
  | _ :: args => (line.takeWhile (· ≠ 32), some args)

def dispatch (line : Bytes) (outcome : Outcome) (c : TetherControl) : TetherControl × Bytes :=
  let (command, args) := splitLine line
  if command = bytes "sender-create" then c.cmdSenderCreate args outcome
  else if command = bytes "sender-status" then c.cmdSenderStatus
  else if command = bytes "sender-accept" then c.cmdSenderAccept args outcome
  else if command = bytes "sender-reject" then c.cmdSenderReject args
  else if command = bytes "sender-disconnect" then c.cmdSenderDisconnect args
  else if command = bytes "sender-revoke" then c.cmdSenderRevoke
  else if command = bytes "receive-register" then c.cmdReceiveRegister args outcome
  else if command = bytes "receive-status" then c.cmdReceiveStatus
  else if command = bytes "receive-forget" then c.cmdReceiveForget args
  else if command = bytes "ping" then (c, replyOk (bytes "pong"))
  else (c, replyErr (bytes "unknown command '" ++ command ++ bytes "'"))

/-- The line in the buffer of 2048 bytes, up to its first zero byte. -/
def lineOf (data : Bytes) : Bytes := (data.take 2047).takeWhile (· ≠ 0)

/-- An input, and the reply if it is a command. -/
def step (c : TetherControl) : ControlInput → TetherControl × Bytes
  | .received data outcome => if data = [] then (c, []) else c.dispatch (lineOf data) outcome
  | .reaches event _ => (c.reach event, [])
  | .registry event => ({ c with registry := c.registry.next event }, [])
  | .known op => ({ c with known := c.known.next op }, [])

def next (c : TetherControl) (input : ControlInput) : TetherControl := (c.step input).1

/-- `tether_control_init`, with the stores as they are then. -/
def init (known : KnownTokens) (registry : ReceiveRegistry) : TetherControl where
  sender := none
  peers := []
  currentToken := []
  known := known
  registry := registry
  held := []

/-! ### The law -/

/-- The sender, the known tokens with their file, and the held sessions are as they were. -/
structure Unchanged (c d : TetherControl) : Prop where
  sender : d.sender = c.sender
  entries : d.known.entries = c.known.entries
  file : d.known.file = c.known.file
  held : d.held = c.held

theorem Unchanged.refl (c : TetherControl) : c.Unchanged c := ⟨rfl, rfl, rfl, rfl⟩

/-- What is answered with `ERR` has changed nothing. -/
def Atomic (c : TetherControl) (result : TetherControl × Bytes) : Prop :=
  IsErr result.2 → c.Unchanged result.1

def AtomicOnError (c : TetherControl) (input : ControlInput) : Prop := c.Atomic (c.step input)

/-- A creation that names a video source, while there is no sender, gets its token in time. A
registration of a token that the store takes gets its session. -/
def Sound (c : TetherControl) : ControlInput → Prop
  | .received data outcome =>
    ((splitLine (lineOf data)).1 = bytes "sender-create" → c.sender = none →
      (sourceNames ((splitLine (lineOf data)).2.getD [])).1 ≠ [] →
        ∃ token, outcome.issued = some token ∧ token ≠ []) ∧
    ((splitLine (lineOf data)).1 = bytes "receive-register" →
      c.known.Takes ((splitLine (lineOf data)).2.getD []) →
        c.registry.Gives ((splitLine (lineOf data)).2.getD []) outcome.connects)
  | _ => True

/-- Without a sender there is no token. -/
def Clean (c : TetherControl) : Prop := c.sender = none → c.currentToken = []

section Commands

variable {c : TetherControl} {args : Option Bytes} {outcome : Outcome}

theorem atomic_unchanged (c : TetherControl) (answer : Bytes) : c.Atomic (c, answer) :=
  fun _ => .refl c

theorem atomic_ok (c d : TetherControl) (text : Bytes) : c.Atomic (d, replyOk text) :=
  fun err => absurd err (not_isErr_replyOk text)

theorem Atomic.unchanged {d : TetherControl} {text : Bytes}
    (atomic : c.Atomic (d, replyErr text)) : c.Unchanged d :=
  atomic (isErr_replyErr text)

theorem onSenderToken_sender (token : Option Bytes) (c : TetherControl) :
    (c.onSenderToken token).sender = c.sender := by
  cases token <;> rfl

theorem currentToken_onSenderToken (empty : c.currentToken = []) (token : Option Bytes) :
    (c.onSenderToken token).currentToken ≠ [] ↔ ∃ text, token = some text ∧ text ≠ [] := by
  cases token with
  | none => simp [onSenderToken, empty]
  | some text => simp [onSenderToken, strncpy]

/-- A source that is named is a source to capture. -/
theorem create_ne_none {video : List Bytes} (audio : List Bytes) (named : ∀ name ∈ video, name ≠ [])
    (present : video ≠ []) : Sender.create (senderConfig video audio) ≠ none := by
  have all : video.filter (· ≠ []) = video := List.filter_eq_self.mpr (by simpa using named)
  obtain ⟨first, more, rfl⟩ := List.exists_cons_of_ne_nil present
  rw [Sender.create, Sender.resolveSources, senderConfig, all]
  simp

theorem sourceNames_ne_nil (args : Bytes) : ∀ name ∈ (sourceNames args).1, name ≠ [] := by
  have tokens (text : Bytes) : ∀ name ∈ strtokComma text, name ≠ [] := by
    intro name member
    simpa using (List.mem_filter.mp member).2
  intro name member
  rw [sourceNames] at member
  split at member
  · exact tokens _ name member
  · exact tokens _ name (List.mem_of_mem_take member)

/-- A creation is atomic exactly if it fails early or gets its token. -/
theorem cmdSenderCreate_atomic (clean : c.Clean) :
    c.Atomic (c.cmdSenderCreate args outcome) ↔
      (c.sender = none → (sourceNames (args.getD [])).1 ≠ [] →
        ∃ token, outcome.issued = some token ∧ token ≠ []) := by
  rw [cmdSenderCreate]
  cases sender : c.sender with
  | some s =>
    rw [Option.isSome_some, if_pos rfl]
    exact iff_of_true (atomic_unchanged c _) (fun none => by cases none)
  | none =>
    rw [Option.isSome_none, if_neg Bool.false_ne_true]
    by_cases missing : args.getD [] = []
    · rw [if_pos missing]
      refine iff_of_true (atomic_unchanged c _) fun _ named => absurd ?_ named
      rw [missing]
      rfl
    rw [if_neg missing]
    have nonempty := sourceNames_ne_nil (args.getD [])
    generalize sourceNames (args.getD []) = names at nonempty ⊢
    obtain ⟨video, audio⟩ := names
    dsimp only at nonempty ⊢
    by_cases nobody : video = []
    · rw [if_pos nobody]
      exact iff_of_true (atomic_unchanged c _) fun _ named => absurd nobody named
    rw [if_neg nobody]
    obtain ⟨fresh, created⟩ := Option.ne_none_iff_exists'.mp
      (create_ne_none audio nonempty nobody)
    rw [created, Option.isNone_some, if_neg Bool.false_ne_true]
    have token := currentToken_onSenderToken (c := { c with sender := some fresh })
      (clean sender) outcome.issued
    by_cases issued : ∃ text, outcome.issued = some text ∧ text ≠ []
    · rw [if_pos (token.mpr issued)]
      exact iff_of_true (atomic_ok c _ _) fun _ _ => issued
    · rw [if_neg (mt token.mp issued)]
      refine iff_of_false (fun atomic => ?_) fun sound => issued (sound rfl nobody)
      -- the sender that has been created is still there
      have same := atomic.unchanged.sender
      rw [onSenderToken_sender, sender] at same
      cases same

/-- A registration is atomic exactly if the store does not take the token, or a session can be
had. -/
theorem cmdReceiveRegister_atomic :
    c.Atomic (c.cmdReceiveRegister args outcome) ↔
      (c.known.Takes (args.getD []) → c.registry.Gives (args.getD []) outcome.connects) := by
  rw [cmdReceiveRegister]
  generalize args.getD [] = token
  by_cases missing : token = []
  · rw [if_pos missing]
    exact iff_of_true (atomic_unchanged c _) fun takes => absurd missing takes.1
  rw [if_neg missing, ReceiveRegistry.gives_iff missing]
  dsimp only
  cases (c.registry.get token outcome.connects).2 with
  | some s => exact iff_of_true (atomic_ok c _ _) fun _ => by simp
  | none =>
    by_cases takes : c.known.Takes token
    · refine iff_of_false (fun atomic => ?_) fun gives => absurd rfl (gives takes)
      -- the list has grown by the token
      have same := atomic.unchanged.entries
      rw [KnownTokens.add_of_takes takes] at same
      simp at same
    · rw [KnownTokens.add_of_not_takes takes]
      exact iff_of_true (atomic_unchanged c _) fun does => absurd does takes

theorem cmdPeer_atomic (done : String) (event : Bytes → Sender.Event) :
    c.Atomic (c.cmdPeer done event args) := by
  rw [cmdPeer]
  split_ifs
  · exact atomic_unchanged c _
  · exact atomic_unchanged c _
  · exact atomic_ok c _ _

theorem cmdSenderRevoke_atomic : c.Atomic c.cmdSenderRevoke := by
  rw [cmdSenderRevoke]
  split_ifs
  · exact atomic_unchanged c _
  · exact atomic_ok c _ _

theorem cmdReceiveForget_atomic : c.Atomic (c.cmdReceiveForget args) := by
  rw [cmdReceiveForget]
  split_ifs
  · exact atomic_unchanged c _
  · exact atomic_ok c _ _

/-- What holds of the result of every command holds of what is dispatched. -/
theorem dispatch_cases {P : TetherControl × Bytes → Prop} (line : Bytes)
    (create : (splitLine line).1 = bytes "sender-create" →
      P (c.cmdSenderCreate (splitLine line).2 outcome))
    (register : (splitLine line).1 = bytes "receive-register" →
      P (c.cmdReceiveRegister (splitLine line).2 outcome))
    (peer : ∀ done event, (∀ peerId, event peerId ≠ .revokeToken) →
      P (c.cmdPeer done event (splitLine line).2))
    (revoke : P c.cmdSenderRevoke) (forget : P (c.cmdReceiveForget (splitLine line).2))
    (status : P c.cmdSenderStatus) (sessions : P c.cmdReceiveStatus)
    (said : ∀ answer, P (c, answer)) : P (c.dispatch line outcome) := by
  rw [dispatch]
  -- one command after the other, in the order of the comparisons
  refine iteInduction create fun _ => iteInduction (fun _ => status) fun _ => ?_
  refine iteInduction (fun _ => peer _ _ fun _ => Sender.Event.noConfusion) fun _ => ?_
  refine iteInduction (fun _ => peer _ _ fun _ => Sender.Event.noConfusion) fun _ => ?_
  refine iteInduction (fun _ => peer _ _ fun _ => Sender.Event.noConfusion) fun _ => ?_
  refine iteInduction (fun _ => revoke) fun _ => iteInduction register fun _ => ?_
  refine iteInduction (fun _ => sessions) fun _ => iteInduction (fun _ => forget) fun _ => ?_
  exact iteInduction (fun _ => said _) fun _ => said _

/-- Only two commands can fail halfway. -/
theorem dispatch_atomic (clean : c.Clean) (line : Bytes) :
    c.Atomic (c.dispatch line outcome) ↔
      ((splitLine line).1 = bytes "sender-create" → c.sender = none →
        (sourceNames ((splitLine line).2.getD [])).1 ≠ [] →
          ∃ token, outcome.issued = some token ∧ token ≠ []) ∧
      ((splitLine line).1 = bytes "receive-register" →
        c.known.Takes ((splitLine line).2.getD []) →
          c.registry.Gives ((splitLine line).2.getD []) outcome.connects) := by
  by_cases create : (splitLine line).1 = bytes "sender-create"
  · have other : bytes "sender-create" ≠ bytes "receive-register" := by decide
    have chosen : c.dispatch line outcome = c.cmdSenderCreate (splitLine line).2 outcome :=
      if_pos create
    rw [chosen, cmdSenderCreate_atomic clean]
    exact ⟨fun sound => ⟨fun _ => sound, fun same => absurd (create.symm.trans same) other⟩,
      fun both => both.1 create⟩
  -- the comparisons go on up to the registration
  by_cases register : (splitLine line).1 = bytes "receive-register"
  · have other (name : String) (differs : bytes "receive-register" ≠ bytes name) :
        (splitLine line).1 ≠ bytes name := register ▸ differs
    have chosen : c.dispatch line outcome = c.cmdReceiveRegister (splitLine line).2 outcome := by
      rw [dispatch]
      dsimp only
      rw [if_neg create, if_neg (other "sender-status" (by decide)),
        if_neg (other "sender-accept" (by decide)), if_neg (other "sender-reject" (by decide)),
        if_neg (other "sender-disconnect" (by decide)), if_neg (other "sender-revoke" (by decide)),
        if_pos register]
    rw [chosen, cmdReceiveRegister_atomic]
    exact ⟨fun sound => ⟨fun same => absurd same create, fun _ => sound⟩,
      fun both => both.2 register⟩
  · -- every other command either changes nothing or replies `OK`
    refine iff_of_true ?_ ⟨fun same => absurd same create, fun same => absurd same register⟩
    refine dispatch_cases line (fun same => absurd same create) (fun same => absurd same register)
      (fun _ _ _ => cmdPeer_atomic _ _) cmdSenderRevoke_atomic cmdReceiveForget_atomic ?_ ?_
      (atomic_unchanged c)
    · exact atomic_ok c _ _
    · exact atomic_ok c _ _

/-- An input is atomic exactly if it is sound. -/
theorem atomicOnError_iff_sound (clean : c.Clean) (input : ControlInput) :
    c.AtomicOnError input ↔ c.Sound input := by
  cases input with
  | received data outcome =>
    rw [AtomicOnError, step]
    by_cases silent : data = []
    · subst silent
      rw [if_pos rfl]
      refine iff_of_true (atomic_unchanged c _) ⟨fun same => ?_, fun same => ?_⟩ <;>
        exact absurd same (by decide)
    · rw [if_neg silent]
      exact dispatch_atomic clean (lineOf data)
  | _ => exact iff_of_true (fun err => absurd err not_isErr_nil) trivial

end Commands

/-! ### What an input does to the sender -/

/-- What an input does to the sender, the list of its peers and the token. -/
inductive Plays (c d : TetherControl) : Prop
  | kept (plane : d.toControlPlane = c.toControlPlane) (token : d.currentToken = c.currentToken)
  | created (cfg : SenderConfig) (idle : c.sender = none)
    (plane : d.toControlPlane = c.toControlPlane.next (.create cfg)) (present : d.sender ≠ none)
  | reached (event : Sender.Event) (other : event ≠ .revokeToken) (here : d = c.reach event)
  | revoked (plane : d.toControlPlane = c.toControlPlane.next .revoke)
    (token : d.currentToken = [])

section Plays

variable {c : TetherControl}

theorem Plays.refl (c : TetherControl) : c.Plays c := .kept rfl rfl

theorem plays_cmdPeer (done : String) {event : Bytes → Sender.Event}
    (other : ∀ peerId, event peerId ≠ .revokeToken) (args : Option Bytes) :
    c.Plays (c.cmdPeer done event args).1 := by
  rw [cmdPeer]
  split_ifs
  · exact .refl c
  · exact .refl c
  · exact .reached (event (args.getD [])) (other _) rfl

theorem plays_cmdSenderCreate (args : Option Bytes) (outcome : Outcome) :
    c.Plays (c.cmdSenderCreate args outcome).1 := by
  rw [cmdSenderCreate]
  cases sender : c.sender with
  | some s =>
    rw [Option.isSome_some, if_pos rfl]
    exact .refl c
  | none =>
    rw [Option.isSome_none, if_neg Bool.false_ne_true]
    generalize sourceNames (args.getD []) = names
    obtain ⟨video, audio⟩ := names
    dsimp only
    -- the creation has failed and nothing has happened, or there is a sender from now on
    have idle (d : TetherControl) (none : Sender.create (senderConfig video audio) = none)
        (plane : d.toControlPlane = ⟨Sender.create (senderConfig video audio), c.peers⟩)
        (token : d.currentToken = c.currentToken) : c.Plays d := by
      refine .kept ?_ token
      rw [plane, none, ← sender]
    have made (d : TetherControl) (some_ : Sender.create (senderConfig video audio) ≠ none)
        (plane : d.toControlPlane = ⟨Sender.create (senderConfig video audio), c.peers⟩) :
        c.Plays d := by
      refine .created (senderConfig video audio) sender ?_ ?_
      · rw [plane, ControlPlane.next, sender]
      · rw [plane]
        exact some_
    have plane (token : Option Bytes) : (onSenderToken token { c with
        sender := Sender.create (senderConfig video audio) }).toControlPlane =
          ⟨Sender.create (senderConfig video audio), c.peers⟩ := by
      cases token <;> rfl
    split_ifs with _ _ failed
    · exact .refl c
    · exact .refl c
    · exact idle _ (Option.isNone_iff_eq_none.mp failed) rfl rfl
    · exact made _ (fun none => failed (by rw [none]; rfl)) (plane _)
    · exact made _ (fun none => failed (by rw [none]; rfl)) (plane _)

theorem plays_cmdSenderRevoke : c.Plays c.cmdSenderRevoke.1 := by
  rw [cmdSenderRevoke]
  split_ifs with nobody
  · exact .refl c
  · refine .revoked ?_ rfl
    obtain ⟨s, sender⟩ := Option.ne_none_iff_exists'.mp
      (fun none => nobody (Option.isNone_iff_eq_none.mpr none))
    rw [ControlPlane.next, sender]

theorem plays_cmdReceiveRegister (args : Option Bytes) (outcome : Outcome) :
    c.Plays (c.cmdReceiveRegister args outcome).1 := by
  rw [cmdReceiveRegister]
  split_ifs
  · exact .refl c
  · dsimp only
    cases (c.registry.get (args.getD []) outcome.connects).2 <;> exact .kept rfl rfl

theorem plays_cmdReceiveForget (args : Option Bytes) : c.Plays (c.cmdReceiveForget args).1 := by
  rw [cmdReceiveForget]
  split_ifs
  · exact .refl c
  · exact .kept rfl rfl

theorem plays_dispatch (line : Bytes) (outcome : Outcome) :
    c.Plays (c.dispatch line outcome).1 := by
  refine dispatch_cases (P := fun result => c.Plays result.1) line ?_ ?_ ?_ plays_cmdSenderRevoke
    (plays_cmdReceiveForget _) (.refl c) (.kept rfl rfl) fun _ => .refl c
  · exact fun _ => plays_cmdSenderCreate _ outcome
  · exact fun _ => plays_cmdReceiveRegister _ outcome
  · exact fun done event other => plays_cmdPeer done other _

theorem plays_next (c : TetherControl) (input : ControlInput) : c.Plays (c.next input) := by
  cases input with
  | received data outcome =>
    rw [next, step]
    split_ifs
    · exact .refl c
    · exact plays_dispatch (lineOf data) outcome
  | reaches event other => exact .reached event other rfl
  | registry event => exact .kept rfl rfl
  | known op => exact .kept rfl rfl

/-- Every input is a run of the sender and its list of peers. -/
theorem plane_step (c : TetherControl) (input : ControlInput) :
    ∃ events, (c.next input).toControlPlane = run ControlPlane.next c.toControlPlane events := by
  rcases c.plays_next input with ⟨plane, -⟩ | ⟨cfg, -, plane, -⟩ | ⟨event, other, here⟩ | ⟨plane, -⟩
  · exact ⟨[], plane⟩
  · exact ⟨[.create cfg], plane⟩
  · refine ⟨[.reaches event other], ?_⟩
    rw [here, reach, run_cons, run_nil, ControlPlane.next]
    cases c.sender <;> rfl
  · exact ⟨[.revoke], plane⟩

/-- Without a sender there is no token. -/
theorem Clean.next (clean : c.Clean) (input : ControlInput) : (c.next input).Clean := by
  intro none
  rcases c.plays_next input with
    ⟨plane, token⟩ | ⟨cfg, -, -, present⟩ | ⟨event, other, here⟩ | ⟨-, token⟩
  · rw [plane] at none
    rw [token]
    exact clean none
  · exact absurd none present
  · -- what reaches the sender does not end it
    rw [here, reach] at none ⊢
    cases sender : c.sender with
    | none => exact clean sender
    | some s =>
      rw [sender] at none
      cases none
  · exact token

/-- The sender and its list of peers go through a run of their own. -/
theorem plane_run (c : TetherControl) (inputs : List ControlInput) :
    ∃ events, (run next c inputs).toControlPlane =
      run ControlPlane.next c.toControlPlane events := by
  induction inputs generalizing c with
  | nil => exact ⟨[], rfl⟩
  | cons input inputs ih =>
    obtain ⟨first, step⟩ := c.plane_step input
    obtain ⟨rest, same⟩ := ih (c.next input)
    refine ⟨first ++ rest, ?_⟩
    rw [run_cons, same, run_append, step]

end Plays

/-! ### Runs -/

/-- Along a run every command that replies `ERR` has changed nothing if and only if every input
is sound. -/
theorem atomic_on_error_iff (known : KnownTokens) (registry : ReceiveRegistry)
    (inputs : List ControlInput) :
    EveryStep (fun before input => (run next (init known registry) before).AtomicOnError input)
        inputs ↔
      EveryStep (fun before input => (run next (init known registry) before).Sound input)
        inputs := by
  -- without this a token of an earlier sender would pass for the new one
  have clean (before : List ControlInput) : (run next (init known registry) before).Clean :=
    run_invariant next (init known registry) (fun _ input clean => clean.next input)
      (fun _ => rfl) before
  exact forall₄_congr fun before input _ _ => atomicOnError_iff_sound (clean before) input

/-! ### A text that is no token -/

/-- The store and the registry are set up and empty. -/
def freshControl : TetherControl := init ⟨true, [], true, none⟩ ReceiveRegistry.start.init

/-- Nothing comes in time. -/
def nothingCame : Outcome := ⟨none, none, true⟩

/-- A registration of a text that is no token fails, and the text is a known token from then
on, in the file as well. A creation whose token is late fails, and its sender stays. -/
theorem register_keeps_bad_token :
    (freshControl.step (.received (bytes "receive-register nonsense") nothingCame)).2 =
        replyErr (bytes "session create failed") ∧
      (freshControl.next (.received (bytes "receive-register nonsense") nothingCame)).known.file =
        some [⟨bytes "nonsense", none⟩] ∧
      ¬ freshControl.AtomicOnError (.received (bytes "receive-register nonsense") nothingCame) ∧
      (freshControl.step (.received (bytes "sender-create cam") nothingCame)).2 =
        replyErr (bytes "token not yet issued (timeout)") ∧
      (freshControl.next (.received (bytes "sender-create cam") nothingCame)).sender.isSome ∧
      ¬ freshControl.AtomicOnError (.received (bytes "sender-create cam") nothingCame) := by
  have clean : freshControl.Clean := fun _ => rfl
  refine ⟨by decide +kernel, by decide +kernel, ?_, by decide +kernel, by decide +kernel, ?_⟩
  · rw [atomicOnError_iff_sound clean]
    rintro ⟨-, sound⟩
    exact absurd (sound (by decide +kernel) (by decide +kernel)) (by decide +kernel)
  · rw [atomicOnError_iff_sound clean]
    rintro ⟨sound, -⟩
    obtain ⟨token, issued, -⟩ := sound (by decide +kernel) rfl (by decide +kernel)
    cases issued

end TetherControl

end Tether.Plugin
