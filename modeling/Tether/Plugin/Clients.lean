import Tether.Plugin.WholeCalls

/-!
# Who holds the receiving sessions

Sessions are held by the sources of the scenes, by the receive dialog while it is open and by
the control plane. A source takes a reference, subscribes and gives the reference back, so
that it holds its session by the subscription; the dialog keeps a reference for every token
that is known; the control plane keeps those that were asked for. All of them use the registry
one call after another here.

## Main definitions

* `SourceClient.attachSession`, `adopt`, `refreshTokenList` — what sources and the dialog do
* `Clients`, `Clients.next` — everyone who uses the registry, and what happens next
* `Clients.holdings` — the sessions that are held, once for each holder

## Main results

* `SourceClient.Attached.attachSession_spec`, `adopt_spec`, `dropUnlisted_spec`,
  `received_spec` — what each of them leaves
* `Clients.sessions_of_clients` — along every run there is a session if and only if somebody
  holds it, under the token that it was asked for
-/

namespace Tether.Plugin

open Text Semantics

/-! ### The clients -/

/-- `struct tether_source`, the part that has to do with its session. -/
structure SourceClient where
  token : Option Bytes
  session : Option ℕ
  sub : Option Subscription

/-- The control plane with the registry and the known tokens, the sources, and the sessions of
the receive dialog if it is open. -/
structure Clients where
  control : TetherControl
  sources : List SourceClient
  dialog : Option (List (Bytes × ℕ))

namespace SourceClient

/-- A new source. -/
def bzalloc : SourceClient := ⟨none, none, none⟩

/-- The end of a subscription. -/
def detach (src : SourceClient) (r : ReceiveRegistry) : SourceClient × ReceiveRegistry :=
  match src.sub with
  | some sub => ({ src with sub := none, session := none }, r.unsubscribeNow sub)
  | none => (src, r)

/-- `attach_session`; `connects` says whether a new session could be set up. -/
def attachSession (token : Bytes) (connects : Bool) (src : SourceClient) (c : TetherControl) :
    SourceClient × TetherControl :=
  let (src, registry) := src.detach c.registry
  let src := { src with token := if token = [] then none else some token }
  if token = [] then (src, { c with registry })
  else
    match registry.get token connects with
    | (registry, none) => ({ src with session := none }, { c with registry })
    | (registry, some s) =>
      let (registry, sub) := registry.subscribeNow s
      -- from here on the subscription alone holds the session
      ({ src with session := some s, sub := some sub },
        { c with registry := registry.releaseNow s, known := (c.known.add token).1 })

end SourceClient

section Dialog

variable {γ : Type*} [DecidableEq γ] (fromUtf8 : Bytes → γ)

/-- The loop that gets a session for every token that has none yet. -/
def adopt (connects : Bytes → Bool) :
    List Bytes → List (Bytes × ℕ) → ReceiveRegistry → List (Bytes × ℕ) × ReceiveRegistry
  | [], held, r => (held, r)
  | token :: rest, held, r =>
    if held.any (·.1 = token) then adopt connects rest held r
    else
      let (r, got) := r.get token (connects token)
      adopt connects rest (held ++ got.toList.map fun s => (token, s)) r

/-- The loop that drops the sessions of tokens that are not listed any more. The list shows
the tokens as texts. -/
def dropUnlisted (listed : List Bytes) :
    List (Bytes × ℕ) → ReceiveRegistry → List (Bytes × ℕ) × ReceiveRegistry
  | [], r => ([], r)
  | (token, s) :: rest, r =>
    if listed.any fun other => fromUtf8 other = fromUtf8 token then
      let (kept, r) := dropUnlisted listed rest r
      ((token, s) :: kept, r)
    else dropUnlisted listed rest (r.releaseNow s)

/-- `refreshTokenList` -/
def refreshTokenList (connects : Bytes → Bool) (known : KnownTokens) (held : List (Bytes × ℕ))
    (r : ReceiveRegistry) : List (Bytes × ℕ) × ReceiveRegistry :=
  let persisted := known.entries.map (·.token)
  let (held, r) := adopt connects persisted held r
  dropUnlisted fromUtf8 persisted held r

end Dialog

namespace Clients

inductive Event
  | create (token : Bytes) (connects : Bool)
  | update (i : ℕ) (token : Bytes) (connects : Bool)
  | destroy (i : ℕ)
  | openDialog (connects again : Bytes → Bool)
  | registerToken (token : Bytes) (connects : Bool) (again : Bytes → Bool)
  | forgetToken (token : Bytes) (again : Bytes → Bool)
  | refresh (connects : Bytes → Bool)
  | closeDialog
  /-- What the control plane is sent. -/
  | received (data : Bytes) (outcome : Outcome)
  /-- The properties of a source are shown, with the streams of its session. -/
  | properties (token : Bytes) (connects : Bool)
  | known (op : KnownTokens.Op)
  | video (s : ℕ) (packet : Packet) (now : UInt64)
  | audio (s : ℕ) (packet : Packet) (now : UInt64)
  | state (s : ℕ) (newState : ReceiveState)

section Steps

variable {γ : Type*} [DecidableEq γ] (fromUtf8 : Bytes → γ)

/-- The registry changed. -/
def withRegistry (c : Clients) (registry : ReceiveRegistry) : Clients :=
  { c with control.registry := registry }

/-- The dialog's sessions changed, with the registry. -/
def withDialog (c : Clients) (result : List (Bytes × ℕ) × ReceiveRegistry) : Clients :=
  { c.withRegistry result.2 with dialog := some result.1 }

/-- A refresh, after something has been done to the sessions of the dialog. -/
def refreshed (connects : Bytes → Bool) (c : Clients)
    (result : List (Bytes × ℕ) × ReceiveRegistry) : Clients :=
  c.withDialog (refreshTokenList fromUtf8 connects c.control.known result.1 result.2)

/-- A callback of the connection, while the session is there. -/
def called (c : Clients) (s : ℕ) (f : RxSession → RxSession) : Clients :=
  if c.control.registry.Exists s then c.withRegistry (c.control.registry.modify s f) else c

def next (c : Clients) : Event → Clients
  | .create token connects =>
    let (src, control) := SourceClient.bzalloc.attachSession token connects c.control
    { c with control, sources := c.sources ++ [src] }
  | .update i token connects =>
    match c.sources[i]? with
    | none => c
    | some src =>
      if src.token = some token then c
      else
        let (src, control) := src.attachSession token connects c.control
        { c with control, sources := c.sources.set i src }
  | .destroy i =>
    match c.sources[i]? with
    | none => c
    | some src =>
      { c.withRegistry (src.detach c.control.registry).2 with sources := c.sources.eraseIdx i }
  | .openDialog connects again =>
    match c.dialog with
    | some _ => c
    | none =>
      c.refreshed fromUtf8 again
        (adopt connects (c.control.known.entries.map (·.token)) [] c.control.registry)
  | .registerToken token connects again =>
    match c.dialog with
    | none => c
    | some held =>
      if token = [] then c
      else
        let c := { c with control.known := (c.control.known.add token).1 }
        c.refreshed fromUtf8 again (adopt (fun _ => connects) [token] held c.control.registry)
  | .forgetToken token again =>
    match c.dialog with
    | none => c
    | some held =>
      if token = [] then c
      else
        let c := { c with control.known := (c.control.known.remove token).1 }
        match held.find? (·.1 = token) with
        | none => c.refreshed fromUtf8 again (held, c.control.registry)
        | some (_, s) =>
          c.refreshed fromUtf8 again
            (held.eraseP (·.1 = token), c.control.registry.releaseNow s)
  | .refresh connects =>
    match c.dialog with
    | none => c
    | some held => c.refreshed fromUtf8 connects (held, c.control.registry)
  | .closeDialog =>
    match c.dialog with
    | none => c
    | some held =>
      { c.withRegistry (held.foldl (fun r entry => r.releaseNow entry.2) c.control.registry) with
        dialog := none }
  | .received data outcome => { c with control := c.control.next (.received data outcome) }
  | .properties token connects =>
    match c.control.registry.get token connects with
    | (registry, none) => c.withRegistry registry
    | (registry, some s) => c.withRegistry (registry.releaseNow s)
  | .known op => { c with control.known := c.control.known.next op }
  | .video s packet now => c.called s (RxSession.recordVideo packet now)
  | .audio s packet now => c.called s (RxSession.recordAudio packet now)
  | .state s newState => c.called s (RxSession.enter newState)

/-- The module has been loaded with these tokens on disk. -/
def start (known : KnownTokens) : Clients where
  control := .init known (ReceiveRegistry.start.init)
  sources := []
  dialog := none

def after (known : KnownTokens) (events : List Event) : Clients :=
  run (next fromUtf8) (start known) events

end Steps

/-- The references of the dialog and of the control plane. -/
def refs (c : Clients) : List ℕ := (c.dialog.getD []).map (·.2) ++ c.control.held

/-- The subscriptions of the sources. -/
def subs (c : Clients) : List Subscription := c.sources.filterMap (·.sub)

end Clients

/-! ### What they do with their sessions -/

open ReceiveRegistry

section Parts

variable {r : ReceiveRegistry} {subs : List Subscription} {frame : List ℕ}

/-- A source without a subscription has no session, and any other has one of its token. -/
structure SourceClient.Attached (src : SourceClient) (r : ReceiveRegistry) : Prop where
  session : src.session = src.sub.map (·.session)
  named : ∀ sub ∈ src.sub, src.token = some (r.memory sub.session).token

theorem SourceClient.Attached.kept {src : SourceClient} {other : ReceiveRegistry}
    (attached : src.Attached r) (texts : SameTexts r other)
    (there : ∀ sub ∈ src.sub, sub.session < r.allocated) : src.Attached other := by
  refine ⟨attached.session, fun sub mine => ?_⟩
  rw [attached.named sub mine, texts.token _ (there sub mine)]

theorem SourceClient.Attached.detach_spec {src : SourceClient} (attached : src.Attached r)
    (use : InUse frame (src.sub.toList ++ subs) r) :
    InUse frame subs (src.detach r).2 ∧ SameTexts r (src.detach r).2 ∧
      (src.detach r).1.sub = none ∧ (src.detach r).1.session = none := by
  rw [SourceClient.detach]
  cases mine : src.sub with
  | none =>
    rw [mine] at use
    exact ⟨use, .refl r, mine, by rw [attached.session, mine, Option.map_none]⟩
  | some sub =>
    rw [mine] at use
    exact ⟨use.unsubscribe, sameTexts_unsubscribeNow r sub, rfl, rfl⟩

/-- An attachment leaves a source with its own session, or with none. -/
theorem SourceClient.Attached.attachSession_spec {src : SourceClient} {c : TetherControl}
    (attached : src.Attached c.registry)
    (use : InUse frame (src.sub.toList ++ subs) c.registry) (token : Bytes) (connects : Bool) :
    let result := src.attachSession token connects c
    InUse frame (result.1.sub.toList ++ subs) result.2.registry ∧
      SameTexts c.registry result.2.registry ∧ result.1.Attached result.2.registry ∧
      result.2.held = c.held := by
  intro result
  obtain ⟨detached, texts, noSub, noSession⟩ := attached.detach_spec use
  simp only [result, SourceClient.attachSession]
  generalize src.detach c.registry = cut at detached texts noSub noSession
  obtain ⟨src, registry⟩ := cut
  simp only at detached texts noSub noSession
  by_cases empty : token = []
  · rw [if_pos empty]
    refine ⟨?_, texts, ⟨?_, ?_⟩, rfl⟩ <;> simp only [noSub]
    · exact detached
    · rw [noSession, Option.map_none]
    · exact fun sub none => by cases none
  · rw [if_neg empty, if_neg empty]
    obtain ⟨got, more, named⟩ := detached.get token connects
    generalize registry.get token connects = given at got more named
    obtain ⟨registry', _ | s⟩ := given
    · dsimp only
      refine ⟨?_, texts.trans more, ⟨?_, ?_⟩, rfl⟩ <;> simp only [noSub]
      · exact got
      · rfl
      · exact fun sub none => by cases none
    · have subscribed := got.subscribe List.mem_cons_self
      have owned := subscribed.perm_subs (List.perm_append_singleton _ subs)
      have released := owned.release
      have after := (sameTexts_subscribeNow registry' s).trans (sameTexts_releaseNow _ s)
      have there : s < registry'.allocated := got.allocated List.mem_cons_self
      refine ⟨released, (texts.trans more).trans after, ⟨rfl, fun sub mine => ?_⟩, rfl⟩
      obtain rfl := Option.some.inj mine
      change some token = some _
      rw [← named s rfl]
      exact congrArg some (after.token s there).symm

/-- The dialog has one session for each of its tokens, and it is one of this token. -/
structure DialogNamed (held : List (Bytes × ℕ)) (r : ReceiveRegistry) : Prop where
  keys : (held.map (·.1)).Nodup
  named : ∀ entry ∈ held, (r.memory entry.2).token = entry.1

theorem DialogNamed.sublist {held kept : List (Bytes × ℕ)} (names : DialogNamed held r)
    (sublist : kept.Sublist held) : DialogNamed kept r :=
  ⟨names.keys.sublist (sublist.map _), fun entry member =>
    names.named entry (sublist.subset member)⟩

theorem DialogNamed.kept {held : List (Bytes × ℕ)} {other : ReceiveRegistry}
    (names : DialogNamed held r) (texts : SameTexts r other)
    (there : ∀ entry ∈ held, entry.2 < r.allocated) : DialogNamed held other :=
  ⟨names.keys, fun entry member => by
    rw [texts.token _ (there entry member), names.named entry member]⟩

/-- The dialog's sessions are in use beside others. -/
structure DialogHolds (held : List (Bytes × ℕ)) (frame : List ℕ) (subs : List Subscription)
    (r : ReceiveRegistry) : Prop where
  use : InUse (held.map (·.2) ++ frame) subs r
  names : DialogNamed held r

theorem DialogHolds.allocated {held : List (Bytes × ℕ)} (holds : DialogHolds held frame subs r) :
    ∀ entry ∈ held, entry.2 < r.allocated := by
  intro entry member
  refine holds.use.allocated (List.mem_append_left _ (List.mem_append_left _ ?_))
  exact List.mem_map_of_mem member

theorem adopt_spec (connects : Bytes → Bool) (tokens : List Bytes) {held : List (Bytes × ℕ)}
    (holds : DialogHolds held frame subs r) :
    DialogHolds (adopt connects tokens held r).1 frame subs (adopt connects tokens held r).2 ∧
      SameTexts r (adopt connects tokens held r).2 := by
  induction tokens generalizing held r with
  | nil => exact ⟨holds, .refl r⟩
  | cons token rest ih =>
    rw [adopt]
    split_ifs with present
    · exact ih holds
    obtain ⟨got, texts, named⟩ := holds.use.get token (connects token)
    generalize r.get token (connects token) = given at got texts named
    obtain ⟨registry, given⟩ := given
    have kept := holds.names.kept texts holds.allocated
    have next : DialogHolds (held ++ given.toList.map fun s => (token, s)) frame subs registry := by
      cases given with
      | none =>
        rw [Option.toList_none, List.map_nil, List.append_nil]
        exact ⟨got, kept⟩
      | some s =>
        rw [Option.toList_some, List.map_singleton]
        refine ⟨?_, ?_, ?_⟩
        · rw [List.map_append, List.map_singleton]
          refine got.perm ?_
          rw [Option.toList_some, List.singleton_append, List.append_assoc, List.singleton_append]
          exact List.perm_middle.symm
        · rw [List.map_append, List.map_singleton, ← List.concat_eq_append]
          refine kept.keys.concat fun member => present ?_
          obtain ⟨entry, there, same⟩ := List.mem_map.mp member
          exact List.any_eq_true.mpr ⟨entry, there, decide_eq_true same⟩
        · exact List.forall_mem_append.mpr
            ⟨kept.named, List.forall_mem_singleton.mpr (named s rfl)⟩
    obtain ⟨rest, more⟩ := ih next
    exact ⟨rest, texts.trans more⟩

theorem DialogHolds.perm {held other : List (Bytes × ℕ)} (holds : DialogHolds held frame subs r)
    (same : held.Perm other) : DialogHolds other frame subs r where
  use := holds.use.perm ((same.map _).append_right _)
  names := ⟨(same.map _).nodup_iff.mp holds.names.keys, fun entry member =>
    holds.names.named entry (same.mem_iff.mpr member)⟩

/-- The first entry of a kind, and what is left without it. -/
theorem perm_eraseP_of_find? {α : Type*} {holds : α → Bool} {xs : List α} {x : α}
    (found : xs.find? holds = some x) : xs.Perm (x :: xs.eraseP holds) := by
  obtain ⟨hit, before, after, rfl, none⟩ := List.find?_eq_some_iff_append.mp found
  rw [List.eraseP_append_right _ (fun y member => by simpa using none y member),
    List.eraseP_cons_of_pos hit]
  exact List.perm_middle

theorem DialogHolds.tail {entry : Bytes × ℕ} {rest : List (Bytes × ℕ)}
    (holds : DialogHolds (entry :: rest) frame subs r) :
    DialogHolds rest (entry.2 :: frame) subs r :=
  ⟨holds.use.perm List.perm_middle.symm, holds.names.sublist (List.sublist_cons_self _ _)⟩

theorem DialogHolds.release {entry : Bytes × ℕ} {rest : List (Bytes × ℕ)}
    (holds : DialogHolds (entry :: rest) frame subs r) :
    DialogHolds rest frame subs (r.releaseNow entry.2) := by
  refine ⟨holds.use.release, (holds.tail.names).kept (sameTexts_releaseNow r entry.2) ?_⟩
  exact (List.forall_mem_cons.mp holds.allocated).2

theorem dropUnlisted_spec {γ : Type*} [DecidableEq γ] (fromUtf8 : Bytes → γ)
    (listed : List Bytes) {held : List (Bytes × ℕ)} (holds : DialogHolds held frame subs r) :
    let result := dropUnlisted fromUtf8 listed held r
    DialogHolds result.1 frame subs result.2 ∧ SameTexts r result.2 ∧ result.1.Sublist held := by
  induction held generalizing r frame with
  | nil => exact ⟨holds, .refl r, .slnil⟩
  | cons entry rest ih =>
    obtain ⟨token, s⟩ := entry
    have names := holds.names
    intro result
    simp only [result, dropUnlisted]
    split_ifs
    · obtain ⟨left, texts, sublist⟩ := ih holds.tail
      have kept := names.kept texts holds.allocated
      refine ⟨⟨left.use.perm List.perm_middle, ?_⟩, texts, sublist.cons_cons _⟩
      exact kept.sublist (sublist.cons_cons _)
    · obtain ⟨left, texts, sublist⟩ := ih holds.release
      exact ⟨left, (sameTexts_releaseNow r s).trans texts, sublist.cons _⟩

theorem refreshTokenList_spec {γ : Type*} [DecidableEq γ] (fromUtf8 : Bytes → γ)
    (connects : Bytes → Bool) (known : KnownTokens) {held : List (Bytes × ℕ)}
    (holds : DialogHolds held frame subs r) :
    let result := refreshTokenList fromUtf8 connects known held r
    DialogHolds result.1 frame subs result.2 ∧ SameTexts r result.2 := by
  obtain ⟨adopted, texts⟩ := adopt_spec connects (known.entries.map (·.token)) holds
  obtain ⟨left, more, -⟩ := dropUnlisted_spec fromUtf8 (known.entries.map (·.token)) adopted
  exact ⟨left, texts.trans more⟩

/-- Everything is given back when the dialog is closed. -/
theorem releaseAll_spec {held : List (Bytes × ℕ)} (holds : DialogHolds held frame subs r) :
    InUse frame subs (held.foldl (fun r entry => r.releaseNow entry.2) r) ∧
      SameTexts r (held.foldl (fun r entry => r.releaseNow entry.2) r) := by
  induction held generalizing r with
  | nil => exact ⟨holds.use, .refl r⟩
  | cons entry rest ih =>
    obtain ⟨left, texts⟩ := ih holds.release
    exact ⟨left, (sameTexts_releaseNow r entry.2).trans texts⟩

/-! ### What the control plane does with its sessions -/

/-- The books that the calls keep for themselves are not looked at here. -/
theorem ReceiveRegistry.InUse.of_held {refs : List ℕ} (use : InUse refs subs r) (held : List ℕ) :
    InUse refs subs { r with held } :=
  ⟨use.sound, use.books.lists, use.books.fresh, use.books.distinct, use.books.texts⟩

theorem dropHeld_spec (token : Bytes) {held : List ℕ} (use : InUse (held ++ frame) subs r) :
    let result := TetherControl.dropHeld token r held
    InUse (result.2 ++ frame) subs result.1 ∧ SameTexts r result.1 := by
  induction held generalizing frame with
  | nil => exact ⟨use, .refl r⟩
  | cons s rest ih =>
    obtain ⟨left, texts⟩ := ih (use.perm List.perm_middle.symm)
    intro result
    simp only [result, TetherControl.dropHeld, List.foldr_cons]
    split_ifs
    · have first := (left.perm List.perm_middle).of_held
        ((TetherControl.dropHeld token r rest).1.held.erase s)
      have released := sameTexts_releaseNow { (TetherControl.dropHeld token r rest).1 with
        held := (TetherControl.dropHeld token r rest).1.held.erase s } s
      exact ⟨first.release, texts.trans ⟨released.allocated, released.token⟩⟩
    · exact ⟨left.perm List.perm_middle, texts⟩

/-- The sender has nothing to do with the sessions. -/
theorem cmdSenderCreate_registry (args : Option Bytes) (outcome : Outcome) (c : TetherControl) :
    (c.cmdSenderCreate args outcome).1.registry = c.registry ∧
      (c.cmdSenderCreate args outcome).1.held = c.held := by
  have told (token : Option Bytes) (d : TetherControl) :
      (d.onSenderToken token).registry = d.registry ∧ (d.onSenderToken token).held = d.held := by
    cases token <;> exact ⟨rfl, rfl⟩
  simp only [TetherControl.cmdSenderCreate]
  split_ifs
  iterate 4 exact ⟨rfl, rfl⟩
  · exact told _ _
  · exact told _ _

theorem cmdPeer_registry (done : String) (event : Bytes → Sender.Event) (args : Option Bytes)
    (c : TetherControl) :
    (c.cmdPeer done event args).1.registry = c.registry ∧
      (c.cmdPeer done event args).1.held = c.held := by
  have reached (event : Sender.Event) :
      (c.reach event).registry = c.registry ∧ (c.reach event).held = c.held := by
    rw [TetherControl.reach]
    split <;> exact ⟨rfl, rfl⟩
  rw [TetherControl.cmdPeer]
  split_ifs
  · exact ⟨rfl, rfl⟩
  · exact ⟨rfl, rfl⟩
  · exact reached _

theorem cmdReceiveRegister_spec {c : TetherControl} (use : InUse (c.held ++ frame) subs c.registry)
    (args : Option Bytes) (outcome : Outcome) :
    let d := (c.cmdReceiveRegister args outcome).1
    InUse (d.held ++ frame) subs d.registry ∧ SameTexts c.registry d.registry := by
  simp only [TetherControl.cmdReceiveRegister]
  split_ifs
  · exact ⟨use, .refl _⟩
  obtain ⟨got, texts, -⟩ := use.get (args.getD []) outcome.connects
  cases given : (c.registry.get (args.getD []) outcome.connects).2 with
  | none => exact ⟨use, .refl _⟩
  | some s =>
    rw [given, Option.toList_some, List.singleton_append] at got
    refine ⟨(got.perm ?_).of_held _, texts.allocated, texts.token⟩
    rw [List.append_assoc, List.singleton_append]
    exact List.perm_middle.symm

/-- Whatever the control plane is sent, its references stay the ones that are held. -/
theorem received_spec {c : TetherControl} (use : InUse (c.held ++ frame) subs c.registry)
    (data : Bytes) (outcome : Outcome) :
    let d := c.next (.received data outcome)
    InUse (d.held ++ frame) subs d.registry ∧ SameTexts c.registry d.registry := by
  have unchanged {d : TetherControl} (same : d.registry = c.registry ∧ d.held = c.held) :
      InUse (d.held ++ frame) subs d.registry ∧ SameTexts c.registry d.registry := by
    rw [same.1, same.2]
    exact ⟨use, .refl _⟩
  rw [TetherControl.next, TetherControl.step]
  split_ifs
  · exact ⟨use, .refl _⟩
  refine TetherControl.dispatch_cases (P := fun result =>
      InUse (result.1.held ++ frame) subs result.1.registry ∧
        SameTexts c.registry result.1.registry) (TetherControl.lineOf data) ?_ ?_ ?_ ?_ ?_ ?_ ?_ ?_
  · exact fun _ => unchanged (cmdSenderCreate_registry _ _ _)
  · exact fun _ => cmdReceiveRegister_spec use _ _
  · exact fun _ _ _ => unchanged (cmdPeer_registry _ _ _ _)
  · rw [TetherControl.cmdSenderRevoke]
    split_ifs <;> exact ⟨use, .refl _⟩
  · rw [TetherControl.cmdReceiveForget]
    split_ifs
    · exact ⟨use, .refl _⟩
    · exact dropHeld_spec _ use
  · exact ⟨use, .refl _⟩
  · exact use.enumerateNow
  · exact fun _ => ⟨use, .refl _⟩

end Parts

namespace Clients

/-! ### Along a run -/

/-- What the clients hold accounts for the registry, and they hold it under their tokens. -/
structure Inv (c : Clients) : Prop where
  use : InUse c.refs c.subs c.control.registry
  dialog : DialogNamed (c.dialog.getD []) c.control.registry
  sources : ∀ src ∈ c.sources, src.Attached c.control.registry

theorem inv_start (known : KnownTokens) : (start known).Inv where
  use := by
    constructor
    · constructor <;> simp [start, TetherControl.init, ReceiveRegistry.start,
        ReceiveRegistry.init, sharedBy, refs, Clients.subs, RxSession.bzalloc]
    · constructor <;> simp [start, TetherControl.init, ReceiveRegistry.start,
        ReceiveRegistry.init, Clients.subs, RxSession.bzalloc]
  dialog := ⟨List.nodup_nil, fun _ none => absurd none List.not_mem_nil⟩
  sources := fun _ none => absurd none List.not_mem_nil

variable {c : Clients}

theorem Inv.dialogHolds (inv : c.Inv) :
    DialogHolds (c.dialog.getD []) c.control.held c.subs c.control.registry :=
  ⟨inv.use, inv.dialog⟩

/-- The subscriptions of sources are there. -/
theorem Inv.attached_allocated (inv : c.Inv) {src : SourceClient} (member : src ∈ c.sources) :
    ∀ sub ∈ src.sub, sub.session < c.control.registry.allocated := by
  intro sub mine
  refine inv.use.allocated (List.mem_append_right _ (List.mem_map_of_mem ?_))
  exact List.mem_filterMap.mpr ⟨src, member, mine⟩

/-- A change for the dialog or for the control plane. -/
theorem Inv.of_references (inv : c.Inv) {d : Clients} (sources : d.sources = c.sources)
    (use : InUse d.refs c.subs d.control.registry)
    (dialog : DialogNamed (d.dialog.getD []) d.control.registry)
    (texts : SameTexts c.control.registry d.control.registry) : d.Inv := by
  have subs : d.subs = c.subs := by rw [Clients.subs, Clients.subs, sources]
  refine ⟨subs ▸ use, dialog, fun src member => ?_⟩
  rw [sources] at member
  exact (inv.sources src member).kept texts (inv.attached_allocated member)

/-- The dialog after its sessions have changed and its list has been made again. -/
theorem Inv.refreshed {γ : Type*} [DecidableEq γ] (fromUtf8 : Bytes → γ) (inv : c.Inv)
    (connects : Bytes → Bool) (known : KnownTokens) {held : List (Bytes × ℕ)}
    {r : ReceiveRegistry} (holds : DialogHolds held c.control.held c.subs r)
    (texts : SameTexts c.control.registry r) :
    Inv (refreshed fromUtf8 connects { c with control.known := known } (held, r)) := by
  obtain ⟨left, more⟩ := refreshTokenList_spec fromUtf8 connects known holds
  exact inv.of_references rfl left.use left.names (texts.trans more)

/-- A callback changes no names, counters or subscriptions. -/
theorem Inv.called (inv : c.Inv) (s : ℕ) {f : RxSession → RxSession} (keeps : RxSession.Keeps f) :
    (c.called s f).Inv := by
  rw [Clients.called]
  split_ifs
  · have names : c.control.registry.Names (c.control.registry.modify s f) :=
      .modify keeps.toKeepsNames s
    have texts : SameTexts c.control.registry (c.control.registry.modify s f) :=
      ⟨le_rfl, fun t _ => names.token t⟩
    refine inv.of_references rfl ⟨?_, ?_⟩ ?_ texts
    · have sound := inv.use.sound
      rwa [← sharedBy_modify keeps.refcount s] at sound
    · exact inv.use.books.of_same names (fun t => subs_modify keeps.subs s t) rfl
    · exact inv.dialog.kept texts inv.dialogHolds.allocated
  · exact inv

/-- The subscription of the source at a place, and those of the others. -/
theorem subs_split {i : ℕ} {src : SourceClient} (here : c.sources[i]? = some src) :
    c.subs.Perm (src.sub.toList ++ (c.sources.eraseIdx i).filterMap (·.sub)) := by
  obtain ⟨place, rfl⟩ := List.getElem?_eq_some_iff.mp here
  refine ((List.getElem_cons_eraseIdx_perm place).symm.filterMap _).trans ?_
  rw [List.filterMap_cons]
  cases c.sources[i].sub <;> exact .refl _

/-- The source at a place has been detached or attached again, beside the others. -/
theorem Inv.replace (inv : c.Inv) {i : ℕ} (place : i < c.sources.length) {src : SourceClient}
    {control : TetherControl} (held : control.held = c.control.held)
    (use : InUse c.refs (src.sub.toList ++ (c.sources.eraseIdx i).filterMap (·.sub))
      control.registry)
    (texts : SameTexts c.control.registry control.registry)
    (attached : src.Attached control.registry) :
    Inv { c with control, sources := c.sources.set i src } := by
  constructor
  · have subs : ((c.sources.set i src).filterMap (·.sub)).Perm
        (src.sub.toList ++ (c.sources.eraseIdx i).filterMap (·.sub)) := by
      refine ((List.set_perm_cons_eraseIdx place src).filterMap _).trans ?_
      rw [List.filterMap_cons]
      cases src.sub <;> exact .refl _
    have same := use.perm_subs subs.symm
    rwa [refs, ← held] at same
  · exact inv.dialog.kept texts inv.dialogHolds.allocated
  · intro other member
    rcases List.mem_or_eq_of_mem_set member with old | rfl
    · exact (inv.sources other old).kept texts (inv.attached_allocated old)
    · exact attached

/-- A source more. -/
theorem Inv.add (inv : c.Inv) {src : SourceClient} {control : TetherControl}
    (held : control.held = c.control.held)
    (use : InUse c.refs (src.sub.toList ++ c.subs) control.registry)
    (texts : SameTexts c.control.registry control.registry)
    (attached : src.Attached control.registry) :
    Inv { c with control, sources := c.sources ++ [src] } := by
  constructor
  · have subs : (src.sub.toList ++ c.subs).Perm
        ((c.sources ++ [src]).filterMap (·.sub)) := by
      rw [List.filterMap_append]
      refine List.perm_append_comm.trans (.append_left _ ?_)
      rw [List.filterMap_cons, List.filterMap_nil]
      cases src.sub <;> exact .refl _
    have same := use.perm_subs subs
    rwa [refs, ← held] at same
  · exact inv.dialog.kept texts inv.dialogHolds.allocated
  · refine List.forall_mem_append.mpr ⟨fun other old => ?_, List.forall_mem_singleton.mpr attached⟩
    exact (inv.sources other old).kept texts (inv.attached_allocated old)

/-- A source less. -/
theorem Inv.remove (inv : c.Inv) {i : ℕ} {registry : ReceiveRegistry}
    (use : InUse c.refs ((c.sources.eraseIdx i).filterMap (·.sub)) registry)
    (texts : SameTexts c.control.registry registry) :
    Inv { c.withRegistry registry with sources := c.sources.eraseIdx i } := by
  refine ⟨use, inv.dialog.kept texts inv.dialogHolds.allocated, fun other member => ?_⟩
  have old := List.mem_of_mem_eraseIdx member
  exact (inv.sources other old).kept texts (inv.attached_allocated old)

theorem Inv.next {γ : Type*} [DecidableEq γ] (fromUtf8 : Bytes → γ) (inv : c.Inv)
    (event : Event) : (c.next fromUtf8 event).Inv := by
  have holds := inv.dialogHolds
  cases event with
  | create token connects =>
    have nothing : SourceClient.bzalloc.Attached c.control.registry :=
      ⟨rfl, fun sub none => by cases none⟩
    obtain ⟨use, texts, attached, held⟩ := nothing.attachSession_spec inv.use token connects
    exact inv.add held use texts attached
  | update i token connects =>
    rw [Clients.next]
    split
    · exact inv
    · rename_i src here
      split_ifs
      · exact inv
      have place := (List.getElem?_eq_some_iff.mp here).1
      have mine := inv.sources src (List.mem_of_getElem? here)
      obtain ⟨use, texts, attached, held⟩ :=
        mine.attachSession_spec (inv.use.perm_subs (subs_split here)) token connects
      exact inv.replace place held use texts attached
  | destroy i =>
    rw [Clients.next]
    split
    · exact inv
    · rename_i src here
      obtain ⟨use, texts, -⟩ := (inv.sources src (List.mem_of_getElem? here)).detach_spec
        (inv.use.perm_subs (subs_split here))
      exact inv.remove use texts
  | openDialog connects again =>
    rw [Clients.next]
    split
    · exact inv
    · rename_i closed
      rw [closed] at holds
      obtain ⟨adopted, texts⟩ :=
        adopt_spec connects (c.control.known.entries.map (·.token)) holds
      exact inv.refreshed fromUtf8 again c.control.known adopted texts
  | registerToken token connects again =>
    rw [Clients.next]
    split
    · exact inv
    · rename_i held shown
      rw [shown] at holds
      split_ifs
      · exact inv
      obtain ⟨adopted, texts⟩ := adopt_spec (fun _ => connects) [token] holds
      exact inv.refreshed fromUtf8 again _ adopted texts
  | forgetToken token again =>
    rw [Clients.next]
    split
    · exact inv
    · rename_i held shown
      rw [shown] at holds
      split_ifs
      · exact inv
      cases found : held.find? (·.1 = token) with
      | none => exact inv.refreshed fromUtf8 again _ holds (.refl _)
      | some entry =>
        have first := (DialogHolds.perm holds (perm_eraseP_of_find? found)).release
        exact inv.refreshed fromUtf8 again _ first (sameTexts_releaseNow _ _)
  | refresh connects =>
    rw [Clients.next]
    split
    · exact inv
    · rename_i held shown
      rw [shown] at holds
      exact inv.refreshed fromUtf8 connects c.control.known holds (.refl _)
  | closeDialog =>
    rw [Clients.next]
    split
    · exact inv
    · rename_i held shown
      rw [shown] at holds
      obtain ⟨use, texts⟩ := releaseAll_spec holds
      exact inv.of_references rfl use ⟨List.nodup_nil, fun _ none => absurd none List.not_mem_nil⟩
        texts
  | received data outcome =>
    obtain ⟨use, texts⟩ := received_spec (inv.use.perm List.perm_append_comm) data outcome
    exact inv.of_references rfl (use.perm List.perm_append_comm)
      (inv.dialog.kept texts holds.allocated) texts
  | properties token connects =>
    obtain ⟨got, texts, -⟩ := inv.use.get token connects
    rw [Clients.next]
    generalize c.control.registry.get token connects = given at got texts
    obtain ⟨registry, _ | s⟩ := given
    · exact inv.of_references rfl got (inv.dialog.kept texts holds.allocated) texts
    · have more := texts.trans (sameTexts_releaseNow registry s)
      exact inv.of_references rfl got.release (inv.dialog.kept more holds.allocated) more
  | known op => exact inv.of_references rfl inv.use inv.dialog (.refl _)
  | video s packet now => exact inv.called s (RxSession.keeps_recordVideo packet now)
  | audio s packet now => exact inv.called s (RxSession.keeps_recordAudio packet now)
  | state s newState => exact inv.called s (RxSession.keeps_enter newState)

/-- The sessions that somebody holds, once for each reference and each subscription. -/
def holdings (c : Clients) : List ℕ := c.refs ++ c.subs.map (·.session)

/-- Along every run there is a session exactly while a source, the dialog or the control plane
holds it. Its counter is the number of these holders, it is destroyed once when the last of
them has gone, and its packets go to the sources that are subscribed. Everyone holds a session
of the token that it asked for, and whoever asked with the same text holds the same one. -/
theorem sessions_of_clients {γ : Type*} [DecidableEq γ] (fromUtf8 : Bytes → γ)
    (known : KnownTokens) (events : List Event) :
    let c := after fromUtf8 known events
    let r := c.control.registry
    r.sessions.Nodup ∧ (∀ s, s ∈ r.sessions ↔ s ∈ c.holdings) ∧
      (∀ s, (r.memory s).refcount = c.holdings.count s) ∧
      (∀ s < r.allocated, r.freed.count s = if s ∈ c.holdings then 0 else 1) ∧
      c.subs.Nodup ∧ (∀ s, (r.memory s).subs.Perm (c.subs.filter (·.session = s))) ∧
      (∀ s ∈ c.holdings, ∀ t ∈ c.holdings, (r.memory s).token = (r.memory t).token → s = t) ∧
      (∀ entry ∈ c.dialog.getD [], (r.memory entry.2).token = entry.1) ∧
      ∀ src ∈ c.sources, src.Attached r := by
  intro c r
  have kept : ∀ (d : Clients) (event : Event), d.Inv → (d.next fromUtf8 event).Inv :=
    fun d event inv => inv.next fromUtf8 event
  have inv : c.Inv := run_invariant _ _ kept (inv_start known) events
  have listed (s : ℕ) : s ∈ r.sessions ↔ s ∈ c.holdings :=
    (inv.use.sound.listed_iff s).trans List.count_pos_iff
  refine ⟨inv.use.sound.nodup, listed, inv.use.sound.counted, fun s there => ?_,
    inv.use.books.distinct, inv.use.books.lists, fun s here t also => ?_, inv.dialog.named,
    inv.sources⟩
  · split_ifs with held
    · exact (inv.use.sound.living s (List.count_pos_iff.mpr held)).2
    · exact inv.use.sound.gone s there (List.count_eq_zero.mpr held)
  · exact inv.use.books.texts s ((listed s).mpr here) t ((listed t).mpr also)

end Clients

end Tether.Plugin
