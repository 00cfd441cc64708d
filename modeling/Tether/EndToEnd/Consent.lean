import Tether.EndToEnd.KnockData

/-!
# Acceptance needs the user

A pinned fingerprint lets a later knock in without a question. The sender does not
read a knock as JSON: for the fingerprint it takes what stands between the first
`"fingerprint":"` anywhere in the frame and the next quote, cut to its buffer. So what it
goes by need not be what the receiver has announced.

The frames here are arbitrary: whatever the room forwards of a hello, and whatever else
may arrive.

## Main definitions

* `Announcement` — what a frame says that the sender takes for a knock
* `Consented` — the user has accepted the peer, or pinned its fingerprint
* `TellsApart` — a knock that meets a pinned entry announces its fingerprint

## Main results

* `announced_pending` — the room's frame announces the fingerprint of the hello
* `announcement_frame` — what the sender extracts of it, if the hello has texts
* `accepted_with_consent` — if every knock tells apart, acceptance needs the user
* `unknown_peer_accepted` — two receivers without a fingerprint are not told apart
-/

namespace Tether.EndToEnd

open Text Js Semantics Plugin

/-! ### Announcements -/

/-- What a knock says of a receiver. -/
structure Announcement where
  /-- The identifier as the entry has it. -/
  peerId : Bytes
  /-- The text that the sender takes for the fingerprint. -/
  extracted : Bytes
  /-- The fingerprint that is announced, empty if there is none. -/
  announced : Str

section Engine

variable (engine : Engine)

/-- The fingerprint of a frame that is read as JSON. -/
def announcedBy (json : Bytes) : Str :=
  textOf (((decodeUtf8 json).bind (parse engine)).bind (·.get? (str "fingerprint")))

/-- The announcement of a frame that the sender takes for a knock. -/
def announcement? : Sender.Event → Option Announcement
  | .message json _ _ =>
    match handleMessage json with
    | some (.requestPending, ⟨some peerId, some payload⟩) =>
      some ⟨strncpy 64 peerId, Sender.textBuffer "fingerprint" payload, announcedBy engine json⟩
    | _ => none
  | _ => none

/-- The announcements of a run. -/
def announcements (events : List Sender.Event) : List Announcement :=
  events.filterMap (announcement? engine)

/-- The user has accepted this peer, with a pin if `pin` says so. -/
def UserAccepts (events : List Sender.Event) (peerId : Bytes) (pin : Bool) : Prop :=
  ∃ connected, .accept peerId pin connected ∈ events

/-- The user has accepted this very peer, or the peer has announced a fingerprint
that an earlier one had announced which the user accepted with a pin. -/
def Consented (events : List Sender.Event) (peerId : Bytes) : Prop :=
  (∃ pin, UserAccepts events peerId pin) ∨
    ∃ before event later a, events = before ++ event :: later ∧
      announcement? engine event = some a ∧ a.peerId = peerId ∧ a.announced ≠ [] ∧
      ∃ a' ∈ announcements engine before,
        UserAccepts before a'.peerId true ∧ a'.announced = a.announced

/-- If what the sender extracts from a knock is the fingerprint of a pinned entry, the knock
has announced a fingerprint, and no earlier knock from which the same is extracted has
announced another one. -/
def TellsApart (s : Sender) (earlier : List Announcement) (event : Sender.Event) : Prop :=
  ∀ a ∈ announcement? engine event, (∃ q ∈ s.adm.peers, q.pinned ∧ q.fingerprint = a.extracted) →
    a.announced ≠ [] ∧ ∀ a' ∈ earlier, a'.extracted = a.extracted → a'.announced = a.announced

instance (s : Sender) (earlier : List Announcement) (event : Sender.Event) :
    Decidable (TellsApart engine s earlier event) :=
  inferInstanceAs (Decidable (∀ a ∈ _, (∃ q ∈ _, _ ∧ _) → _ ∧ ∀ a' ∈ _, _ → _))

end Engine

section Room

variable (engine : Engine)

theorem fingerprint_pending (id : Backend.Uuid) (hello : Value) :
    (Backend.pending id hello).get? (str "fingerprint") =
      some (Value.orElse (.str []) (hello.get? (str "fingerprint"))) := by
  have shape : Backend.pending id hello =
      .obj [(str "type", .str (str "pending")), (str "peer_id", .str id.str),
        (str "name", Value.orElse (.str []) (hello.get? (str "name"))),
        (str "fingerprint", Value.orElse (.str []) (hello.get? (str "fingerprint")))] := rfl
  rw [shape, Value.get?, List.lookup_cons]
  rfl

/-- What the room forwards of a hello announces the fingerprint of the hello, whatever else
the hello says. -/
theorem announced_pending {id : Backend.Uuid} {hello : Value}
    (canonical : Canonical engine (Backend.pending id hello)) :
    announcedBy engine (utf8 (stringify (Backend.pending id hello))) =
      textOf (hello.get? (str "fingerprint")) := by
  rw [announcedBy, decodeUtf8_utf8, Option.bind_some, parse_stringify engine canonical,
    Option.bind_some, fingerprint_pending]
  rcases hello.get? (str "fingerprint") with - | value
  · rfl
  · cases value <;> rfl

theorem canonical_pending (k : Knock) : Canonical engine (Backend.pending k.id k.hello) := by
  rw [pending_eq]
  exact ⟨rfl, trivial, rfl, trivial, rfl, trivial, rfl, trivial, trivial⟩

/-- The sender extracts the shortened fingerprint, if the hello has texts. -/
theorem announcement_frame (k : Knock) (now : UInt64) (connected : Connected) :
    announcement? engine (.message k.frame now connected) =
      some ⟨k.id.text, shortened k.announced, k.announced⟩ := by
  have id : strncpy 64 k.id.text = k.id.text := strncpy_of_lt (by rw [k.id.length]; decide)
  have announced : announcedBy engine k.frame = k.announced :=
    announced_pending engine (canonical_pending engine k)
  simp only [announcement?, handleMessage_frame, textBuffer_frame, id, announced]

end Room

/-! ### The invariant -/

section Invariant

variable {engine : Engine}

section Concat

variable {events : List Sender.Event} {peerId : Bytes} {pin : Bool}

theorem UserAccepts.concat (accepts : UserAccepts events peerId pin) (event : Sender.Event) :
    UserAccepts (events ++ [event]) peerId pin := by
  obtain ⟨connected, member⟩ := accepts
  exact ⟨connected, List.mem_append_left _ member⟩

theorem Consented.concat (consented : Consented engine events peerId) (event : Sender.Event) :
    Consented engine (events ++ [event]) peerId := by
  obtain ⟨pin, accepts⟩ | ⟨before, knock, later, a, rfl, known⟩ := consented
  · exact .inl ⟨pin, accepts.concat event⟩
  · exact .inr ⟨before, knock, later ++ [event], a, by simp, known⟩

theorem mem_announcements_concat {a : Announcement} (member : a ∈ announcements engine events)
    (event : Sender.Event) : a ∈ announcements engine (events ++ [event]) := by
  rw [announcements, List.filterMap_append]
  exact List.mem_append_left _ member

/-- The identifier has been cut to the buffer of the entry. -/
theorem strncpy_announced {a : Announcement} (member : a ∈ announcements engine events) :
    strncpy 64 a.peerId = a.peerId := by
  obtain ⟨event, -, knocks⟩ := List.mem_filterMap.mp member
  cases event with
  | message json now connected =>
    simp only [announcement?] at knocks
    split at knocks
    · obtain rfl := Option.some.inj knocks
      exact strncpy_strncpy 64 _
    · cases knocks
  | _ => cases knocks

end Concat

/-- The entries are explained by the run: each by its knock, each pin by a user
who accepted with a pin, and each acceptance by consent. -/
structure Explained (engine : Engine) (events : List Sender.Event) (p : Peer) : Prop where
  knocked : ∃ a ∈ announcements engine events, p.peerId = a.peerId ∧ p.fingerprint = a.extracted
  pinned : p.pinned → ∃ a ∈ announcements engine events,
    UserAccepts events a.peerId true ∧ p.fingerprint = a.extracted
  accepted : p.state = .accepted → Consented engine events p.peerId

theorem Explained.concat {events : List Sender.Event} {p : Peer}
    (explained : Explained engine events p) (event : Sender.Event) :
    Explained engine (events ++ [event]) p := by
  obtain ⟨⟨a, member, texts⟩, pinned, accepted⟩ := explained
  refine ⟨⟨a, mem_announcements_concat member event, texts⟩, fun pin => ?_, fun state => ?_⟩
  · obtain ⟨root, known, accepts, same⟩ := pinned pin
    exact ⟨root, mem_announcements_concat known event, accepts.concat event, same⟩
  · exact (accepted state).concat event

/-- An entry that a call changes stays explained. -/
theorem explained_of_changes {s : Sender} {events : List Sender.Event} {event : Sender.Event}
    {op : Admission.Op} {p q : Peer} (explained : Explained engine events p)
    (calls : s.Calls event op) (changes : op.Changes p q) :
    Explained engine (events ++ [event]) q := by
  obtain ⟨named, announced⟩ := changes.texts
  obtain ⟨a, member, id, fingerprint⟩ := explained.knocked
  have user (pin : Bool) (accepts : op = .accept p.peerId pin) :
      UserAccepts (events ++ [event]) p.peerId pin := by
    subst accepts
    cases calls with
    | accept _ _ connected => exact ⟨connected, List.mem_append_right _ (List.mem_singleton_self _)⟩
  refine ⟨⟨a, mem_announcements_concat member event, named.trans id, announced.trans fingerprint⟩,
    fun pinned => ?_, fun accepted => ?_⟩
  · by_cases before : p.pinned
    · obtain ⟨root, known, accepts, same⟩ := explained.pinned before
      exact ⟨root, mem_announcements_concat known event, accepts.concat event,
        announced.trans same⟩
    · -- the pin is new, so this is an acceptance with a pin
      cases changes with
      | accepted _ pin =>
        obtain rfl : pin = true := by simpa [Peer.set, before] using pinned
        exact ⟨a, mem_announcements_concat member event, id ▸ user true rfl, fingerprint⟩
      | kept => exact absurd pinned before
      | rejected | disconnected | revoked => simp [Peer.set, before] at pinned
  · rw [named]
    cases changes with
    | kept => exact (explained.accepted accepted).concat event
    | accepted _ pin => exact .inl ⟨pin, user pin rfl⟩
    | rejected | disconnected | revoked => simp [Peer.set] at accepted

/-- A knock that tells apart gets an entry that is explained. -/
theorem explained_of_knock {s : Sender} {events : List Sender.Event} {event : Sender.Event}
    {a : Announcement} (knocks : announcement? engine event = some a)
    (tellsApart : TellsApart engine s (announcements engine events) event)
    (explained : ∀ p ∈ s.adm.peers, Explained engine events p) {p : Peer}
    (peerId : p.peerId = a.peerId) (fingerprint : p.fingerprint = a.extracted)
    (pin : (p.pinned ∨ p.state = .accepted) →
      ∃ q ∈ s.adm.peers, q.pinned ∧ q.fingerprint = a.extracted) :
    Explained engine (events ++ [event]) p := by
  have member : a ∈ announcements engine (events ++ [event]) := by
    rw [announcements, List.filterMap_append]
    exact List.mem_append_right _ (by simp [knocks])
  -- with a pin that matches the entry is accepted at once, and inherits the consent
  refine ⟨⟨a, member, peerId, fingerprint⟩, fun pinned => ?_, fun accepted => ?_⟩
  · obtain ⟨q, entry, pinned, same⟩ := pin (.inl pinned)
    obtain ⟨root, known, accepts, extracts⟩ := (explained q entry).pinned pinned
    exact ⟨root, mem_announcements_concat known _, accepts.concat _,
      fingerprint.trans (same.symm.trans extracts)⟩
  · obtain ⟨q, entry, pinned, same⟩ := pin (.inr accepted)
    obtain ⟨root, known, accepts, extracts⟩ := (explained q entry).pinned pinned
    obtain ⟨nonempty, apart⟩ := tellsApart a knocks ⟨q, entry, pinned, same⟩
    exact .inr ⟨events, event, [], a, rfl, knocks, peerId.symm, nonempty, root, known, accepts,
      apart root known (extracts.symm.trans same)⟩

/-- Every entry stays explained, if the event tells apart. -/
theorem explained_next {s : Sender} {events : List Sender.Event} {event : Sender.Event}
    (tellsApart : TellsApart engine s (announcements engine events) event)
    (explained : ∀ p ∈ s.adm.peers, Explained engine events p) :
    ∀ q ∈ (s.next event).adm.peers, Explained engine (events ++ [event]) q := by
  intro q member
  obtain same | ⟨op, calls, changed⟩ := s.next_adm event
  · rw [same] at member
    exact (explained q member).concat event
  · rw [changed] at member
    obtain ⟨n, entry⟩ := List.mem_iff_getElem?.mp member
    obtain ⟨p, old, changes⟩ | ⟨peerId, name, fingerprint, now, rfl, rfl, -⟩ :=
      s.adm.entry_origin op entry
    · -- an entry that was there has at most changed its state
      exact explained_of_changes (explained p (List.mem_of_getElem? old)) calls changes
    · cases calls with
      | knock raised =>
        rename_i json payload connected
        have knocks : announcement? engine (.message json now connected) =
            some ⟨strncpy 64 peerId, Sender.textBuffer "fingerprint" payload,
              announcedBy engine json⟩ := by
          rw [announcement?, raised]
        obtain ⟨-, texts⟩ := @Admission.knockedPeer_texts s.adm peerId
          (Sender.textBuffer "name" payload) (Sender.textBuffer "fingerprint" payload) now
        exact explained_of_knock knocks tellsApart explained Admission.knockedPeer_peerId
          (texts.trans (strncpy_strncpy 128 _)) Admission.pin_of_knockedPeer

end Invariant

/-! ### The result -/

section Run

variable {engine : Engine} {cfg : SenderConfig} {fresh : Sender}
  (created : Sender.create cfg = some fresh)

include created

/-- Along a run whose knocks tell apart, every entry is explained. -/
theorem explained_run {events : List Sender.Event}
    (tellApart : EveryStep (fun before event =>
      TellsApart engine (fresh.after before) (announcements engine before) event) events) :
    ∀ p ∈ (fresh.after events).adm.peers, Explained engine events p := by
  refine guarded_induction (fun events => ∀ p ∈ (fresh.after events).adm.peers,
    Explained engine events p) ?_ ?_ events tellApart
  · simp [Sender.after, (Sender.empty_of_create created).1]
  · intro before event invariant tellsApart
    rw [Sender.after_concat]
    exact explained_next tellsApart invariant

/-- A session with a connection is one of an accepted entry, then or earlier. -/
theorem consented_sessions {events : List Sender.Event}
    (tellApart : EveryStep (fun before event =>
      TellsApart engine (fresh.after before) (announcements engine before) event) events) :
    ∀ r ∈ (fresh.after events).sessions, r.wrtc ≠ none → Consented engine events r.peerId := by
  induction events using List.reverseRecOn with
  | nil => simp [Sender.after, (Sender.empty_of_create created).2]
  | append_singleton before event ih =>
    intro r member live
    have now := explained_run created tellApart
    rw [Sender.after_concat] at member now
    obtain ⟨old, -⟩ | ⟨peer, entry, state, named⟩ := Sender.live_session member live
    · -- a session that was there, or one that an accepted entry has got now
      exact (ih tellApart.of_append r old live).concat event
    · obtain ⟨a, announced, id, -⟩ := (now peer entry).knocked
      rw [named, id, strncpy_announced announced, ← id]
      exact (now peer entry).accepted state

end Run

/-- If every knock of a run tells apart, then whoever is accepted, has a session
with a connection or is sent an acceptance has the user's consent. -/
theorem accepted_with_consent (engine : Engine) {cfg : SenderConfig} {fresh : Sender}
    (created : Sender.create cfg = some fresh) (events : List Sender.Event)
    (tellApart : EveryStep (fun before event =>
      TellsApart engine (fresh.after before) (announcements engine before) event) events) :
    (∀ p ∈ (fresh.after events).adm.peers, p.state = .accepted →
      Consented engine events p.peerId) ∧
    (∀ r ∈ (fresh.after events).sessions, r.wrtc ≠ none → Consented engine events r.peerId) ∧
    ∀ before event later, events = before ++ event :: later →
      ∀ peerId, .signal (.accept peerId) ∈ fresh.effectsAt before event →
        Consented engine (before ++ [event]) peerId := by
  refine ⟨fun p member => (explained_run created tellApart p member).accepted,
    consented_sessions created tellApart, ?_⟩
  intro before event later split peerId sent
  obtain ⟨peer, entry, state, rfl⟩ := Sender.accept_signal sent
  have reached : EveryStep (fun before event =>
      TellsApart engine (fresh.after before) (announcements engine before) event)
        (before ++ [event]) := by
    refine EveryStep.of_append (?_ : EveryStep _ ((before ++ [event]) ++ later))
    rw [List.append_assoc, List.singleton_append, ← split]
    exact tellApart
  have now := explained_run created reached
  rw [Sender.after_concat] at now
  exact (now peer entry).accepted state

/-- The user pins one receiver, and another one announces the same fingerprint. -/
def pinnedRun : List Sender.Event :=
  [.message (announcing 1 (str "AB:CD")).frame 0 none,
    .accept (Backend.numbered 1).text true none,
    .message (announcing 2 (str "AB:CD")).frame 1 none]

/-- The second receiver of the sample is accepted, with consent. -/
theorem accepted_with_consent_pinned : ∃ fresh, Sender.create Sender.sampleConfig = some fresh ∧
    ∃ p ∈ (fresh.after pinnedRun).adm.peers, p.state = .accepted ∧
      p.peerId = (Backend.numbered 2).text ∧ Consented asciiEngine pinnedRun p.peerId := by
  have created : Sender.create Sender.sampleConfig = some _ := rfl
  have entry : ((Sender.create Sender.sampleConfig).any fun fresh =>
      (fresh.after pinnedRun).adm.peers[1]?.any fun p =>
        p.state = .accepted && p.peerId = (Backend.numbered 2).text) = true := by
    decide +kernel
  rw [created, Option.any_some, Option.any_eq_true] at entry
  obtain ⟨p, place, facts⟩ := entry
  simp only [Bool.and_eq_true, decide_eq_true_eq] at facts
  have member := List.mem_of_getElem? place
  refine ⟨_, created, p, member, facts.1, facts.2, ?_⟩
  exact (accepted_with_consent asciiEngine created pinnedRun (by decide +kernel)).1 p member facts.1

/-! ### Receivers without a fingerprint -/

/-- A receiver with the plugin's own client. -/
def sampleReceiver : Signaling where
  role := .receiver
  displayName := bytes "guest"
  token := some (bytes "TTHR-ABCD-EFGH-JKMN")
  tokenTtlMinutes := 0
  reusableToken := false

/-- The client's hello, as the room reads it. It carries no fingerprint. -/
def sampleHello : Value :=
  ((decodeUtf8 (helloText sampleReceiver)).bind (parse asciiEngine)).getD .null

/-- A guest that knocks is announced by the room. -/
def guestKnock (n : Fin 10) : Bytes :=
  utf8 (stringify (Backend.pending (Backend.numbered n) sampleHello))

/-- The user pins one guest, and another one knocks. -/
def guestRun : List Sender.Event :=
  [.message (guestKnock 1) 0 none, .accept (Backend.numbered 1).text true (some [1]),
    .message (guestKnock 2) 1 (some [1])]

/-- The second guest is accepted: the empty fingerprint that it does not announce
is the empty fingerprint of the pinned entry. -/
theorem unknown_peer_accepted :
    ∃ fresh, Sender.create Sender.sampleConfig = some fresh ∧
      (∃ p ∈ (fresh.after guestRun).adm.peers, p.state = .accepted ∧
        p.peerId = (Backend.numbered 2).text) ∧
      ¬ Consented asciiEngine guestRun (Backend.numbered 2).text := by
  have created : Sender.create Sender.sampleConfig = some _ := rfl
  have entry : ((Sender.create Sender.sampleConfig).any fun fresh =>
      decide (∃ p ∈ (fresh.after guestRun).adm.peers, p.state = .accepted ∧
        p.peerId = (Backend.numbered 2).text)) = true := by
    decide +kernel
  rw [created, Option.any_some, decide_eq_true_eq] at entry
  refine ⟨_, created, entry, ?_⟩
  rintro (⟨pin, connected, accepts⟩ | ⟨before, event, later, a, split, knocks, -, announced, -⟩)
  · have other : (Backend.numbered 2).text ≠ (Backend.numbered 1).text := by decide
    simp [guestRun, other] at accepts
  · have silent : ∀ event ∈ guestRun, ∀ a ∈ announcement? asciiEngine event, a.announced = [] := by
      decide +kernel
    refine announced (silent event ?_ a knocks)
    rw [split]
    exact List.mem_append_right _ List.mem_cons_self

end Tether.EndToEnd
