import Tether.Plugin.Sender

/-!
# Answers and fingerprints

A receiver announces a fingerprint when it knocks, and the fingerprint that secures
the media comes in its answer. The sender records the first one and applies every
answer without looking at the second, so the two are bound to each other only while
there is nothing to apply an answer to.

## Main definitions

* `fingerprintOf` — the fingerprint of an SDP text
* `Sender.connectionOf` — the peer connection of an entry
* `Sender.Binds` — the event applies no answer with another fingerprint

## Main results

* `span_of_entry` — an entry's identifier can be written into a frame
* `handle_sdpAnswer` — an answer for a live session is applied
* `binds_iff` — answers are bound exactly while no accepted entry has a connection
* `foreign_answer_applied` — an answer with another fingerprint
-/

namespace Tether.Plugin

open Text Semantics

/-! ### Spans -/

/-- Over a byte that is neither a quote nor the start of an escape. -/
theorem stringSpan_cons {b : UInt8} {rest : Bytes} (notQuote : b ≠ quote)
    (alone : b = backslash → rest = []) : stringSpan (b :: rest) = b :: stringSpan rest := by
  rw [stringSpan.eq_def]
  split
  · rename_i same
    obtain ⟨rfl, rfl⟩ := List.cons.inj same
    exact absurd (alone rfl) (by simp)
  · rename_i same
    obtain ⟨rfl, rfl⟩ := List.cons.inj same
    rw [if_neg notQuote]
  · contradiction

/-- A backslash that starts no escape is the last byte. -/
theorem eq_nil_of_not_escape {b : UInt8} {rest : Bytes}
    (notEscape : ∀ c more, b = 92 → rest = c :: more → False) (escape : b = backslash) :
    rest = [] := by
  cases rest with
  | nil => rfl
  | cons c more => exact absurd rfl (notEscape c more escape)

/-- A span is read again as it is. -/
theorem stringSpan_stringSpan (start : Bytes) : stringSpan (stringSpan start) = stringSpan start := by
  induction start using stringSpan.induct with
  | case1 b rest ih => rw [stringSpan, stringSpan, ih]
  | case2 rest notEscape => rfl
  | case3 b rest notEscape notQuote ih =>
    have alone := eq_nil_of_not_escape notEscape
    rw [stringSpan_cons notQuote alone, stringSpan_cons notQuote fun escape => ?_, ih]
    rw [alone escape]
    rfl
  | case4 => rfl

/-- What has been read up to a quote is read again as it is, even if it is cut. -/
theorem stringSpan_take {span : Bytes} (same : stringSpan span = span) (n : ℕ) :
    stringSpan (span.take n) = span.take n := by
  induction span using stringSpan.induct generalizing n with
  | case1 b rest ih =>
    rw [stringSpan] at same
    have behind := (List.cons.inj (List.cons.inj same).2).2
    rcases n with _ | _ | n
    · rfl
    · rfl
    · rw [List.take_succ_cons, List.take_succ_cons, stringSpan, ih behind]
  | case2 rest notEscape =>
    rw [stringSpan.eq_def] at same
    simp at same
  | case3 b rest notEscape notQuote ih =>
    have alone := eq_nil_of_not_escape notEscape
    rw [stringSpan_cons notQuote alone] at same
    cases n with
    | zero => rfl
    | succ n =>
      rw [List.take_succ_cons, stringSpan_cons notQuote fun escape => by rw [alone escape]; simp,
        ih (List.cons.inj same).2]
  | case4 => rw [List.take_nil]; rfl

theorem span_of_jsonFindFrom {key json value : Bytes} {previous : Option UInt8}
    (found : jsonFindFrom key previous json = some value) : stringSpan value = value := by
  have occurrence {previous : Option UInt8} {p : Bytes}
      (found : stringAt key previous p = some value) : stringSpan value = value := by
    rw [stringAt] at found
    split_ifs at found
    split at found
    · rw [← Option.some.inj found, stringSpan_stringSpan]
    · cases found
  induction json generalizing previous with
  | nil => exact occurrence found
  | cons b rest ih =>
    rw [jsonFindFrom, Option.or_eq_some_iff] at found
    rcases found with here | ⟨-, later⟩
    · exact occurrence here
    · exact ih later

namespace Sender

/-! ### Identifiers -/

/-- The identifier of an event is a span. -/
theorem span_of_raised {json peerId payload : Bytes}
    (raised : handleMessage json = some (.requestPending, ⟨some peerId, some payload⟩)) :
    stringSpan peerId = peerId := by
  rcases handleMessage_namesPeerOf json _ raised with none | found
  · cases none
  · exact span_of_jsonFindFrom found.symm

/-- An entry's identifier can be written into a frame. -/
theorem span_of_entry {cfg : SenderConfig} {fresh : Sender} (created : create cfg = some fresh)
    (events : List Event) :
    ∀ p ∈ (fresh.after events).adm.peers, stringSpan p.peerId = p.peerId := by
  induction events using history_induction with
  | base =>
    intro p member
    have empty := (empty_of_create created).1
    rw [after, run_nil, empty] at member
    cases member
  | step before event ih =>
    intro p member
    rw [after_concat] at member
    obtain ⟨p, old, named, -⟩ | ⟨peerId, _, _, _, calls, rfl⟩ := entry_next member
    · rw [named]
      exact ih p old
    · cases calls with
      | knock raised =>
        rw [Admission.knockedPeer_peerId]
        exact stringSpan_take (span_of_raised raised) 63

/-! ### Answers -/

/-- The value of the first fingerprint line of an SDP text. -/
def fingerprintOf (sdp : Bytes) : Option Bytes :=
  (strstr (bytes "a=fingerprint:") sdp).map fun found =>
    (found.drop (bytes "a=fingerprint:").length).takeWhile fun b => b ≠ 13 ∧ b ≠ 10

/-- The peer connection of an entry. -/
def connectionOf (s : Sender) (p : Peer) : Option ℕ := (s.findSession p.peerId).bind (·.wrtc)

/-- The event applies no answer to the connection of an accepted entry but one with
the fingerprint of the entry. -/
def Binds (s : Sender) (event : Event) : Prop :=
  ∀ wrtc sdp, .applyRemoteSdp wrtc (bytes "answer") sdp ∈ (s.handle event).2 →
    ∀ p ∈ s.adm.peers, p.state = .accepted → s.connectionOf p = some wrtc →
      fingerprintOf sdp = some p.fingerprint

/-- An answer for a live session is applied, whatever it says. -/
theorem handle_sdpAnswer (s : Sender) {json peerId sdp : Bytes} {wrtc : ℕ}
    (raised : handleMessage json = some (.sdpAnswer, ⟨some peerId, some json⟩))
    (text : textMember "sdp" json = some sdp)
    (live : (s.findSession peerId).bind (·.wrtc) = some wrtc) (now : UInt64)
    (connected : Connected) :
    s.handle (.message json now connected) = (s, [.applyRemoteSdp wrtc (bytes "answer") sdp]) := by
  rw [handle, onMessage, raised]
  have same : (findSession { s with sig := s.sig } peerId).bind (·.wrtc) = some wrtc := live
  simp only [Signaling.keepToken, onSignalingEvent, same, text]

/-- A frame with an answer, as far as the identifier that it ends with. -/
def answerHead (fingerprint : Bytes) : Bytes :=
  123 :: (member "type" (bytes "sdp") ++ 44 :: member "sdp_type" (bytes "answer") ++
    44 :: member "sdp" (bytes "a=fingerprint:" ++ fingerprint) ++
    44 :: quote :: bytes "peer_id" ++ [quote, 58, quote])

/-- Two such frames, as the sender reads them. -/
theorem handleMessage_answerHead (peerId : Bytes) :
    (handleMessage (answerHead (bytes "00") ++ peerId) = some (.sdpAnswer,
        ⟨some (stringSpan peerId), some (answerHead (bytes "00") ++ peerId)⟩) ∧
      textMember "sdp" (answerHead (bytes "00") ++ peerId) = some (bytes "a=fingerprint:00")) ∧
    handleMessage (answerHead (bytes "01") ++ peerId) = some (.sdpAnswer,
        ⟨some (stringSpan peerId), some (answerHead (bytes "01") ++ peerId)⟩) ∧
      textMember "sdp" (answerHead (bytes "01") ++ peerId) = some (bytes "a=fingerprint:01") :=
  ⟨⟨rfl, rfl⟩, rfl, rfl⟩

/-- Whatever fingerprint is recorded, a frame applies an answer with another one. -/
theorem exists_foreign_answer (s : Sender) {peerId : Bytes} (span : stringSpan peerId = peerId)
    {wrtc : ℕ} (live : (s.findSession peerId).bind (·.wrtc) = some wrtc) (recorded : Bytes) :
    ∃ event sdp, .applyRemoteSdp wrtc (bytes "answer") sdp ∈ (s.handle event).2 ∧
      fingerprintOf sdp ≠ some recorded := by
  obtain ⟨⟨raised, text⟩, raised', text'⟩ := handleMessage_answerHead peerId
  rw [span] at raised raised'
  have values : fingerprintOf (bytes "a=fingerprint:00") = some (bytes "00") ∧
      fingerprintOf (bytes "a=fingerprint:01") = some (bytes "01") := by decide
  have applies := s.handle_sdpAnswer raised text live 0 none
  have applies' := s.handle_sdpAnswer raised' text' live 0 none
  -- one at least of the two fingerprints is not the recorded one
  by_cases same : recorded = bytes "00"
  · refine ⟨_, _, by rw [applies']; exact List.mem_singleton_self _, ?_⟩
    rw [values.2, same]
    decide
  · refine ⟨_, _, by rw [applies]; exact List.mem_singleton_self _, ?_⟩
    rw [values.1]
    exact fun equal => same (Option.some.inj equal).symm

/-- In every state of every run, whatever comes next, answers are bound to the
recorded fingerprint exactly if no accepted entry has a peer connection. -/
theorem binds_iff {cfg : SenderConfig} {fresh : Sender} (created : create cfg = some fresh)
    (before : List Event) :
    (∀ event, (fresh.after before).Binds event) ↔
      ∀ p ∈ (fresh.after before).adm.peers, p.state = .accepted →
        (fresh.after before).connectionOf p = none := by
  constructor
  · intro binds p member accepted
    by_contra connected
    obtain ⟨wrtc, live⟩ := Option.ne_none_iff_exists'.mp connected
    obtain ⟨event, sdp, applied, foreign⟩ := (fresh.after before).exists_foreign_answer
      (span_of_entry created before p member) live p.fingerprint
    exact foreign (binds event wrtc sdp applied p member accepted live)
  · intro idle event wrtc sdp _ p member accepted live
    rw [idle p member accepted] at live
    cases live

/-! ### Samples -/

/-- The frame that announces a receiver with this fingerprint. -/
def knockFrame (peerId fingerprint : Bytes) : Bytes :=
  braced (member "type" (bytes "pending") ++ 44 :: member "peer_id" peerId ++
    44 :: member "fingerprint" fingerprint)

/-- A receiver knocks, and the user accepts it. -/
def acceptedAA : List Event :=
  [.message (knockFrame (bytes "a") (bytes "AA")) 0 none, .accept (bytes "a") true (some [1])]

/-- An answer of the receiver, with this fingerprint. -/
def answerWith (fingerprint : Bytes) : Event :=
  .message (answerHead fingerprint ++ bytes "a\"\x7d") 0 none

/-- Before the receiver is accepted there is nothing to bind. -/
theorem binds_iff_pending : ∃ fresh, create sampleConfig = some fresh ∧
    (fresh.after (acceptedAA.take 1)).Binds (answerWith (bytes "BB")) := by
  have created : create sampleConfig = some _ := rfl
  have pending : ((create sampleConfig).any fun fresh =>
      (fresh.after (acceptedAA.take 1)).adm.peers.all (·.state ≠ .accepted)) = true := by
    decide +kernel
  rw [created, Option.any_some, List.all_eq_true] at pending
  refine ⟨_, created, (binds_iff created _).mpr (fun p member accepted => ?_) _⟩
  have other := pending p member
  rw [accepted] at other
  cases other

/-- An answer with another fingerprint than that of the accepted receiver. -/
theorem foreign_answer_applied : ∃ fresh, create sampleConfig = some fresh ∧
    ¬ (fresh.after acceptedAA).Binds (answerWith (bytes "BB")) := by
  have created : create sampleConfig = some _ := rfl
  have facts : ((create sampleConfig).any fun fresh =>
      (fresh.after acceptedAA).adm.peers.any (fun p => p.state = .accepted &&
        (fresh.after acceptedAA).connectionOf p = some 0 && p.fingerprint = bytes "AA") &&
      ((fresh.after acceptedAA).handle (answerWith (bytes "BB"))).2 =
        [.applyRemoteSdp 0 (bytes "answer") (bytes "a=fingerprint:BB")]) = true := by
    decide +kernel
  rw [created, Option.any_some, Bool.and_eq_true, decide_eq_true_eq] at facts
  obtain ⟨p, member, shape⟩ := List.any_eq_true.mp facts.1
  simp only [Bool.and_eq_true, decide_eq_true_eq] at shape
  refine ⟨_, created, fun binds => ?_⟩
  have bound := binds 0 (bytes "a=fingerprint:BB") (by rw [facts.2]; exact List.mem_singleton_self _)
    p member shape.1.1 shape.1.2
  rw [shape.2] at bound
  revert bound
  decide

end Sender

end Tether.Plugin
