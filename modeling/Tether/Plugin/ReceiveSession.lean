import Tether.Plugin.Sender

/-!
# The receiving session

The receiver's side of the exchange: its state, and the decoder of the offer,
which looks for the closing quote first and resolves the escapes behind.

## Main definitions

* `ReceiveSession.signalingEvent`, `ReceiveSession.wrtcStateCb` — the callbacks
* `ReceiveSession.wrtcLocalSdp`, `ReceiveSession.wrtcLocalIce` — what it sends to the sender
* `unescape` — the escapes of an offer resolved

## Main results

* `offerText_stringify` — what the decoder reads out of serialised JSON
-/

namespace Tether.Plugin

open Text Js

inductive ReceiveState
  | connecting
  | awaitingAccept
  | accepted
  | negotiating
  | connected
  | failed
  | closed
  deriving DecidableEq

/-- The escapes that the decoder knows stand for a control character, any other
escaped byte for itself. -/
def unescapeByte (e : UInt8) : UInt8 :=
  match e with
  | 110 => 10
  | 114 => 13
  | 116 => 9
  | e => e

def unescape : Bytes → Bytes
  | 92 :: e :: rest => unescapeByte e :: unescape rest
  | b :: rest => b :: unescape rest
  | [] => []

namespace ReceiveSession

/-- The signaling client that `session_create_locked` sets up for a token. -/
def signaling (canon : Bytes) : Signaling where
  role := .receiver
  displayName := bytes "Tether"
  token := some canon
  tokenTtlMinutes := 0
  reusableToken := false

/-- A call that leaves the session. -/
inductive Effect
  | onState (state : ReceiveState)
  | applyRemoteSdp (sdpType sdp : Bytes)
  | addRemoteIce (candidate mid : Bytes)
  deriving DecidableEq

/-- `set_state`: the subscribers hear of a change. -/
def setState (state newState : ReceiveState) : ReceiveState × List Effect :=
  if state = newState then (state, []) else (newState, [.onState newState])

/-- The text of the `sdp` member of an offer. -/
def offerText (json : Bytes) : Option Bytes :=
  (strstr (memberPattern (bytes "sdp")) json).map fun found =>
    unescape (stringSpan (found.drop (memberPattern (bytes "sdp")).length))

/-- An offer in this state is a duplicate. -/
def ignoresOffer : ReceiveState → Bool
  | .negotiating | .connected | .failed | .closed => true
  | _ => false

/-- `signaling_event`. -/
def signalingEvent (state : ReceiveState) (evt : SignalingEvent) (msg : Msg) :
    ReceiveState × List Effect :=
  match evt with
  | .requestAccepted =>
    -- Past ACCEPTED, a fresh 'accepted' from the sender is a retry signal.
    if state = .negotiating ∨ state = .connected then (state, [])
    else setState state .accepted
  | .tokenInvalid => setState state .failed
  | .tokenLockedOut => setState state .failed
  | .sdpOffer =>
    if ignoresOffer state then (state, [])
    else
      let (state, effects) := setState state .negotiating
      match msg.jsonPayload.bind offerText with
      | none => (state, effects)
      | some sdp => (state, effects ++ [.applyRemoteSdp (bytes "offer") sdp])
  | .iceCandidate =>
    match msg.jsonPayload.bind (Sender.textMember "candidate"),
      msg.jsonPayload.bind (Sender.textMember "mid") with
    | some cand, some mid => (state, [.addRemoteIce cand mid])
    | _, _ => (state, [])
  | _ => (state, [])

/-- A text frame of the signaling connection. -/
def onMessage (state : ReceiveState) (json : Bytes) : ReceiveState × List Effect :=
  match handleMessage json with
  | none => (state, [])
  | some (evt, msg) => signalingEvent state evt msg

def wrtcStateCb (state : ReceiveState) : WebrtcState → ReceiveState × List Effect
  | .new | .connecting => setState state .negotiating
  | .connected => setState state .connected
  | .failed => setState state .failed
  | .closed => setState state .closed

/-- `wrtc_local_sdp`: the session does not know the identifier of the sender's record. -/
def wrtcLocalSdp (sdpType sdp : Bytes) : Signal := .sendSdp (bytes "sender") sdpType sdp

def wrtcLocalIce (candidate mid : Bytes) (mlineIndex : ℤ) : Signal :=
  .sendIce (bytes "sender") candidate mid mlineIndex

/-! ### The decoder -/

/-- On serialised JSON the decoder resolves the whole text of the first member
that it cannot tell from `sdp`. -/
theorem offerText_stringify (value : Value) :
    offerText (utf8 (stringify value)) =
      (firstHit (ofAscii (bytes "sdp")) value).map fun s => unescape (body s) := by
  let read (start : Bytes) : Bytes := unescape (stringSpan start)
  have reads (body tail : Bytes) (wellFormed : Body body) :
      read (body ++ quote :: tail) = unescape body := by
    simp only [read, stringSpan_body wellFormed]
  have nonempty : bytes "sdp" ≠ [] := by decide
  have letters : ∀ b ∈ bytes "sdp", b = 95 ∨ 97 ≤ b.toNat ∧ b.toNat ≤ 122 := by decide
  exact strstr_stringify nonempty letters reads value

end ReceiveSession

end Tether.Plugin
