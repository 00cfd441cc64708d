import Tether.Backend.Hosting
import Tether.Backend.Revocation

/-!
# Everyone out

A revoke walks over the receivers and says goodbye to each. It stops for good at the first
one whose socket is no longer open: the send throws, and nothing catches it.

## Main definitions

* `Room.AllOpen` — every receiver has an open socket of its own
* `ReachesEveryone` — a revoke leaves no receiver

## Main results

* `guests_of_revokes` — an initial part of the receivers goes, and the rest stays
* `reachesEveryone_iff` — everyone goes if and only if all have open sockets of their own
* `dead_receiver_shields` — a dead receiver keeps those behind it in the room
-/

namespace Tether.Backend

open Js Semantics

/-- Every receiver has an open socket, and no two have the same one. -/
structure Room.AllOpen (room : Room) : Prop where
  isOpen : ∀ p ∈ room.guests, room.IsOpen p.ws
  apart : (room.guests.map (·.ws)).Nodup

instance (room : Room) : Decidable room.AllOpen :=
  decidable_of_iff ((∀ p ∈ room.guests, room.IsOpen p.ws) ∧ (room.guests.map (·.ws)).Nodup)
    ⟨fun both => ⟨both.1, both.2⟩, fun all => ⟨all.isOpen, all.apart⟩⟩

/-- After the event no receiver has a record; every receiver has been told, unless its socket
was not open, and every receiver's socket has been closed. -/
structure ReachesEveryone (engine : Engine) (env : Env) (before : List Event) (event : Event) :
    Prop where
  empty : (after engine env (before ++ [event])).guests = []
  told : ∀ p ∈ (after engine env before).guests, (after engine env before).IsOpen p.ws →
    .send p.ws rejected ∈ effectsAt engine env before event
  closed : ∀ p ∈ (after engine env before).guests,
    .close p.ws 1000 "revoked" ∈ effectsAt engine env before event

/-! ### The loop -/

/-- The room without its token and its expiry. -/
def Room.forgotten (room : Room) : Room :=
  { room with
    token := none
    expiresAt := .fin 0
    storage := { room.storage with token := none, expiresAt := none } }

section Revokes

variable {engine : Engine} {env : Env} {before : List Event} {revoke : Event}

/-- The loop of a revoke runs when token and expiry have been forgotten. -/
theorem handle_of_revokes (revokes : Revokes engine env before revoke) :
    (after engine env before).handle engine env revoke =
      (after engine env before).forgotten.revokeReceivers (after engine env before).peers := by
  obtain ⟨d, peer, received, type, found, sender⟩ := revokes
  rw [handle_of_revoke received type, found, Option.elim_some, Room.handleRevoke,
    if_neg (not_not.mpr sender)]
  rfl

/-- An initial part of the receivers goes and the rest stays, from the first one on that has no
open socket of its own. -/
theorem guests_of_revokes (revokes : Revokes engine env before revoke) :
    ∃ served left : List PeerConn, (after engine env before).guests = served ++ left ∧
      (after engine env (before ++ [revoke])).guests = left ∧
      effectsAt engine env before revoke = served.flatMap farewell ∧
      (∀ p ∈ served, (after engine env before).IsOpen p.ws) ∧ (served.map (·.ws)).Nodup ∧
      ∀ p ∈ left.head?, (after engine env before).IsOpen p.ws → p.ws ∈ served.map (·.ws) := by
  have handled := handle_of_revokes revokes
  obtain ⟨served, left, split, state, effects, opens, apart, stuck⟩ :=
    revokeReceivers_served (after engine env before).forgotten (after engine env before).peers
  refine ⟨served, left, split, ?_, by rw [effectsAt, handled, effects], opens, apart, stuck⟩
  have ids : ((served ++ left).map (·.id)).Nodup := by
    rw [← split]
    exact (List.filter_sublist.map _).nodup (ids_nodup before)
  rw [List.map_append, List.nodup_append'] at ids
  calc (after engine env (before ++ [revoke])).guests
    _ = ((after engine env before).peers.filter
          (fun p => p.id ∉ served.map (·.id))).filter (·.role = .receiver) := by
        rw [after_concat, Room.guests, Room.next, handled, state]
        rfl
    _ = (served ++ left).filter (fun p => p.id ∉ served.map (·.id)) := by
        rw [← split, List.filter_filter, List.filter_filter]
        exact List.filter_congr fun p _ => Bool.and_comm _ _
    _ = left := by
        rw [List.filter_append]
        -- those who are served go, and the others have other identifiers
        have gone : served.filter (fun p => p.id ∉ served.map (·.id)) = [] := by
          rw [List.filter_eq_nil_iff]
          intro p member
          simpa using ⟨p, member, rfl⟩
        have stays : left.filter (fun p => p.id ∉ served.map (·.id)) = left := by
          rw [List.filter_eq_self]
          intro p member
          simpa using fun q there same =>
            ids.2.2 (List.mem_map.mpr ⟨q, there, same⟩) (List.mem_map_of_mem member)
        rw [gone, stays, List.nil_append]

/-- In every reachable room a sender's revoke reaches everyone if and only if every receiver
has an open socket of its own. -/
theorem reachesEveryone_iff (engine : Engine) (env : Env) (before : List Event) (revoke : Event)
    (revokes : Revokes engine env before revoke) :
    ReachesEveryone engine env before revoke ↔ (after engine env before).AllOpen := by
  obtain ⟨served, left, split, guests, effects, opens, apart, stuck⟩ := guests_of_revokes revokes
  constructor
  · intro reaches
    -- nobody is left, so everyone has been served
    obtain rfl : left = [] := guests.symm.trans reaches.empty
    rw [List.append_nil] at split
    refine ⟨?_, ?_⟩
    · rw [split]
      exact opens
    · rw [split]
      exact apart
  · intro all
    have none : left = [] := by
      cases left with
      | nil => rfl
      | cons p rest =>
        -- the first one that is left has a socket of its own, and it is open
        have open_ := all.isOpen p (by rw [split]; simp)
        have own := all.apart
        rw [split, List.map_append, List.nodup_append'] at own
        exact absurd (stuck p rfl open_) fun again => own.2.2 again (by simp)
    rw [none, List.append_nil] at split
    have member {p : PeerConn} (guest : p ∈ (after engine env before).guests) {effect : Effect}
        (owed : effect ∈ farewell p) : effect ∈ effectsAt engine env before revoke := by
      rw [effects]
      exact List.mem_flatMap.mpr ⟨p, split ▸ guest, owed⟩
    exact ⟨guests.trans none, fun p guest _ => member guest List.mem_cons_self,
      fun p guest => member guest (List.mem_cons_of_mem _ List.mem_cons_self)⟩

end Revokes

/-! ### Samples -/

/-- A sender and two receivers. -/
def crowd : List Event :=
  [connect, arrival 0 0 0 (helloAs "sender"), connect, arrival 1 1 1 (helloAs "receiver"),
    connect, arrival 2 2 2 (helloAs "receiver")]

/-- The sender revokes the token. -/
def everyoneOut : Event := arrival 0 4 4 (message "revoke" [])

/-- The first receiver says hello again, with another token. The room closes its socket and
keeps its record. -/
def deadReceiver : List Event :=
  crowd ++ [arrival 1 3 3 (message "hello" [("role", .str (str "receiver")),
    ("token", .str (str "TTHR"))])]

private theorem everyoneOut_revokes (before : List Event)
    (facts : (((after asciiEngine .deployed before).received? asciiEngine everyoneOut).any
      fun d => d.ws = 0 && Room.isType "revoke" d.msg) = true)
    (host : ((after asciiEngine .deployed before).findPeerByWs 0).any
      (fun p => p.role = .sender) = true) :
    Revokes asciiEngine .deployed before everyoneOut := by
  obtain ⟨d, received, shape⟩ := (Option.any_eq_true ..).mp facts
  obtain ⟨peer, found, role⟩ := (Option.any_eq_true ..).mp host
  simp only [Bool.and_eq_true, decide_eq_true_eq] at shape role
  exact ⟨d, peer, received, shape.2, by rw [shape.1, found], role⟩

/-- With open sockets both receivers go. -/
theorem reachesEveryone_crowd : ReachesEveryone asciiEngine .deployed crowd everyoneOut :=
  (reachesEveryone_iff asciiEngine .deployed crowd everyoneOut
    (everyoneOut_revokes crowd (by decide +kernel) (by decide +kernel))).mpr (by decide +kernel)

/-- Behind a dead receiver nobody goes, and nobody hears of the revoke. -/
theorem dead_receiver_shields :
    Revokes asciiEngine .deployed deadReceiver everyoneOut ∧
      ((after asciiEngine .deployed (deadReceiver ++ [everyoneOut])).guests.map (·.ws)) = [1, 2] ∧
      (after asciiEngine .deployed deadReceiver).IsOpen 2 ∧
      effectsAt asciiEngine .deployed deadReceiver everyoneOut = [] ∧
      ¬ ReachesEveryone asciiEngine .deployed deadReceiver everyoneOut := by
  have left : ((after asciiEngine .deployed (deadReceiver ++ [everyoneOut])).guests.map (·.ws)) =
      [1, 2] := by
    decide +kernel
  refine ⟨everyoneOut_revokes deadReceiver (by decide +kernel) (by decide +kernel), left,
    by decide +kernel, by decide +kernel, fun reaches => ?_⟩
  rw [reaches.empty] at left
  cases left

end Tether.Backend
