import Mathlib.Logic.Function.Basic
import Tether.Semantics.Run

/-!
# Families of machines

Machines of one kind, each under a key of its own. Every event is addressed to one of them, so
that a run of the family is a run of each of its members over the events that are addressed to
it.

## Main definitions

* `Semantics.atMember` — an event at one member
* `Semantics.addressedTo` — the events that are addressed to a member

## Main results

* `run_atMember` — a member's run
* `mem_addressedTo` — whose events they are
-/

namespace Semantics

variable {κ σ ε : Type*} [DecidableEq κ]

/-- The family after an event at the member that it is addressed to. -/
def atMember (next : σ → ε → σ) (family : κ → σ) (delivery : κ × ε) : κ → σ :=
  Function.update family delivery.1 (next (family delivery.1) delivery.2)

/-- What is addressed to the member of this key, in its order. -/
def addressedTo (key : κ) : List (κ × ε) → List ε
  | [] => []
  | delivery :: rest =>
    if delivery.1 = key then delivery.2 :: addressedTo key rest else addressedTo key rest

theorem mem_addressedTo {key : κ} {deliveries : List (κ × ε)} {event : ε} :
    event ∈ addressedTo key deliveries ↔ (key, event) ∈ deliveries := by
  induction deliveries with
  | nil => simp [addressedTo]
  | cons delivery rest ih =>
    obtain ⟨dest, other⟩ := delivery
    rw [addressedTo, List.mem_cons, Prod.mk.injEq, ← ih]
    by_cases same : dest = key
    · subst same
      rw [if_pos rfl, List.mem_cons]
      simp only [true_and]
    · rw [if_neg same]
      simp only [Ne.symm same, false_and, false_or]

/-- Each member runs over the events that are addressed to it. -/
theorem run_atMember (next : σ → ε → σ) (family : κ → σ) (deliveries : List (κ × ε)) (key : κ) :
    run (atMember next) family deliveries key =
      run next (family key) (addressedTo key deliveries) := by
  induction deliveries generalizing family with
  | nil => rfl
  | cons delivery rest ih =>
    rw [run_cons, ih, addressedTo]
    by_cases same : delivery.1 = key
    · subst same
      rw [if_pos rfl, run_cons, atMember, Function.update_self]
    · rw [if_neg same, atMember, Function.update_of_ne (Ne.symm same)]

end Semantics
