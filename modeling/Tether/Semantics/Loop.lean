import Mathlib.Order.Lattice
import Mathlib.Tactic.Common

/-!
# Loops

A program has no result where it does something that it must not. The body of a loop goes
on with another state or leaves the loop with a result, and a loop that is still running
when its turns are used up has no result either. So a program that has a result is one that
comes to its end without a fault.

## Main definitions

* `Yields` — a program that has a result, of which something holds
* `loop` — a body, turn after turn

## Main results

* `Yields.bind` — one program behind the other
* `yields_loop` — a loop with an invariant, whose turns use something up
-/

namespace Semantics

variable {σ ρ τ : Type*}

/-- The program has a result, and this holds of it. -/
def Yields (program : Option ρ) (Post : ρ → Prop) : Prop :=
  ∃ result, program = some result ∧ Post result

section Yields

variable {program : Option ρ} {Post Other : ρ → Prop} {result : ρ}

@[simp] theorem yields_some : Yields (some result) Post ↔ Post result := by
  simp [Yields]

theorem Yields.mono (yields : Yields program Post) (weaker : ∀ result, Post result → Other result) :
    Yields program Other := by
  obtain ⟨result, same, post⟩ := yields
  exact ⟨result, same, weaker result post⟩

theorem Yields.bind {next : ρ → Option τ} {After : τ → Prop} (yields : Yields program Post)
    (behind : ∀ result, Post result → Yields (next result) After) :
    Yields (program.bind next) After := by
  obtain ⟨result, rfl, post⟩ := yields
  exact behind result post

end Yields

/-- Turn after turn, as many as there may be. -/
def loop (body : σ → Option (σ ⊕ ρ)) : ℕ → σ → Option ρ
  | 0, _ => none
  | turns + 1, state =>
    (body state).bind fun
      | .inl next => loop body turns next
      | .inr result => some result

/-- What a turn does: the invariant is kept and less is left to do, or the result is there. -/
def Turn (Inv : σ → Prop) (left : σ → ℕ) (Post : ρ → Prop) (state : σ) : σ ⊕ ρ → Prop
  | .inl next => Inv next ∧ left next < left state
  | .inr result => Post result

/-- A loop with an invariant ends if each of its turns uses something up. -/
theorem yields_loop {body : σ → Option (σ ⊕ ρ)} (Inv : σ → Prop) (left : σ → ℕ) {Post : ρ → Prop}
    (turn : ∀ state, Inv state → Yields (body state) (Turn Inv left Post state)) {state : σ}
    (inv : Inv state) {turns : ℕ} (enough : left state < turns) :
    Yields (loop body turns state) Post := by
  induction turns generalizing state with
  | zero => cases enough
  | succ turns ih =>
    refine (turn state inv).bind fun outcome post => ?_
    cases outcome with
    | inl next => exact ih post.1 (Nat.lt_of_lt_of_le post.2 (Nat.le_of_lt_succ enough))
    | inr result => exact yields_some.mpr post

end Semantics
