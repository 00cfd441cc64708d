import Mathlib.Data.List.Perm.Basic
import Mathlib.Data.List.Nodup

/-!
# Mirrored rosters

One side keeps a roster, another side follows it from announcements. A message that
announces somebody who is listed already, or withdraws somebody who is not, does not
fit; after it the other side has no roster any more.

## Main definitions

* `Roster.add`, `Roster.remove` — an announcement and a withdrawal
* `Roster.Mirrors` — the followed roster lists the same, each as often

## Main results

* `Mirrors.add`, `Mirrors.remove`, `Mirrors.erase` — what is done on both sides keeps
  the mirror
-/

namespace Semantics.Roster

variable {α : Type*}

/-- The follower has a roster, and it lists what is held. -/
def Mirrors (view : Option (List α)) (held : List α) : Prop :=
  ∃ roster, view = some roster ∧ roster.Perm held

variable {view : Option (List α)} {held : List α} {x : α}

theorem Mirrors.clear (mirrors : Mirrors view held) {empty : List α → List α}
    (clears : ∀ roster, empty roster = []) : Mirrors (view.map empty) [] := by
  obtain ⟨roster, rfl, -⟩ := mirrors
  exact ⟨empty roster, rfl, .of_eq (clears roster)⟩

variable [BEq α] [LawfulBEq α]

/-- Somebody new. -/
def add (x : α) (roster : List α) : Option (List α) :=
  if x ∈ roster then none else some (roster ++ [x])

/-- Somebody listed leaves. -/
def remove (x : α) (roster : List α) : Option (List α) :=
  if x ∈ roster then some (roster.erase x) else none

theorem Mirrors.add (mirrors : Mirrors view held) (new : x ∉ held) :
    Mirrors (view.bind (add x)) (held ++ [x]) := by
  obtain ⟨roster, rfl, same⟩ := mirrors
  refine ⟨roster ++ [x], ?_, same.append_right [x]⟩
  -- what is new to the one side is new to the other
  exact if_neg fun listed => new (same.mem_iff.mp listed)

theorem Mirrors.remove (mirrors : Mirrors view held) (member : x ∈ held) :
    Mirrors (view.bind (remove x)) (held.erase x) := by
  obtain ⟨roster, rfl, same⟩ := mirrors
  refine ⟨roster.erase x, ?_, same.erase x⟩
  exact if_pos (same.mem_iff.mpr member)

theorem Mirrors.erase (mirrors : Mirrors view held) (x : α) :
    Mirrors (view.map (·.erase x)) (held.erase x) := by
  obtain ⟨roster, rfl, same⟩ := mirrors
  exact ⟨roster.erase x, rfl, same.erase x⟩

end Semantics.Roster
