import Mathlib.Data.List.Basic

/-!
# A handshake over two channels

A host keeps a record of a member, a guide decides about it. Decisions reach the host
in their order; a departure reaches the guide some time after the record is gone. The
guide marks the members it has let in, the host marks their records.

## Main definitions

* `Handshake` — what both sides hold, and what is on its way between them
* `Handshake.settled` — the record that the decisions under way will leave
* `Handshake.Step` — the moves of the two sides
* `Handshake.Sound` — the guide's mark tells what the record will be

## Main results

* `Sound.step` — every move keeps the two sides in step
* `Sound.agree` — if nothing is under way, both have the same mark
-/

namespace Semantics

/-- What the guide tells the host about the member. -/
inductive Decision
  | mark
  | drop
  deriving DecidableEq

@[ext] structure Handshake where
  /-- The host's record, if there is one, and whether it is marked. -/
  record : Option Bool
  /-- On their way to the host, the oldest first. -/
  decisions : List Decision
  /-- A departure is on its way to the guide. -/
  leaving : Prop
  /-- The guide's mark. -/
  marked : Prop

namespace Handshake

/-- What a decision makes of the record. -/
def apply : Option Bool → Decision → Option Bool
  | record, .mark => record.map fun _ => true
  | _, .drop => none

/-- The record behind the decisions that are under way. -/
def settled (h : Handshake) : Option Bool := h.decisions.foldl apply h.record

/-- A move of one side. -/
inductive Step (h : Handshake) : Handshake → Prop
  | stay : Step h h
  /-- A member nobody has known before. -/
  | enter (absent : h.record = none) (undecided : .mark ∉ h.decisions) (here : ¬ h.leaving)
    (unknown : ¬ h.marked) : Step h { h with record := some false }
  | leave : Step h { h with record := none, leaving := True }
  | arrive (decision : Decision) (later : List Decision)
    (first : h.decisions = decision :: later) :
    Step h { h with record := apply h.record decision, decisions := later }
  /-- The guide lets in a member that is going to be there, or is known to leave. -/
  | mark (kept : h.settled ≠ none ∨ h.leaving) :
    Step h { h with marked := True, decisions := h.decisions ++ [.mark] }
  | drop : Step h { h with marked := False, decisions := h.decisions ++ [.drop] }
  /-- The guide's mark goes without a word to the host. -/
  | unmark (known : h.marked → h.leaving) (still : Prop) (fewer : still → h.leaving) :
    Step h { h with marked := False, leaving := still }

/-- The sides are in step. -/
structure Sound (h : Handshake) : Prop where
  gone : h.leaving → h.record = none
  agrees : h.marked ∧ ¬ h.leaving ↔ h.settled = some true

section Settled

variable (h : Handshake)

/-- Nothing brings a record back. -/
theorem foldl_apply_none (decisions : List Decision) : decisions.foldl apply none = none := by
  induction decisions with
  | nil => rfl
  | cons decision later ih => cases decision <;> exact ih

/-- Without a decision for the member its record stays without a mark. -/
theorem foldl_apply_false {decisions : List Decision} (undecided : .mark ∉ decisions) :
    decisions.foldl apply (some false) ≠ some true := by
  cases decisions with
  | nil => simp
  | cons decision later =>
    cases decision with
    | mark => exact absurd List.mem_cons_self undecided
    | drop =>
      rw [List.foldl_cons, apply, foldl_apply_none]
      simp

/-- A record that no decision drops stays. -/
theorem foldl_apply_ne_none {decisions : List Decision} (undropped : .drop ∉ decisions)
    {record : Option Bool} (listed : record ≠ none) : decisions.foldl apply record ≠ none := by
  induction decisions generalizing record with
  | nil => exact listed
  | cons decision later ih =>
    rw [List.mem_cons, not_or] at undropped
    cases decision with
    | mark => exact ih undropped.2 (by simpa [apply] using listed)
    | drop => exact absurd rfl undropped.1

theorem settled_of_absent {h : Handshake} (absent : h.record = none) : h.settled = none := by
  rw [settled, absent, foldl_apply_none]

theorem settled_append (decision : Decision) :
    { h with decisions := h.decisions ++ [decision] }.settled = apply h.settled decision := by
  rw [settled, List.foldl_append]
  rfl

end Settled

variable {h next : Handshake}

/-- Every move keeps the sides in step. -/
theorem Sound.step (sound : Sound h) (step : Step h next) : Sound next := by
  obtain ⟨gone, agrees⟩ := sound
  cases step with
  | stay => exact ⟨gone, agrees⟩
  | enter absent undecided here unknown =>
    refine ⟨fun leaving => absurd leaving here, iff_of_false (fun both => unknown both.1) ?_⟩
    exact foldl_apply_false undecided
  -- a member that is gone has no record, whatever has been decided
  | leave =>
    refine ⟨fun _ => rfl, iff_of_false (fun both => both.2 trivial) ?_⟩
    rw [settled_of_absent rfl]
    simp
  | arrive decision later first =>
    -- a decision that arrives was counted before
    have same : Handshake.settled
        { h with record := apply h.record decision, decisions := later } = h.settled := by
      rw [settled, settled, first, List.foldl_cons]
    refine ⟨fun leaving => ?_, same ▸ agrees⟩
    have absent := gone leaving
    cases decision <;> simp [apply, absent]
  | mark kept =>
    refine ⟨gone, ?_⟩
    rw [settled_append { h with marked := True }]
    change True ∧ ¬ h.leaving ↔ h.settled.map (fun _ => true) = some true
    -- to a member that leaves the mark means nothing, to any other it comes last
    by_cases leaving : h.leaving
    · have absent := settled_of_absent (gone leaving)
      simp [leaving, absent]
    · obtain ⟨mark, settles⟩ := Option.ne_none_iff_exists'.mp (kept.resolve_right leaving)
      simp [leaving, settles]
  | drop =>
    refine ⟨gone, iff_of_false (fun both => both.1) ?_⟩
    rw [settled_append { h with marked := False }]
    simp [apply]
  -- a marked member without a departure under way would keep its record's mark
  | unmark known still fewer =>
    refine ⟨fun leaving => gone (fewer leaving), iff_of_false (fun both => both.1) ?_⟩
    intro settles
    obtain ⟨marked, here⟩ := agrees.mpr settles
    exact here (known marked)

/-- With nothing under way the marks are the same. -/
theorem Sound.agree (sound : Sound h) (noDecision : h.decisions = []) (here : ¬ h.leaving) :
    h.marked ↔ h.record = some true := by
  have agrees := sound.agrees
  rw [settled, noDecision, List.foldl_nil] at agrees
  rw [← agrees, and_iff_left here]

/-- At the beginning nobody knows the member. -/
theorem Sound.start (absent : h.record = none) (here : ¬ h.leaving) (unknown : ¬ h.marked) :
    Sound h := by
  refine ⟨fun leaving => absurd leaving here, iff_of_false (fun both => unknown both.1) ?_⟩
  rw [settled_of_absent absent]
  simp

end Handshake

end Semantics
