import Tether.Semantics.Run

/-!
# Views that are told through a queue

A view is changed by notices, but not by those who give them: a notice is put into a queue, and
some time later the view carries it out. Besides, the view can be cleared in between, while the
queue goes on. It settles as if every notice had been carried out at once exactly if no clearing
finds notices under way that show again.

## Main definitions

* `Deferred`, `Deferred.Act`, `Deferred.next` — a view with its queue, and what happens to it
* `Deferred.atOnce` — the same for a view that carries out every notice at once
* `Deferred.settled` — the view when the queue has been worked off
* `Deferred.Calm` — a clearing leaves nothing behind

## Main results

* `Deferred.settled_next_iff` — the two views stay the same over a step if and only if it is calm
* `Deferred.run_deliver` — when the queue has been worked off, the view has settled
-/

namespace Semantics

/-- A view, and the notices that it has still to carry out, the oldest first. -/
structure Deferred (ν α : Type*) where
  view : ν
  queue : List α

namespace Deferred

/-- What happens to a view. -/
inductive Act (α : Type*)
  | post (notices : List α)
  /-- The oldest notice is carried out. -/
  | deliver
  /-- The view is cleared, behind these notices. -/
  | clear (notices : List α)
  /-- The view is made anew, and nothing is told to the old one any more. -/
  | restart

variable {ν α : Type*} (apply : ν → α → ν) (blank : ν)

def next (d : Deferred ν α) : Act α → Deferred ν α
  | .post notices => { d with queue := d.queue ++ notices }
  | .deliver =>
    match d.queue with
    | [] => d
    | notice :: rest => ⟨apply d.view notice, rest⟩
  | .clear notices => ⟨blank, d.queue ++ notices⟩
  | .restart => ⟨blank, []⟩

/-- What happens to a view that is told without a queue. -/
def atOnce (view : ν) : Act α → ν
  | .post notices => notices.foldl apply view
  | .deliver => view
  | .clear _ | .restart => blank

/-- The view when the queue has been worked off and nothing else happens. -/
def settled (d : Deferred ν α) : ν := d.queue.foldl apply d.view

/-- What a clearing finds under way shows nothing. -/
def Calm (d : Deferred ν α) (act : Act α) : Prop :=
  ∀ notices, act = .clear notices → (d.queue ++ notices).foldl apply blank = blank

variable {apply blank} {d : Deferred ν α}

/-- A step leads the settled view where it leads a view that is told at once, exactly if it is
calm. -/
theorem settled_next_iff (d : Deferred ν α) (act : Act α) :
    (d.next apply blank act).settled apply = atOnce apply blank (d.settled apply) act ↔
      d.Calm apply blank act := by
  cases act with
  | post notices =>
    refine iff_of_true ?_ nofun
    rw [next, settled, List.foldl_append]
    rfl
  | deliver =>
    refine iff_of_true ?_ nofun
    rw [next]
    cases waiting : d.queue with
    | nil => rfl
    | cons notice rest =>
      rw [atOnce, settled, settled, waiting, List.foldl_cons]
  | clear notices =>
    constructor
    · rintro same others ⟨⟩
      exact same
    · intro calm
      exact calm notices rfl
  | restart => exact iff_of_true rfl nofun

/-- When nothing else happens the view settles. -/
theorem run_deliver (d : Deferred ν α) :
    run (next apply blank) d (List.replicate d.queue.length .deliver) = ⟨d.settled apply, []⟩ := by
  obtain ⟨view, queue⟩ := d
  induction queue generalizing view with
  | nil => rfl
  | cons notice rest ih => exact ih (apply view notice)

end Deferred

end Semantics
