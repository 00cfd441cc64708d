import Mathlib.Data.List.Basic
import Mathlib.Data.Int.Order.Basic

/-!
# Sliding windows over a history of times

A ledger that drops what has left the window, and only looks at times that come
later, loses nothing of the window.

## Main definitions

* `Semantics.recent` — the times less than a width before a moment
* `Semantics.Limited` — a ledger that took each time while there was room
* `Semantics.within` — the times in an interval of the width

## Main results

* `recent_recent` — dropping earlier what is to be dropped anyway
* `recent_eq_nil` — nothing is recent after a pause of the width
* `dropWhile_eq_recent` — in order of time, dropping from the front is enough
* `Limited.length_within_le` — no interval holds more than the limit
-/

namespace Semantics

/-- The times of a history that lie less than `width` before `now`. -/
def recent (width now : ℤ) (times : List ℤ) : List ℤ := times.filter fun t => now - t < width

variable {width now later : ℤ} {times : List ℤ}

theorem recent_append (first second : List ℤ) :
    recent width now (first ++ second) = recent width now first ++ recent width now second :=
  List.filter_append ..

theorem recent_recent (ordered : now ≤ later) :
    recent width later (recent width now times) = recent width later times := by
  rw [recent, recent, recent, List.filter_filter]
  refine List.filter_congr fun t _ => ?_
  rw [← Bool.decide_and]
  refine decide_eq_decide.mpr ⟨And.left, fun near => ⟨near, ?_⟩⟩
  omega

theorem recent_eq_nil (before : ∀ t ∈ times, t ≤ now) (pause : width ≤ later - now) :
    recent width later times = [] := by
  refine List.filter_eq_nil_iff.mpr fun t member => ?_
  have := before t member
  rw [decide_eq_true_eq]
  omega

theorem recent_sublist {fewer : List ℤ} (sublist : fewer.Sublist times) :
    (recent width now fewer).Sublist (recent width now times) :=
  sublist.filter _

/-- In a ledger in order of time, what has left the window stands in front. -/
theorem dropWhile_eq_recent (ordered : times.Pairwise (· ≤ ·)) :
    times.dropWhile (fun t => decide (t ≤ now - width)) = recent width now times := by
  induction times with
  | nil => rfl
  | cons t rest ih =>
    rw [List.pairwise_cons] at ordered
    rw [recent, List.filter_cons, List.dropWhile_cons]
    by_cases gone : t ≤ now - width
    · have old : ¬ now - t < width := by omega
      rw [if_pos (by simpa using gone), if_neg (by simpa using old)]
      exact ih ordered.2
    · have near : now - t < width := by omega
      rw [if_neg (by simpa using gone), if_pos (by simpa using near)]
      -- the others come later still
      have all : ∀ s ∈ rest, now - s < width := by
        intro s member
        have := ordered.1 s member
        omega
      rw [List.filter_eq_self.mpr fun s member => decide_eq_true (all s member)]

/-! ### Ledgers with a limit -/

/-- A ledger that every time has entered while fewer than `limit` others were recent. -/
inductive Limited (width : ℤ) (limit : ℕ) : List ℤ → Prop
  | nil : Limited width limit []
  | concat {times : List ℤ} {now : ℤ} : Limited width limit times →
    (recent width now times).length < limit → Limited width limit (times ++ [now])

/-- The times of a history that lie in an interval shorter than `width`. -/
def within (start width : ℤ) (times : List ℤ) : List ℤ :=
  times.filter fun t => start ≤ t ∧ t < start + width

/-- No interval of the width sees more times than the limit. -/
theorem Limited.length_within_le {limit : ℕ} (limited : Limited width limit times) (start : ℤ) :
    (within start width times).length ≤ limit := by
  induction limited with
  | nil => exact Nat.zero_le _
  | @concat times now _ room ih =>
    rw [within, List.filter_append, ← within, List.length_append]
    by_cases inside : start ≤ now ∧ now < start + width
    · -- what the interval holds was recent when the last time came
      have sub : within start width times = within start width (recent width now times) := by
        rw [within, within, recent, List.filter_filter]
        refine List.filter_congr fun t _ => ?_
        rw [← Bool.decide_and]
        refine decide_eq_decide.mpr ⟨fun here => ⟨here, ?_⟩, And.left⟩
        omega
      have fewer : (within start width times).length ≤ (recent width now times).length := by
        rw [sub]
        exact List.length_filter_le _ _
      have single : ([now].filter fun t => start ≤ t ∧ t < start + width).length ≤ 1 :=
        List.length_filter_le _ _
      omega
    · have none : [now].filter (fun t => start ≤ t ∧ t < start + width) = [] := by
        simpa using inside
      rw [none]
      exact ih

end Semantics
