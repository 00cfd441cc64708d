import Tether.Semantics.Run

/-!
# What a run puts out

Every step of a machine may put something out, in the state that the step is taken in. What a
run puts out is what its steps do, in their order.

## Main definitions

* `Semantics.outputs` — what a run puts out

## Main results

* `outputs_append`, `outputs_concat` — the outputs of two parts of a run
-/

namespace Semantics

variable {σ ε ο : Type*} (next : σ → ε → σ) (emit : σ → ε → List ο)

/-- The outputs of all steps from a state on. -/
def outputs : σ → List ε → List ο
  | _, [] => []
  | state, event :: rest => emit state event ++ outputs (next state event) rest

theorem outputs_append (start : σ) (first second : List ε) :
    outputs next emit start (first ++ second) =
      outputs next emit start first ++ outputs next emit (run next start first) second := by
  induction first generalizing start with
  | nil => rfl
  | cons event rest ih =>
    rw [List.cons_append, outputs, ih, outputs, List.append_assoc, run_cons]

/-- The last step adds its outputs to those of the run before it. -/
theorem outputs_concat (start : σ) (before : List ε) (event : ε) :
    outputs next emit start (before ++ [event]) =
      outputs next emit start before ++ emit (run next start before) event := by
  rw [outputs_append, outputs, outputs, List.append_nil]

end Semantics
