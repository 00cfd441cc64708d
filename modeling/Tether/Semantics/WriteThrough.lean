import Mathlib.Data.List.ReduceOption
import Tether.Semantics.Run

/-!
# Memory that is saved at every change

A memory is saved as an image whenever it changes, and loaded from the image when it
starts again. While what is loaded from an image is what was saved as it, a start changes
nothing, and a run with starts anywhere in it ends where the run without them ends.

## Main definitions

* `Storage` — how a memory is saved and loaded, and which memories come back unchanged
* `Stored` — a memory with the image it was last saved as
* `Storage.next` — a change that is saved, or a start

## Main results

* `Storage.Synced.restart` — a start changes nothing
* `Storage.Synced.run` — the starts in a run do not matter
-/

namespace Semantics

variable {σ ι ε : Type*}

/-- Saving and loading. A valid memory comes back as it was. -/
structure Storage (σ ι : Type*) where
  save : σ → ι
  load : ι → σ
  Valid : σ → Prop
  load_save : ∀ memory, Valid memory → load (save memory) = memory

/-- A memory with the image it was last saved as. -/
structure Stored (σ ι : Type*) where
  memory : σ
  image : ι

namespace Storage

variable (storage : Storage σ ι) (act : σ → ε → σ)

/-- A change, which is saved, or a start if there is none. -/
def next (stored : Stored σ ι) : Option ε → Stored σ ι
  | some change => ⟨act stored.memory change, storage.save (act stored.memory change)⟩
  | none => { stored with memory := storage.load stored.image }

/-- The memory is valid, and the image is what it is saved as. -/
structure Synced (stored : Stored σ ι) : Prop where
  valid : storage.Valid stored.memory
  saved : stored.image = storage.save stored.memory

variable {storage act} {stored : Stored σ ι}

/-- A change that leaves the memory as it was need not be saved. -/
theorem Synced.next_of_same (synced : storage.Synced stored) {change : ε}
    (same : act stored.memory change = stored.memory) :
    storage.next act stored (some change) = stored := by
  rw [Storage.next, same, ← synced.saved]

theorem Synced.restart (synced : storage.Synced stored) :
    storage.next act stored none = stored := by
  rw [Storage.next, synced.saved, storage.load_save _ synced.valid, ← synced.saved]

theorem Synced.next
    (keeps : ∀ memory change, storage.Valid memory → storage.Valid (act memory change))
    (synced : storage.Synced stored) (change : Option ε) :
    storage.Synced (storage.next act stored change) := by
  cases change with
  | none =>
    rw [synced.restart]
    exact synced
  | some change => exact ⟨keeps _ _ synced.valid, rfl⟩

/-- The starts in a run do not matter. -/
theorem Synced.run
    (keeps : ∀ memory change, storage.Valid memory → storage.Valid (act memory change))
    (synced : storage.Synced stored) (changes : List (Option ε)) :
    (Semantics.run (storage.next act) stored changes).memory =
      Semantics.run act stored.memory changes.reduceOption := by
  induction changes generalizing stored with
  | nil => rfl
  | cons change changes ih =>
    rw [run_cons, ih (synced.next keeps change)]
    cases change with
    | none =>
      rw [synced.restart, List.reduceOption_cons_of_none]
    | some change =>
      rw [List.reduceOption_cons_of_some, run_cons]
      rfl

end Storage

end Semantics
