import Mathlib.Data.Int.Notation
import Mathlib.Data.List.Nodup
import Mathlib.Logic.Function.Basic
import Mathlib.Logic.Relation

/-!
# Reference counts

Objects are shared. Whoever has a share may pass on another one or give its own
up, and the object is given up for destruction together with its last share. An
implementation keeps a counter for each object and a list of the objects that can
be found; the ledger holds both beside the shares that are really outstanding.

## Main definitions

* `Ledger` — counters, shares, the list, and how often each object was given up
* `Ledger.issue`, `Ledger.share`, `Ledger.drop` — what happens to a share
* `Ledger.Step`, `Ledger.Sound` — the steps of careful owners, and the invariant

## Main results

* `Sound.step`, `Sound.steps` — careful owners keep the ledger sound
* `Sound.doomed_iff` — an object is given up exactly once when it has no shares left
-/

namespace Semantics

/-- What is stored about the objects, and what is true of them. -/
@[ext]
structure Ledger (α : Type*) where
  count : α → ℤ
  shares : α → ℕ
  listed : List α
  doomed : α → ℕ
  issued : α → Prop

namespace Ledger

variable {α : Type*} {ledger next : Ledger α}

/-- The counters are right, the list holds what has shares, and an object without
shares has been given up once if it has ever been issued. -/
structure Sound (ledger : Ledger α) : Prop where
  counted : ∀ x, ledger.count x = ledger.shares x
  listed_iff : ∀ x, x ∈ ledger.listed ↔ 0 < ledger.shares x
  nodup : ledger.listed.Nodup
  living : ∀ x, 0 < ledger.shares x → ledger.issued x ∧ ledger.doomed x = 0
  gone : ∀ x, ledger.issued x → ledger.shares x = 0 → ledger.doomed x = 1
  unborn : ∀ x, ¬ ledger.issued x → ledger.doomed x = 0

/-- An object has been given up once if it was issued and has no shares left, and
not at all otherwise. -/
theorem Sound.doomed_iff (sound : ledger.Sound) (x : α) :
    ledger.doomed x ≤ 1 ∧ (ledger.doomed x = 1 ↔ ledger.issued x ∧ ledger.shares x = 0) := by
  -- never issued, shared, or given up
  by_cases issued : ledger.issued x
  · cases shares : ledger.shares x with
    | zero =>
      have once := sound.gone x issued shares
      exact ⟨by omega, by simp [once, issued]⟩
    | succ n =>
      have spared := (sound.living x (by omega)).2
      exact ⟨by omega, by simp [spared]⟩
  · have spared := sound.unborn x issued
    exact ⟨by omega, by simp [spared, issued]⟩

/-! ### Steps -/

variable [DecidableEq α]

/-- One for the object itself. -/
def one (x y : α) : ℕ := if x = y then 1 else 0

theorem one_self (x : α) : one x x = 1 := if_pos rfl

theorem one_of_ne {x y : α} (different : x ≠ y) : one x y = 0 := if_neg different

theorem count_concat (x y : α) (xs : List α) : (xs ++ [y]).count x = xs.count x + one x y := by
  by_cases same : x = y
  · subst same
    rw [List.count_append, List.count_singleton_self, one_self]
  · rw [List.count_append, one_of_ne same]
    simp [Ne.symm same]

theorem count_erase {y : α} {xs : List α} (member : y ∈ xs) (x : α) :
    (xs.erase y).count x + one x y = xs.count x := by
  by_cases same : x = y
  · subst same
    have some : 0 < xs.count x := List.count_pos_iff.mpr member
    rw [List.count_erase_self, one_self]
    omega
  · rw [List.count_erase_of_ne same, one_of_ne same, Nat.add_zero]

/-- A new object with one share. -/
def issue (x : α) (ledger : Ledger α) : Ledger α where
  count := Function.update ledger.count x 1
  shares := Function.update ledger.shares x 1
  listed := ledger.listed ++ [x]
  doomed := ledger.doomed
  issued := fun y => y = x ∨ ledger.issued y

/-- Another share in an object. -/
def share (x : α) (ledger : Ledger α) : Ledger α :=
  { ledger with
    count := Function.update ledger.count x (ledger.count x + 1)
    shares := Function.update ledger.shares x (ledger.shares x + 1) }

/-- A share is given up, and the object with it if the counter says that it was
the last one. -/
def drop (x : α) (ledger : Ledger α) : Ledger α where
  count := Function.update ledger.count x (ledger.count x - 1)
  shares := Function.update ledger.shares x (ledger.shares x - 1)
  listed := if ledger.count x - 1 ≤ 0 then ledger.listed.erase x else ledger.listed
  doomed :=
    if ledger.count x - 1 ≤ 0 then Function.update ledger.doomed x (ledger.doomed x + 1)
    else ledger.doomed
  issued := ledger.issued

theorem count_share (x y : α) :
    (ledger.share x).count y = ledger.count y + one y x := by
  by_cases same : y = x
  · subst same
    simp [share, one_self]
  · simp [share, same, one_of_ne same]

theorem shares_share (x y : α) :
    (ledger.share x).shares y = ledger.shares y + one y x := by
  by_cases same : y = x
  · subst same
    simp [share, one_self]
  · simp [share, same, one_of_ne same]

theorem count_drop (x y : α) : (ledger.drop x).count y = ledger.count y - one y x := by
  by_cases same : y = x
  · subst same
    simp [drop, one_self]
  · simp [drop, same, one_of_ne same]

theorem shares_drop {x : α} (owned : 0 < ledger.shares x) (y : α) :
    (ledger.drop x).shares y + one y x = ledger.shares y := by
  by_cases same : y = x
  · subst same
    simp only [drop, Function.update_self, one_self]
    omega
  · simp [drop, same, one_of_ne same]

theorem doomed_drop (ledger : Ledger α) (x y : α) :
    (ledger.drop x).doomed y =
      ledger.doomed y + if ledger.count x - 1 ≤ 0 then one y x else 0 := by
  simp only [drop]
  split_ifs with last
  · by_cases same : y = x
    · subst same
      simp [one_self]
    · simp [same, one_of_ne same]
  · rfl

/-- Objects are new when they are issued, and only shares that exist are passed on
or given up. -/
inductive Step : Ledger α → Ledger α → Prop
  | issue {ledger : Ledger α} (x : α) (new : ¬ ledger.issued x) : Step ledger (ledger.issue x)
  | share {ledger : Ledger α} (x : α) (owned : 0 < ledger.shares x) :
    Step ledger (ledger.share x)
  | drop {ledger : Ledger α} (x : α) (owned : 0 < ledger.shares x) : Step ledger (ledger.drop x)

/-- Any number of steps. -/
abbrev Steps : Ledger α → Ledger α → Prop := Relation.ReflTransGen Step

omit [DecidableEq α] in
theorem Sound.shares_eq_zero (sound : ledger.Sound) {x : α} (new : ¬ ledger.issued x) :
    ledger.shares x = 0 := by
  by_contra some
  exact new (sound.living x (Nat.pos_of_ne_zero some)).1

theorem shares_issue {x : α} (none : ledger.shares x = 0) (y : α) :
    (ledger.issue x).shares y = ledger.shares y + one y x := by
  by_cases same : y = x
  · subst same
    simp [issue, one_self, none]
  · simp [issue, same, one_of_ne same]

theorem Sound.issue (sound : ledger.Sound) {x : α} (new : ¬ ledger.issued x) :
    (ledger.issue x).Sound := by
  have none := sound.shares_eq_zero new
  -- an object without shares is not listed
  have absent : x ∉ ledger.listed := by
    rw [sound.listed_iff, none]
    exact Nat.lt_irrefl 0
  constructor
  · intro y
    by_cases same : y = x
    · subst same
      simp [Ledger.issue]
    · simpa [Ledger.issue, same] using sound.counted y
  · intro y
    by_cases same : y = x
    · subst same
      simp [Ledger.issue]
    · simpa [Ledger.issue, same] using sound.listed_iff y
  · apply List.Nodup.append sound.nodup (List.nodup_singleton x)
    simpa using absent
  · intro y owned
    by_cases same : y = x
    · subst same
      exact ⟨.inl rfl, sound.unborn y new⟩
    · have before : 0 < ledger.shares y := by simpa [Ledger.issue, same] using owned
      exact ⟨.inr (sound.living y before).1, (sound.living y before).2⟩
  · intro y issued lost
    by_cases same : y = x
    · subst same
      simp [Ledger.issue] at lost
    · have before : ledger.shares y = 0 := by simpa [Ledger.issue, same] using lost
      exact sound.gone y (issued.resolve_left same) before
  · intro y unborn
    exact sound.unborn y fun issued => unborn (.inr issued)

theorem Sound.share (sound : ledger.Sound) {x : α} (owned : 0 < ledger.shares x) :
    (ledger.share x).Sound := by
  -- the same objects have shares as before
  have positive (y : α) : 0 < (ledger.share x).shares y ↔ 0 < ledger.shares y := by
    by_cases same : y = x
    · subst same
      simp [Ledger.share, owned]
    · simp [Ledger.share, same]
  constructor
  · intro y
    have counted := sound.counted y
    by_cases same : y = x
    · subst same
      simp [Ledger.share, counted]
    · simpa [Ledger.share, same] using counted
  · intro y
    rw [positive]
    exact sound.listed_iff y
  · exact sound.nodup
  · intro y some
    exact sound.living y ((positive y).mp some)
  · intro y issued none
    apply sound.gone y issued
    have still := (positive y).not.mp (by omega)
    omega
  · exact sound.unborn

theorem Sound.drop (sound : ledger.Sound) {x : α} (owned : 0 < ledger.shares x) :
    (ledger.drop x).Sound := by
  have counted := sound.counted x
  have other {y : α} (different : y ≠ x) : (ledger.drop x).shares y = ledger.shares y := by
    simp [Ledger.drop, different]
  have self : (ledger.drop x).shares x = ledger.shares x - 1 := by simp [Ledger.drop]
  -- the counter tells the last share from the others
  have last : ledger.count x - 1 ≤ 0 ↔ ledger.shares x = 1 := by omega
  have doomed {y : α} (different : y ≠ x) : (ledger.drop x).doomed y = ledger.doomed y := by
    rw [Ledger.drop]
    split_ifs
    · exact Function.update_of_ne different _ _
    · rfl
  constructor
  · intro y
    by_cases same : y = x
    · subst same
      rw [self]
      simp only [Ledger.drop, Function.update_self]
      omega
    · rw [other same]
      simpa [Ledger.drop, same] using sound.counted y
  · intro y
    by_cases same : y = x
    · subst same
      rw [self, Ledger.drop]
      split_ifs with given
      · rw [last] at given
        simp [given, sound.nodup.mem_erase_iff]
      · rw [last] at given
        rw [sound.listed_iff]
        omega
    · rw [other same, Ledger.drop, ← sound.listed_iff y]
      split_ifs
      · exact List.mem_erase_of_ne same
      · rfl
  · rw [Ledger.drop]
    split_ifs
    · exact sound.nodup.erase x
    · exact sound.nodup
  · intro y some
    by_cases same : y = x
    · subst same
      rw [self] at some
      obtain ⟨issued, spared⟩ := sound.living y owned
      refine ⟨issued, ?_⟩
      simp only [Ledger.drop]
      rwa [if_neg (by omega)]
    · rw [other same] at some
      rw [doomed same]
      exact sound.living y some
  · intro y issued none
    by_cases same : y = x
    · subst same
      rw [self] at none
      have spared := (sound.living y owned).2
      simp only [Ledger.drop, if_pos (last.mpr (by omega)), Function.update_self]
      omega
    · rw [other same] at none
      rw [doomed same]
      exact sound.gone y issued none
  · intro y unborn
    have different : y ≠ x := by
      rintro rfl
      exact unborn (sound.living y owned).1
    rw [doomed different]
    exact sound.unborn y unborn

theorem Sound.step (sound : ledger.Sound) (step : Step ledger next) : next.Sound := by
  cases step with
  | issue x new => exact sound.issue new
  | share x owned => exact sound.share owned
  | drop x owned => exact sound.drop owned

theorem Sound.steps (sound : ledger.Sound) (steps : Steps ledger next) : next.Sound := by
  induction steps with
  | refl => exact sound
  | tail _ step ih => exact ih.step step

/-- One more share in each object of a list. -/
def shareAll (xs : List α) (ledger : Ledger α) : Ledger α :=
  xs.foldl (fun ledger x => ledger.share x) ledger

theorem steps_shareAll {xs : List α} (owned : ∀ x ∈ xs, 0 < ledger.shares x) :
    Steps ledger (ledger.shareAll xs) := by
  induction xs generalizing ledger with
  | nil => exact .refl
  | cons x rest ih =>
    apply Relation.ReflTransGen.head (.share x (owned x List.mem_cons_self))
    apply ih
    intro y member
    have before := owned y (List.mem_cons_of_mem _ member)
    by_cases same : y = x
    · subst same
      simp [Ledger.share]
    · simpa [Ledger.share, same] using before

theorem one_add_count (x y : α) (rest : List α) :
    one x y + rest.count x = (y :: rest).count x := by
  by_cases same : x = y
  · subst same
    rw [one_self, List.count_cons_self, Nat.add_comm]
  · rw [one_of_ne same, List.count_cons_of_ne (Ne.symm same), Nat.zero_add]

theorem count_shareAll (xs : List α) (x : α) :
    (ledger.shareAll xs).count x = ledger.count x + xs.count x := by
  induction xs generalizing ledger with
  | nil => exact (Int.add_zero _).symm
  | cons y rest ih =>
    rw [shareAll, List.foldl_cons, ← shareAll, ih, count_share, ← one_add_count]
    omega

theorem shares_shareAll (xs : List α) (x : α) :
    (ledger.shareAll xs).shares x = ledger.shares x + xs.count x := by
  induction xs generalizing ledger with
  | nil => rfl
  | cons y rest ih =>
    rw [shareAll, List.foldl_cons, ← shareAll, ih, shares_share, ← one_add_count]
    omega

/-- Nothing else changes. -/
theorem shareAll_eq (ledger : Ledger α) (xs : List α) :
    (ledger.shareAll xs).listed = ledger.listed ∧ (ledger.shareAll xs).doomed = ledger.doomed ∧
      (ledger.shareAll xs).issued = ledger.issued := by
  induction xs generalizing ledger with
  | nil => exact ⟨rfl, rfl, rfl⟩
  | cons x rest ih => exact ih (ledger.share x)

end Ledger

end Semantics
