import Mathlib.Data.List.Nodup
import Mathlib.Tactic.SplitIfs

/-!
# Lookups by key

Records in a list are found by a key, the first one that has it. While the keys
differ from each other, the first one is the only one.

## Main definitions

* `replaceFirst` — the first record of a key changed

## Main results

* `find?_key` — with distinct keys, every record is what its key finds
* `find?_of_sublist` — what is found first stays first while others go
* `replaceFirst_eq_map`, `eraseP_key_eq_filter` — with distinct keys, a change of the first
  record changes the record of that key and no other
-/

namespace Semantics

variable {α κ : Type*} {key : α → κ} {records : List α}

theorem key_inj (distinct : (records.map key).Nodup) {x y : α} (first : x ∈ records)
    (second : y ∈ records) (same : key x = key y) : x = y :=
  List.inj_on_of_nodup_map distinct first second same

/-- With distinct keys, every record is what its key finds. -/
theorem find?_key [DecidableEq κ] (distinct : (records.map key).Nodup) {x : α}
    (member : x ∈ records) : records.find? (key · = key x) = some x := by
  cases found : records.find? (key · = key x) with
  | none =>
    have absent := List.find?_eq_none.mp found x member
    simp at absent
  | some y =>
    have same : key y = key x := by simpa using List.find?_some found
    rw [key_inj distinct (List.mem_of_find?_eq_some found) member same]

/-- What is found first stays first while others go. -/
theorem find?_of_sublist {holds : α → Bool} {kept : List α} {x : α}
    (sublist : kept.Sublist records) (distinct : records.Nodup)
    (found : records.find? holds = some x) (member : x ∈ kept) : kept.find? holds = some x := by
  induction sublist with
  | slnil => cases member
  | cons y sublist ih =>
    rw [List.nodup_cons] at distinct
    rw [List.find?_cons] at found
    -- the first hit is dropped only if it is not the one that is kept
    split at found
    · obtain rfl := Option.some.inj found
      exact absurd (sublist.subset member) distinct.1
    · exact ih distinct.2 found member
  | cons_cons y sublist ih =>
    rw [List.nodup_cons] at distinct
    rw [List.find?_cons] at found ⊢
    split at found
    · exact found
    · rename_i other
      have later : x ≠ y := by
        rintro rfl
        rw [List.find?_some found] at other
        cases other
      exact ih distinct.2 found ((List.mem_cons.mp member).resolve_left later)

/-! ### Changes -/

section Changes

variable [DecidableEq κ] {k : κ} {f : α → α}

/-- The first record of a key is changed. -/
def replaceFirst (key : α → κ) (k : κ) (f : α → α) : List α → List α
  | [] => []
  | x :: rest => if key x = k then f x :: rest else x :: replaceFirst key k f rest

/-- Some record of the key is changed. -/
theorem exists_mem_replaceFirst {x : α} (member : x ∈ records) (same : key x = k) :
    ∃ y ∈ records, key y = k ∧ f y ∈ replaceFirst key k f records := by
  induction records with
  | nil => cases member
  | cons first rest ih =>
    rw [replaceFirst]
    by_cases here : key first = k
    · rw [if_pos here]
      exact ⟨first, List.mem_cons_self, here, List.mem_cons_self⟩
    · rw [if_neg here]
      have later : x ∈ rest := by
        rcases List.mem_cons.mp member with rfl | later
        · exact absurd same here
        · exact later
      obtain ⟨y, there, found, changed⟩ := ih later
      exact ⟨y, List.mem_cons_of_mem _ there, found, List.mem_cons_of_mem _ changed⟩

/-- A change that keeps the key keeps all of them. -/
theorem map_replaceFirst (keeps : ∀ x, key (f x) = key x) (k : κ) :
    (replaceFirst key k f records).map key = records.map key := by
  induction records with
  | nil => rfl
  | cons x rest ih =>
    rw [replaceFirst]
    split_ifs
    · rw [List.map_cons, List.map_cons, keeps]
    · rw [List.map_cons, List.map_cons, ih]

/-- With distinct keys, the change is made at every record of the key. -/
theorem replaceFirst_eq_map (distinct : (records.map key).Nodup) :
    replaceFirst key k f records = records.map fun x => if key x = k then f x else x := by
  induction records with
  | nil => rfl
  | cons x rest ih =>
    rw [List.map_cons, List.nodup_cons] at distinct
    rw [replaceFirst, List.map_cons]
    by_cases here : key x = k
    · -- no later record has the key, so that the map leaves them all
      rw [if_pos here, if_pos here]
      have others : rest.map (fun y => if key y = k then f y else y) = rest := by
        refine List.map_congr_left (fun y later => if_neg fun same => distinct.1 ?_) |>.trans
          rest.map_id
        rw [here, ← same]
        exact List.mem_map_of_mem later
      rw [others]
    · rw [if_neg here, if_neg here, ih distinct.2]

/-- With distinct keys, no record of the key is left when the first one goes. -/
theorem eraseP_key_eq_filter (distinct : (records.map key).Nodup) :
    records.eraseP (key · = k) = records.filter (key · ≠ k) := by
  induction records with
  | nil => rfl
  | cons x rest ih =>
    rw [List.map_cons, List.nodup_cons] at distinct
    by_cases here : key x = k
    · rw [List.eraseP_cons_of_pos (by simpa using here),
        List.filter_cons_of_neg (by simpa using here)]
      refine (List.filter_eq_self.mpr fun y later => ?_).symm
      have other : key y ≠ k := by
        intro same
        rw [here, ← same] at distinct
        exact distinct.1 (List.mem_map_of_mem later)
      simpa using other
    · rw [List.eraseP_cons_of_neg (by simpa using here),
        List.filter_cons_of_pos (by simpa using here), ih distinct.2]

/-- With distinct keys, the other records are those of other keys. -/
theorem mem_replaceFirst (distinct : (records.map key).Nodup) {y : α}
    (member : y ∈ replaceFirst key k f records) :
    (∃ x ∈ records, key x = k ∧ y = f x) ∨ y ∈ records ∧ key y ≠ k := by
  rw [replaceFirst_eq_map distinct] at member
  obtain ⟨x, there, rfl⟩ := List.mem_map.mp member
  by_cases here : key x = k
  · rw [if_pos here]
    exact .inl ⟨x, there, here, rfl⟩
  · rw [if_neg here]
    exact .inr ⟨there, here⟩

theorem mem_eraseP_key (distinct : (records.map key).Nodup) {y : α}
    (member : y ∈ records.eraseP (key · = k)) : y ∈ records ∧ key y ≠ k := by
  rw [eraseP_key_eq_filter distinct, List.mem_filter] at member
  exact ⟨member.1, by simpa using member.2⟩

end Changes

end Semantics
