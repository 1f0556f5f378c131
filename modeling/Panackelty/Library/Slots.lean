import Mathlib.Data.List.Count

/-!
# Tables of slots

A table has a fixed number of slots, and each is free or held by a key.  Taking a free slot and
giving one back change the number of slots held by one, and the number of slots that a key holds for
that key only.

* `occupied`: how many slots are held; `List.count (some k)`: how many the key holds.
* `occupied_take`, `occupied_give`, `count_take`, `count_give`: the two operations.
-/

namespace Panackelty.Library

open List Option

variable {κ : Type*}

/-- How many slots are held. -/
def occupied (slots : List (Option κ)) : ℕ := slots.countP isSome

variable {slots : List (Option κ)} {i : ℕ} {k : κ}

@[simp] theorem occupied_replicate (n : ℕ) : occupied (replicate n (none : Option κ)) = 0 := by
  simp [occupied, countP_replicate]

theorem occupied_take (h : slots[i]? = some none) :
    occupied (slots.set i (some k)) = occupied slots + 1 := by
  obtain ⟨hi, hfree⟩ := List.getElem?_eq_some_iff.mp h
  simp [occupied, List.countP_set, hi, hfree]

theorem occupied_give (h : slots[i]? = some (some k)) :
    occupied (slots.set i none) + 1 = occupied slots := by
  obtain ⟨hi, hheld⟩ := List.getElem?_eq_some_iff.mp h
  have hpos : 0 < slots.countP isSome :=
    List.countP_pos_iff.mpr ⟨some k, hheld ▸ List.getElem_mem hi, rfl⟩
  simp [occupied, List.countP_set, hi, hheld]
  omega

theorem occupied_pos (h : slots[i]? = some (some k)) : 0 < occupied slots := by
  have hgive := occupied_give h
  omega

theorem occupied_le {n : ℕ} (h : ∀ i k, slots[i]? = some (some k) → i < n) :
    occupied slots ≤ n := by
  have hdrop : (slots.drop n).countP isSome = 0 := by
    rw [countP_eq_zero]
    intro slot hslot
    obtain ⟨j, hj⟩ := mem_iff_getElem?.mp hslot
    rw [getElem?_drop] at hj
    cases slot with
    | none => simp
    | some k => exact absurd (h _ _ hj) (by omega)
  have htake := (slots.take n).countP_le_length (p := isSome)
  have hsum := congrArg (countP isSome) (slots.take_append_drop n)
  rw [countP_append] at hsum
  have hlen := slots.length_take_le n
  unfold occupied
  omega

variable [DecidableEq κ]

theorem count_eq_zero_of_occupied (h : occupied slots = 0) (k : κ) : slots.count (some k) = 0 := by
  rw [count_eq_zero]
  intro hmem
  have hpos : 0 < slots.countP isSome := countP_pos_iff.mpr ⟨some k, hmem, rfl⟩
  unfold occupied at h
  omega

theorem count_take (h : slots[i]? = some none) (k' : κ) :
    (slots.set i (some k)).count (some k') = slots.count (some k') + if k = k' then 1 else 0 := by
  obtain ⟨hi, hfree⟩ := List.getElem?_eq_some_iff.mp h
  simp [List.count_set, hi, hfree]

theorem count_give (h : slots[i]? = some (some k)) (k' : κ) :
    (slots.set i none).count (some k') + (if k = k' then 1 else 0) = slots.count (some k') := by
  obtain ⟨hi, hheld⟩ := List.getElem?_eq_some_iff.mp h
  have hmem : some k ∈ slots := hheld ▸ List.getElem_mem hi
  by_cases hk : k = k'
  · subst hk
    have hpos := List.count_pos_iff.mpr hmem
    simp [List.count_set, hi, hheld]
    omega
  · simp [List.count_set, hi, hheld, hk]

end Panackelty.Library
