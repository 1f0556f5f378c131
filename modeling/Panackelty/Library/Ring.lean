import Mathlib.Data.List.Range
import Mathlib.Data.Nat.ModEq
import Mathlib.Logic.Function.Basic

/-!
# Ring buffers

A queue in an array of fixed size: the occupied places start at the head and go around.  Read from
the head, the buffer is a list; a push appends to it and a pop takes its first element.

* `Ring`: the buffer, with its bound and its occupied places as fields.
* `push`, `pop`, `toList`: the operations, and the list.
* `toList_push`, `toList_pop`: the operations on the list.
-/

namespace Panackelty.Library

open List Nat

universe u

/-- A buffer whose places from the head on are occupied. -/
structure Ring (α : Type u) where
  capacity : ℕ
  slots : ℕ → Option α
  head : ℕ
  count : ℕ
  bound : count ≤ capacity
  filled : ∀ k < count, (slots ((head + k) % capacity)).isSome

namespace Ring

variable {α : Type u}

/-- A ring without items. -/
def empty (capacity : ℕ) : Ring α where
  capacity
  slots _ := none
  head := 0
  count := 0
  bound := zero_le capacity
  filled k hk := absurd hk (not_lt_zero k)

/-- Different places of the buffer are different places of the array. -/
theorem index_ne {capacity head i j : ℕ} (hij : i < j) (hj : j < capacity) :
    (head + i) % capacity ≠ (head + j) % capacity := by
  intro heq
  have hmod : i % capacity = j % capacity := Nat.ModEq.add_left_cancel' head heq
  rw [mod_eq_of_lt (hij.trans hj), mod_eq_of_lt hj] at hmod
  omega

/-- The array after a push. -/
def pushSlots (r : Ring α) (a : α) : ℕ → Option α :=
  Function.update r.slots ((r.head + r.count) % r.capacity) (some a)

theorem pushSlots_last (r : Ring α) (a : α) :
    r.pushSlots a ((r.head + r.count) % r.capacity) = some a :=
  Function.update_self _ _ _

theorem pushSlots_of_lt (r : Ring α) (a : α) (h : r.count < r.capacity) {k : ℕ} (hk : k < r.count) :
    r.pushSlots a ((r.head + k) % r.capacity) = r.slots ((r.head + k) % r.capacity) :=
  Function.update_of_ne (index_ne hk h) _ _

/-- Appends; a full buffer is left alone. -/
def push (r : Ring α) (a : α) : Ring α :=
  if h : r.count < r.capacity then
    { r with
      slots := r.pushSlots a
      count := r.count + 1
      bound := h
      filled := by
        intro k hk
        rcases Nat.lt_succ_iff_lt_or_eq.mp hk with hlt | rfl
        · rw [r.pushSlots_of_lt a h hlt]
          exact r.filled k hlt
        · rw [r.pushSlots_last a]
          rfl }
  else r

/-- Takes the first element. -/
def pop (r : Ring α) : Option (α × Ring α) :=
  if h : 0 < r.count then
    (r.slots (r.head % r.capacity)).map fun a => (a, { r with
        head := (r.head + 1) % r.capacity
        count := r.count - 1
        bound := (sub_le _ _).trans r.bound
        filled := by
          intro k hk
          rw [mod_add_mod, add_assoc]
          exact r.filled (1 + k) (by omega) })
  else none

/-- The elements from the head on. -/
def toList (r : Ring α) : List α :=
  (List.range r.count).filterMap fun k => r.slots ((r.head + k) % r.capacity)

theorem toList_push (r : Ring α) (a : α) (h : r.count < r.capacity) :
    (r.push a).toList = r.toList ++ [a] := by
  unfold push
  rw [dif_pos h]
  unfold toList
  rw [range_succ, filterMap_append]
  congr 1
  · refine filterMap_congr fun k hk => ?_
    exact r.pushSlots_of_lt a h (mem_range.mp hk)
  · simp [r.pushSlots_last a]

theorem toList_pop {r r' : Ring α} {a : α} (h : r.pop = some (a, r')) :
    r.toList = a :: r'.toList := by
  unfold pop at h
  split at h
  · rename_i hpos
    obtain ⟨b, hb, hpair⟩ := Option.map_eq_some_iff.mp h
    obtain ⟨rfl, rfl⟩ := Prod.mk.injEq .. ▸ hpair
    have hrange : range r.count = 0 :: (range (r.count - 1)).map succ := by
      rw [← range_succ_eq_map, Nat.sub_add_cancel hpos]
    unfold toList
    rw [hrange]
    simp only [filterMap_cons, add_zero, hb, filterMap_map]
    refine congrArg _ (filterMap_congr fun k _ => ?_)
    simp only [Function.comp_apply]
    rw [Nat.mod_add_mod, add_assoc, add_comm 1 k]
  · cases h

end Ring

end Panackelty.Library
