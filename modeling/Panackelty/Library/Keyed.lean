import Mathlib.Data.List.Dedup
import Mathlib.Data.List.Forall2
import Mathlib.Data.List.Induction

/-!
# Lists with at most one entry for each key

`put` replaces the entry of a key and moves it to the end; `add` keeps an entry that is there.

* `map_puts`, `map_adds`: the keys, in the order of their last put or of their first add.
* `findIdx?_eq_some_iff`: the place of a key.
* `last?_puts`: the entry of a key is the last one that was put.
* `forall₂_iff`: two lists agree entry by entry if they agree in the order of the keys and in the
  entry of every key.
-/

namespace Panackelty.Library.Keyed

open List

variable {α κ : Type*} [DecidableEq κ] (key : α → κ)

/-- The item of a key is replaced. -/
def put (l : List α) (a : α) : List α := l.filter (fun b => key b ≠ key a) ++ [a]

/-- An item is added if its key is new. -/
def add (l : List α) (a : α) : List α := if key a ∈ l.map key then l else l ++ [a]

/-- The last entry for a key. -/
def last? (l : List α) (k : κ) : Option α := l.reverse.find? fun a => key a = k

/-- The list after a sequence of `put`. -/
def puts (l : List α) : List α := l.foldl (put key) []

/-- The list after a sequence of `add`. -/
def adds (l : List α) : List α := l.foldl (add key) []

theorem puts_append (l : List α) (a : α) : puts key (l ++ [a]) = put key (puts key l) a := by
  rw [puts, foldl_append]
  rfl

theorem adds_append (l : List α) (a : α) : adds key (l ++ [a]) = add key (adds key l) a := by
  rw [adds, foldl_append]
  rfl

/-! ## The keys -/

theorem findIdx?_eq_some_iff {β ν : Type*} [BEq ν] [LawfulBEq ν] {name : β → ν} {l : List β}
    (hdist : (l.map name).Nodup) {n : ν} {k : ℕ} :
    l.findIdx? (fun b => name b == n) = some k ↔ ∃ b, l[k]? = some b ∧ name b = n := by
  rw [findIdx?_eq_some_iff_getElem]
  constructor
  · rintro ⟨hk, hname, _⟩
    exact ⟨_, getElem?_eq_getElem hk, beq_iff_eq.mp hname⟩
  rintro ⟨b, hb, hname⟩
  obtain ⟨hk, rfl⟩ := List.getElem?_eq_some_iff.mp hb
  refine ⟨hk, beq_iff_eq.mpr hname, fun j hj heq => ?_⟩
  have hne := pairwise_iff_getElem.mp (pairwise_map.mp hdist) j k (by omega) hk hj
  exact hne ((beq_iff_eq.mp heq).trans hname.symm)

theorem dedup_concat (k : κ) (l : List κ) :
    (l ++ [k]).dedup = l.dedup.filter (fun j => j ≠ k) ++ [k] := by
  induction l with
  | nil => rfl
  | cons j l ih =>
    rw [cons_append, dedup_cons, dedup_cons]
    by_cases hj : j ∈ l
    · rw [if_pos (mem_append_left _ hj), if_pos hj, ih]
    · rw [if_neg hj]
      by_cases hk : j = k <;> simp [hj, hk, ih]

theorem map_puts (l : List α) : (puts key l).map key = (l.map key).dedup := by
  induction l using reverseRecOn with
  | nil => rfl
  | append_singleton l a ih =>
    rw [puts_append, put, map_append, map_append, map_singleton, dedup_concat, ← ih, filter_map]
    rfl

theorem map_adds (l : List α) : (adds key l).map key = (l.map key).reverse.dedup.reverse := by
  induction l using reverseRecOn with
  | nil => rfl
  | append_singleton l a ih =>
    rw [adds_append, add, ih, map_append, map_singleton, reverse_append,
      reverse_singleton, singleton_append, dedup_cons]
    by_cases h : key a ∈ l.map key <;> simp [h, ih]

theorem nodup_puts (l : List α) : ((puts key l).map key).Nodup := by
  rw [map_puts]
  exact nodup_dedup _

theorem nodup_adds (l : List α) : ((adds key l).map key).Nodup := by
  rw [map_adds, nodup_reverse]
  exact nodup_dedup _

/-! ## The entry of a key -/

theorem last?_append (l : List α) (a : α) (k : κ) :
    last? key (l ++ [a]) k = if key a = k then some a else last? key l k := by
  rw [last?, reverse_append, reverse_singleton, singleton_append, find?_cons]
  by_cases h : key a = k <;> simp [h, last?]

/-- Removing the entries of one key does not touch those of another. -/
theorem last?_filter {l : List α} {k k' : κ} (h : k' ≠ k) :
    last? key (l.filter fun b => key b ≠ k') k = last? key l k := by
  rw [last?, last?, ← filter_reverse, find?_filter]
  refine congrFun (congrArg find? (funext fun b => ?_)) _
  by_cases hb : key b = k <;> simp [hb, h.symm]

theorem last?_puts (l : List α) (k : κ) : last? key (puts key l) k = last? key l k := by
  induction l using reverseRecOn with
  | nil => rfl
  | append_singleton l a ih =>
    rw [puts_append, put, last?_append, last?_append]
    by_cases h : key a = k
    · rw [if_pos h, if_pos h]
    · rw [if_neg h, if_neg h, last?_filter key h, ih]

theorem last?_of_mem {l : List α} (h : (l.map key).Nodup) {a : α} (ha : a ∈ l) :
    last? key l (key a) = some a := by
  rw [last?]
  rcases hfind : l.reverse.find? fun b => key b = key a with _ | b
  · exact absurd (find?_eq_none.mp hfind a (mem_reverse.mpr ha)) (by simp)
  have hb := mem_reverse.mp (mem_of_find?_eq_some hfind)
  have hkey : key b = key a := by simpa using find?_some hfind
  rw [inj_on_of_nodup_map h hb ha hkey]

/-! ## Agreement of two lists -/

variable {r : α → α → Prop} (hr : ∀ {a b}, r a b → key a = key b)
include hr

theorem rel_find? {l l' : List α} (h : List.Forall₂ r l l') (k : κ) :
    Option.Rel r (l.find? fun a => key a = k) (l'.find? fun a => key a = k) := by
  induction h with
  | nil => exact .none
  | @cons a b l l' hab _ ih =>
    by_cases hk : key a = k
    · simpa [hk, ← hr hab] using Option.Rel.some hab
    · simpa [hk, ← hr hab] using ih

theorem forall₂_iff {l l' : List α} (hl : (l.map key).Nodup) :
    List.Forall₂ r l l' ↔ l.map key = l'.map key ∧
      ∀ k, Option.Rel r (last? key l k) (last? key l' k) := by
  constructor
  · refine fun h => ⟨?_, fun k => rel_find? key hr (forall₂_reverse_iff.mpr h) k⟩
    rw [← forall₂_eq_eq_eq, forall₂_map_left_iff, forall₂_map_right_iff]
    exact h.imp fun _ _ => hr
  rintro ⟨hkeys, hrel⟩
  have hl' : (l'.map key).Nodup := hkeys ▸ hl
  have hlen : l.length = l'.length := by simpa using congrArg length hkeys
  refine forall₂_iff_get.mpr ⟨hlen, fun i hi hi' => ?_⟩
  -- the two entries at one place have one key
  have hkey : key (l.get ⟨i, hi⟩) = key (l'.get ⟨i, hi'⟩) := by
    have hget := getElem_of_eq hkeys (by simpa using hi : i < (l.map key).length)
    simpa using hget
  have h := hrel (key (l.get ⟨i, hi⟩))
  rw [last?_of_mem key hl (get_mem _ _), hkey, last?_of_mem key hl' (get_mem _ _)] at h
  cases h
  assumption

end Panackelty.Library.Keyed
