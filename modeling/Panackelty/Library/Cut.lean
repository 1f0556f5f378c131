import Mathlib.Data.List.Infix
import Mathlib.Data.List.Range

/-!
# Cutting a list at a separator

`cut sep s` is what stands before and after the first occurrence of `sep` in `s`.

* `eq_of_cut`, `cut_eq_none_iff`: the first occurrence.
* `cut_append`: a cut stays where it is when the list grows.
* `length_lt_of_cut_append`: a cut that appears as the list grows ends in what was added.
* `find?_range'_eq_cut`: a search by index finds the cut.
-/

namespace Panackelty.Library

open List

universe u

variable {α : Type u} [DecidableEq α] {sep s t l r : List α}

/-- What stands before and after the first occurrence of `sep`. -/
def cut (sep : List α) : List α → Option (List α × List α)
  | [] => none
  | a :: s =>
    if sep.isPrefixOf (a :: s) then some ([], (a :: s).drop sep.length)
    else (cut sep s).map fun p => (a :: p.1, p.2)

@[simp] theorem cut_nil (sep : List α) : cut sep ([] : List α) = none := rfl

theorem cut_here (hsep : sep ≠ []) (h : sep <+: s) : cut sep s = some ([], s.drop sep.length) := by
  cases s with
  | nil => exact absurd (prefix_nil.mp h) hsep
  | cons a s => rw [cut, if_pos (List.isPrefixOf_iff_prefix.mpr h)]

theorem cut_skip {a : α} (h : ¬ sep <+: a :: s) :
    cut sep (a :: s) = (cut sep s).map fun p => (a :: p.1, p.2) := by
  rw [cut, if_neg fun hp => h (List.isPrefixOf_iff_prefix.mp hp)]

theorem eq_of_cut (h : cut sep s = some (l, r)) : s = l ++ (sep ++ r) := by
  induction s generalizing l with
  | nil => cases h
  | cons a s ih =>
    by_cases hp : sep <+: a :: s
    · obtain ⟨t, ht⟩ := hp
      rw [cut, if_pos (List.isPrefixOf_iff_prefix.mpr ⟨t, ht⟩)] at h
      cases h
      rw [← ht, drop_left, nil_append]
    · rw [cut_skip hp] at h
      obtain ⟨⟨l', r'⟩, hcut, heq⟩ := Option.map_eq_some_iff.mp h
      cases heq
      rw [ih hcut, cons_append]

theorem length_of_cut (h : cut sep s = some (l, r)) :
    s.length = l.length + sep.length + r.length := by
  rw [eq_of_cut h]
  simp only [length_append]
  omega

theorem cut_eq_none_iff (hsep : sep ≠ []) : cut sep s = none ↔ ∀ k, ¬ sep <+: s.drop k := by
  induction s with
  | nil =>
    refine ⟨fun _ k hp => hsep ?_, fun _ => rfl⟩
    rw [drop_nil] at hp
    exact prefix_nil.mp hp
  | cons a s ih =>
    by_cases hp : sep <+: a :: s
    · rw [cut_here hsep hp]
      exact ⟨nofun, fun h => absurd hp (h 0)⟩
    rw [cut_skip hp, Option.map_eq_none_iff, ih]
    refine ⟨fun h k => ?_, fun h k => h (k + 1)⟩
    cases k with
    | zero => exact hp
    | succ k => exact h k

theorem not_prefix_of_cut (h : cut sep s = some (l, r)) {k : ℕ} (hk : k < l.length) :
    ¬ sep <+: s.drop k := by
  induction s generalizing l k with
  | nil => cases h
  | cons a s ih =>
    by_cases hp : sep <+: a :: s
    · rw [cut, if_pos (List.isPrefixOf_iff_prefix.mpr hp)] at h
      cases h
      exact absurd hk (Nat.not_lt_zero k)
    rw [cut_skip hp] at h
    obtain ⟨⟨l', r'⟩, hcut, heq⟩ := Option.map_eq_some_iff.mp h
    cases heq
    cases k with
    | zero => exact hp
    | succ k => exact ih hcut (Nat.lt_of_succ_lt_succ hk)

/-- The cut is the only place with the separator and none before it. -/
theorem cut_of_first (hsep : sep ≠ []) (heq : s = l ++ (sep ++ r))
    (hfirst : ∀ k < l.length, ¬ sep <+: s.drop k) : cut sep s = some (l, r) := by
  induction l generalizing s with
  | nil =>
    rw [nil_append] at heq
    rw [cut_here hsep ⟨r, heq.symm⟩, heq, drop_left]
  | cons a l ih =>
    subst heq
    have hhere : ¬ sep <+: a :: (l ++ (sep ++ r)) := hfirst 0 (Nat.succ_pos _)
    rw [cons_append, cut_skip hhere, ih rfl fun k hk => hfirst (k + 1) (Nat.succ_lt_succ hk)]
    rfl

theorem cut_append (h : cut sep s = some (l, r)) (t : List α) :
    cut sep (s ++ t) = some (l, r ++ t) := by
  induction s generalizing l with
  | nil => cases h
  | cons a s ih =>
    by_cases hp : sep <+: a :: s
    · rw [cut, if_pos (List.isPrefixOf_iff_prefix.mpr hp)] at h
      cases h
      have hp' : sep <+: a :: (s ++ t) := hp.trans (prefix_append (a :: s) t)
      rw [cons_append, cut, if_pos (List.isPrefixOf_iff_prefix.mpr hp'), ← cons_append,
        drop_append_of_le_length hp.length_le]
    · have h' := h
      rw [cut_skip hp] at h
      obtain ⟨⟨l', r'⟩, hcut, heq⟩ := Option.map_eq_some_iff.mp h
      cases heq
      -- the separator could only start here if all of it did before the list grew
      have hlen := length_of_cut hcut
      have hp' : ¬ sep <+: a :: (s ++ t) := fun hq => hp
        (prefix_of_prefix_length_le hq (prefix_append (a :: s) t) (by rw [length_cons]; omega))
      rw [cons_append, cut_skip hp', ih hcut]
      rfl

theorem length_lt_of_cut_append (hsep : sep ≠ []) (h : cut sep s = none)
    (h' : cut sep (s ++ t) = some (l, r)) : s.length < l.length + sep.length := by
  by_contra hlen
  have hwhole : l ++ sep <+: s ++ t := ⟨r, by rw [append_assoc, ← eq_of_cut h']⟩
  have hpre : l ++ sep <+: s := prefix_of_prefix_length_le hwhole (prefix_append s t)
      (by rw [length_append]; omega)
  obtain ⟨u, hu⟩ := hpre
  refine (cut_eq_none_iff hsep).mp h l.length ⟨u, ?_⟩
  rw [← hu, append_assoc, drop_left]

theorem cut_of_cut (hsep : sep ≠ []) (h : cut sep s = some (l, r)) :
    cut sep (l ++ sep) = some (l, []) := by
  refine cut_of_first hsep (by rw [append_nil]) fun k hk hpre => not_prefix_of_cut h hk ?_
  rw [eq_of_cut h, ← append_assoc, drop_append_of_le_length (by rw [length_append]; omega)]
  exact hpre.trans (prefix_append _ _)

theorem find?_range'_eq_cut (hsep : sep ≠ []) (p : ℕ → Bool) (start n : ℕ)
    (hp : ∀ i, start ≤ i → i < start + n → (p i = true ↔ sep <+: s.drop i))
    (hn : s.length < start + n + sep.length) :
    (range' start n).find? p = (cut sep (s.drop start)).map fun q => start + q.1.length := by
  rcases hcut : cut sep (s.drop start) with _ | ⟨l, r⟩
  · refine find?_eq_none.mpr fun i hi hpi => ?_
    obtain ⟨hle, hlt⟩ := mem_range'_1.mp hi
    obtain ⟨k, rfl⟩ := Nat.exists_eq_add_of_le hle
    refine (cut_eq_none_iff hsep).mp hcut k ?_
    rw [drop_drop]
    exact (hp _ hle hlt).mp hpi
  have hlen := length_of_cut hcut
  rw [length_drop] at hlen
  have hpos : 0 < sep.length := length_pos_of_ne_nil hsep
  have hheq := eq_of_cut hcut
  show _ = some (start + l.length)
  rw [find?_range'_eq_some]
  refine ⟨?_, mem_range'_1.mpr (by omega), fun j hj hlt => ?_⟩
  · rw [hp _ (by omega) (by omega), ← drop_drop, hheq, drop_left]
    exact prefix_append sep r
  rw [Bool.not_eq_true', ← Bool.not_eq_true, hp _ (by omega) (by omega)]
  obtain ⟨k, rfl⟩ := Nat.exists_eq_add_of_le hj
  rw [← drop_drop]
  exact not_prefix_of_cut hcut (by omega)

end Panackelty.Library
