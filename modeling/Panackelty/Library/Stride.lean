import Mathlib.Dynamics.FixedPoints.Basic

/-!
# Strides of a deterministic system

A system takes one step at a time, and is at rest where a step changes nothing.  A stride takes some
number of steps at once.  However the steps are grouped into strides, a run that comes to rest comes
to rest in the same state.

* `IsStride`, `IsProgress`: some number of steps, and at least one unless the system is at rest.
* `iterate_eq_of_rest`: there is at most one state of rest.
* `IsProgress.iterate_eq`: enough strides come to it.
-/

namespace Panackelty.Library

open Function

universe u v

variable {σ : Type u} {ι : Type v}

/-- Takes some steps. -/
def IsStride (f g : σ → σ) : Prop := ∀ s, ∃ n, g s = f^[n] s

/-- Takes some steps, and at least one if the system is not at rest. -/
def IsProgress (f g : σ → σ) : Prop := ∀ s, ∃ n, g s = f^[n] s ∧ (¬ IsFixedPt f s → 0 < n)

variable {f g : σ → σ}

theorem IsStride.foldl {stride : ι → σ → σ} (h : ∀ i, IsStride f (stride i)) (is : List ι) :
    IsStride f fun s => is.foldl (fun s i => stride i s) s := by
  intro s
  induction is generalizing s with
  | nil => exact ⟨0, rfl⟩
  | cons i is ih =>
    obtain ⟨m, hm⟩ := h i s
    obtain ⟨n, hn⟩ := ih (stride i s)
    refine ⟨n + m, ?_⟩
    rw [iterate_add_apply, ← hm]
    exact hn

theorem iterate_eq_of_le {s : σ} {m n : ℕ} (hn : IsFixedPt f (f^[n] s)) (hle : n ≤ m) :
    f^[m] s = f^[n] s := by
  obtain ⟨k, rfl⟩ := Nat.exists_eq_add_of_le' hle
  rw [iterate_add_apply]
  exact hn.iterate k

theorem iterate_eq_of_rest {s : σ} {m n : ℕ} (hm : IsFixedPt f (f^[m] s))
    (hn : IsFixedPt f (f^[n] s)) : f^[m] s = f^[n] s := by
  rcases le_total m n with hle | hle
  · exact (iterate_eq_of_le hm hle).symm
  · exact iterate_eq_of_le hn hle

/-- A run that comes to rest after some steps does so after as many strides. -/
theorem IsProgress.iterate_eq (h : IsProgress f g) {s : σ} {n : ℕ} (hrest : IsFixedPt f (f^[n] s))
    {k : ℕ} (hk : n ≤ k) : g^[k] s = f^[n] s := by
  -- after `k` strides at least `k` steps are taken, or the system is at rest
  have hcnt : ∀ k, ∃ j, g^[k] s = f^[j] s ∧ (k ≤ j ∨ IsFixedPt f (f^[j] s)) := by
    intro k
    induction k with
    | zero => exact ⟨0, rfl, .inl le_rfl⟩
    | succ k ih =>
      obtain ⟨j, hj, hcase⟩ := ih
      obtain ⟨i, hi, hpos⟩ := h (g^[k] s)
      have hnext : g^[k + 1] s = f^[i + j] s := by
        rw [iterate_succ_apply', hi, hj, iterate_add_apply]
      refine ⟨i + j, hnext, ?_⟩
      by_cases hfixed : IsFixedPt f (f^[j] s)
      · right
        rw [iterate_eq_of_le hfixed (Nat.le_add_left j i)]
        exact hfixed
      · have hmoved := hpos (hj ▸ hfixed)
        have hkj := hcase.resolve_right hfixed
        exact .inl (by omega)
  obtain ⟨j, hj, hle | hfixed⟩ := hcnt k
  · rw [hj]
    exact iterate_eq_of_le hrest (hk.trans hle)
  · rw [hj]
    exact iterate_eq_of_rest hfixed hrest

end Panackelty.Library
