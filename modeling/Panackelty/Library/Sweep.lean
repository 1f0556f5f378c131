import Mathlib.Data.Nat.Notation

/-!
# Sweeps

The loop `for (i = n; i-- > 0;)`, which visits the numbers below a bound from the top down.

* `sweep`: the loop.
* `sweep_induction`: what holds before a visit to `i` of all that are above, holds in the end of
  all. -/

namespace Panackelty.Library

universe u

variable {σ : Type u}

/-- Visits `n - 1`, …, `0` in this order. -/
def sweep (visit : ℕ → σ → σ) : ℕ → σ → σ
  | 0, s => s
  | n + 1, s => sweep visit n (visit n s)

theorem sweep_induction {visit : ℕ → σ → σ} {P : ℕ → σ → Prop}
    (hvisit : ∀ i s, P (i + 1) s → P i (visit i s)) {n : ℕ} {s : σ} (h : P n s) :
    P 0 (sweep visit n s) := by
  induction n generalizing s with
  | zero => exact h
  | succ n ih => exact ih (hvisit n s h)

theorem sweep_invariant {visit : ℕ → σ → σ} {P : σ → Prop} (hvisit : ∀ i s, P s → P (visit i s))
    {s : σ} (h : P s) (n : ℕ) : P (sweep visit n s) :=
  @sweep_induction σ visit (fun _ s => P s) (fun i s => hvisit i s) n s h

end Panackelty.Library
