import Mathlib.Logic.Basic

/-!
# Machines and their runs

A machine has states to start from, and for each input a relation between the state before and the
state after.  What holds at the start and is kept by every step holds in every reachable state.

* `Machine`, `Reachable`: a machine, and the states of its runs.
* `Invariant`: the induction over runs.
-/

namespace Panackelty.Library

universe u v

/-- The states that a machine starts from, and what an input can do to a state. -/
structure Machine (σ : Type u) (ι : Type v) where
  initial : σ → Prop
  step : σ → ι → σ → Prop

namespace Machine

variable {σ : Type u} {ι : Type v} (M : Machine σ ι)

/-- The states that runs come to. -/
inductive Reachable : σ → Prop
  | initial {s : σ} (h : M.initial s) : Reachable s
  | step {s s' : σ} {i : ι} (h : Reachable s) (hstep : M.step s i s') : Reachable s'

/-- Holds at the start and is kept by every step. -/
structure Invariant (I : σ → Prop) : Prop where
  initial : ∀ s, M.initial s → I s
  step : ∀ s i s', I s → M.step s i s' → I s'

variable {M}

theorem Invariant.reachable {I : σ → Prop} (h : M.Invariant I) {s : σ} (hs : M.Reachable s) :
    I s := by
  induction hs with
  | initial hinit => exact h.initial _ hinit
  | step _ hstep ih => exact h.step _ _ _ ih hstep

end Machine

end Panackelty.Library
