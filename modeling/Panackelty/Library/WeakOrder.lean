import Mathlib.Data.List.Basic
import Mathlib.Order.RelClasses

/-!
# Merging in a strict weak ordering

A comparator `less` that is a strict weak ordering sorts its elements into classes, those before
which and after which nothing of the class stands.  A merge that takes from the second list only
what is strictly less keeps every class in the order of the first list before the second
(`filter_merge`). -/

namespace Panackelty.Library

open List

variable {α : Type*} {less : α → α → Bool} {a b c : α}

/-- Neither of the two elements is strictly before the other. -/
def equivalent (less : α → α → Bool) (a b : α) : Bool := !less a b && !less b a

theorem equivalent_iff : equivalent less a b = true ↔ ¬ less a b = true ∧ ¬ less b a = true := by
  simp [equivalent]

section Order

variable (horder : IsStrictWeakOrder α (less · · = true))
include horder

theorem not_less_trans (hba : less b a = false) (hcb : less c b = false) : less c a = false := by
  rw [← Bool.not_eq_true] at hba hcb ⊢
  intro hca
  have hbc : ¬ less b c = true := fun h => hba (horder.trans _ _ _ h hca)
  have hab : ¬ less a b = true := fun h => hcb (horder.trans _ _ _ hca h)
  exact (horder.incomp_trans a b c ⟨hab, hba⟩ ⟨hbc, hcb⟩).2 hca

theorem not_less_total (a b : α) : less b a = false ∨ less a b = false := by
  simp only [← Bool.not_eq_true]
  by_contra hboth
  rw [not_or, not_not, not_not] at hboth
  exact horder.irrefl a (horder.trans _ _ _ hboth.2 hboth.1)

/-- What is equivalent to something before `a` is before `a`. -/
theorem less_of_equivalent (hbc : ¬ less b c = true ∧ ¬ less c b = true) (hca : less c a) :
    less b a = true := by
  by_contra hba
  rw [Bool.not_eq_true] at hba
  have hcb : less c b = false := Bool.eq_false_iff.mpr hbc.2
  exact Bool.false_ne_true ((not_less_trans horder hba hcb).symm.trans hca)

theorem filter_merge (a : α) {l r : List α} (hl : l.Pairwise fun a b => less b a = false) :
    (l.merge r fun a b => !less b a).filter (equivalent less a) =
      l.filter (equivalent less a) ++ r.filter (equivalent less a) := by
  induction l generalizing r with
  | nil => rw [nil_merge, filter_nil, nil_append]
  | cons x l ihl =>
    induction r with
    | nil => rw [merge_right, filter_nil, append_nil]
    | cons y r ihr =>
      rw [cons_merge_cons]
      by_cases hyx : less y x = true
      · rw [if_neg (by simp [hyx]), filter_cons, ihr, filter_cons (x := y)]
        by_cases hy : equivalent less a y = true
        · -- then nothing of the first list is in the class of `y`
          have hnone : (x :: l).filter (equivalent less a) = [] := by
            rw [filter_eq_nil_iff]
            intro z hz hza
            rw [equivalent_iff] at hy hza
            have hzy := horder.incomp_trans z a y hza.symm hy
            have hzx := less_of_equivalent horder hzy hyx
            rcases mem_cons.mp hz with rfl | hz
            · exact horder.irrefl z hzx
            · rw [(pairwise_cons.mp hl).1 z hz] at hzx
              cases hzx
          rw [if_pos hy, if_pos hy, hnone, nil_append, nil_append]
        · rw [if_neg hy, if_neg hy]
      · rw [if_pos (by simpa using hyx), filter_cons, ihl (pairwise_cons.mp hl).2,
          filter_cons (x := x)]
        split <;> rfl

end Order

end Panackelty.Library
