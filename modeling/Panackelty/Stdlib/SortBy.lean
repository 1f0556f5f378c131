import Panackelty.Library.WeakOrder

/-!
# `sort_by` of the core library

A merge sort: the array is halved, both halves are sorted, and the merge takes from the right half
only what is strictly before the next element of the left half.  Arrays are lists, and the two
cursors of the merge are the two parts of the halves that are still to come. -/

namespace Panackelty.Stdlib

open Library List

variable {α : Type*} (less : α → α → Bool)

/-- The three loops of the merge: the first runs while both halves have elements, the others append
what is left of either. -/
def mergeLoop : (left right result : List α) → List α
  | a :: left, b :: right, result =>
    if less b a then mergeLoop (a :: left) right (result ++ [b])
    else mergeLoop left (b :: right) (result ++ [a])
  | left, right, result => result ++ left ++ right
termination_by left right => left.length + right.length

/-- `[T].sort_by`. -/
def sortBy (items : List α) : List α :=
  if items.length < 2 then items
  else
    let middle := items.length / 2
    mergeLoop less (sortBy (items.take middle)) (sortBy (items.drop middle)) []
termination_by items.length
decreasing_by
  · rw [length_take]
    omega
  · rw [length_drop]
    omega

theorem mergeLoop_eq (left right res : List α) :
    mergeLoop less left right res = res ++ left.merge right fun a b => !less b a := by
  fun_induction mergeLoop less left right res with
  | case1 a left b right res h ih =>
    rw [ih, cons_merge_cons, if_neg (by simp [h]), append_assoc]
    rfl
  | case2 a left b right res h ih =>
    rw [ih, cons_merge_cons, if_pos (by simpa using h), append_assoc]
    rfl
  | case3 left right res h =>
    cases left with
    | nil => rw [nil_merge, append_nil]
    | cons a left =>
      cases right with
      | nil => rw [merge_right, append_nil]
      | cons b right => exact (h a left b right rfl rfl).elim

theorem sortBy_perm (items : List α) : (sortBy less items).Perm items := by
  fun_induction sortBy less items with
  | case1 items h => exact .refl _
  | case2 items h middle ihl ihr =>
    rw [mergeLoop_eq, nil_append]
    refine (merge_perm_append _).trans ((ihl.append ihr).trans ?_)
    rw [take_append_drop]

section Order

variable (horder : IsStrictWeakOrder α (less · · = true))
include horder

theorem sortBy_pairwise (items : List α) :
    (sortBy less items).Pairwise fun a b => less b a = false := by
  fun_induction sortBy less items with
  | case1 items h =>
    rcases items with _ | ⟨a, _ | ⟨b, items⟩⟩
    · exact .nil
    · exact pairwise_singleton _ _
    · exact absurd h (by simp)
  | case2 items h middle ihl ihr =>
    rw [mergeLoop_eq, nil_append]
    have hmerged := @pairwise_merge α (fun a b => !less b a) (fun a b c hab hbc => by
        rw [Bool.not_eq_true'] at hab hbc ⊢
        exact not_less_trans horder hab hbc)
      (fun a b => by
        rw [Bool.or_eq_true, Bool.not_eq_true', Bool.not_eq_true']
        exact not_less_total horder a b)
      _ _ (ihl.imp fun h => by rw [h]; rfl) (ihr.imp fun h => by rw [h]; rfl)
    exact hmerged.imp fun h => by rwa [Bool.not_eq_true'] at h

theorem sortBy_filter (a : α) (items : List α) :
    (sortBy less items).filter (equivalent less a) = items.filter (equivalent less a) := by
  fun_induction sortBy less items with
  | case1 items h => rfl
  | case2 items h middle ihl ihr =>
    rw [mergeLoop_eq, nil_append, filter_merge horder a (sortBy_pairwise less horder _), ihl, ihr,
      ← filter_append, take_append_drop]

end Order

/-- Every comparator gives a permutation.  A strict weak ordering gives a sorted one, in which the
elements of each class stand in the order of the input. -/
theorem sortBy_sorts (items : List α) :
    (sortBy less items).Perm items ∧
      (IsStrictWeakOrder α (less · · = true) →
        (sortBy less items).Pairwise (fun earlier later => less later earlier = false) ∧
          ∀ a, (sortBy less items).filter (equivalent less a) = items.filter (equivalent less a)) :=
  ⟨sortBy_perm less items, fun horder =>
    ⟨sortBy_pairwise less horder items, fun a => sortBy_filter less horder a items⟩⟩

/-- Pairs in the order of their first components. -/
theorem sortBy_sorts_pairs :
    (sortBy (fun a b : ℕ × ℕ => decide (a.1 < b.1)) [(2, 0), (1, 0), (2, 1)]).filter
      (equivalent (fun a b => decide (a.1 < b.1)) (2, 0)) = [(2, 0), (2, 1)] := by
  refine ((sortBy_sorts (fun a b : ℕ × ℕ => decide (a.1 < b.1)) [(2, 0), (1, 0), (2, 1)]).2 ?_).2
    (2, 0)
  have : IsStrictOrder (ℕ × ℕ) fun a b => decide (a.1 < b.1) = true :=
    { irrefl := fun a => by simp
      trans := fun a b c => by simp only [decide_eq_true_eq]; omega }
  exact ⟨fun a b c => by simp only [decide_eq_true_eq]; omega⟩

end Panackelty.Stdlib
