import Mathlib.Data.Finset.Card
import Mathlib.Data.Finset.Dedup

/-!
# Marking in passes

A loop over items marks an item when a rule holds for it and the marks so far, and starts again
until a pass marks nothing.  For a rule that more marks cannot break, the result is the least set of
marks that the rule cannot extend.

* `pass`, `run`, `result`: one pass, the repetition, and the loop from no marks.
* `result_closed`, `result_subset`: the result is closed, and contained in every closed set.
* `mem_result_iff`: the fixed point equation.
-/

namespace Panackelty.Library.Marking

open List Finset

universe u

variable {ι : Type u} [DecidableEq ι] (rule : Finset ι → ι → Bool)

/-- Look at one item; the flag says that something was marked. -/
def visit (state : Finset ι × Bool) (i : ι) : Finset ι × Bool :=
  if i ∉ state.1 ∧ rule state.1 i = true then (insert i state.1, true) else state

/-- One round over all items. -/
def pass (items : List ι) (marks : Finset ι) : Finset ι × Bool :=
  items.foldl (visit rule) (marks, false)

/-- At most so many passes. -/
def run (items : List ι) : ℕ → Finset ι → Finset ι
  | 0, marks => marks
  | n + 1, marks =>
    let out := pass rule items marks
    if out.2 then run items n out.1 else out.1

/-- Passes until nothing changes; every pass but the last marks an item. -/
def result (items : List ι) : Finset ι := run rule items (items.length + 1) ∅

/-- No item can be marked any more. -/
def Closed (items : List ι) (marks : Finset ι) : Prop :=
  ∀ i ∈ items, rule marks i = true → i ∈ marks

/-- More marks do not break the rule. -/
def Increasing : Prop :=
  ∀ ⦃marks marks' : Finset ι⦄ ⦃i : ι⦄, marks ⊆ marks' → rule marks i = true → rule marks' i = true

variable {rule} {items : List ι} {marks : Finset ι}

theorem subset_foldl_visit : ∀ (items : List ι) (state : Finset ι × Bool),
    state.1 ⊆ (items.foldl (visit rule) state).1
  | [], _ => Finset.Subset.refl _
  | i :: items, state => by
    refine Finset.Subset.trans ?_ (subset_foldl_visit items (visit rule state i))
    rw [visit]
    split_ifs
    · exact subset_insert i state.1
    · exact Finset.Subset.refl _

theorem foldl_visit_flag : ∀ (items : List ι) (state : Finset ι × Bool), state.2 = true →
    (items.foldl (visit rule) state).2 = true
  | [], _, h => h
  | i :: items, state, h => by
    refine foldl_visit_flag items _ ?_
    rw [visit]
    split_ifs
    · rfl
    · exact h

/-- A visit without a mark finds an item that is marked or does not meet the rule. -/
theorem foldl_visit_of_unchanged : ∀ (items : List ι) (marks : Finset ι),
    (items.foldl (visit rule) (marks, false)).2 = false →
      (items.foldl (visit rule) (marks, false)).1 = marks ∧ Closed rule items marks
  | [], _, _ => ⟨rfl, fun _ h => absurd h not_mem_nil⟩
  | i :: items, marks, h => by
    by_cases hi : i ∉ marks ∧ rule marks i = true
    · rw [foldl_cons, visit, if_pos hi, foldl_visit_flag items _ rfl] at h
      cases h
    have hvisit : visit rule (marks, false) i = (marks, false) := if_neg hi
    rw [foldl_cons, hvisit] at h ⊢
    obtain ⟨hsame, hclo⟩ := foldl_visit_of_unchanged items marks h
    refine ⟨hsame, fun j hj hrule => ?_⟩
    rcases mem_cons.mp hj with rfl | hj
    · exact by_contra fun hmem => hi ⟨hmem, hrule⟩
    · exact hclo j hj hrule

theorem card_foldl_visit : ∀ (items : List ι) (state : Finset ι × Bool),
    state.2 = false → (items.foldl (visit rule) state).2 = true →
      state.1.card < (items.foldl (visit rule) state).1.card
  | [], _, h, h' => absurd h' (by rw [foldl_nil, h]; exact Bool.false_ne_true)
  | i :: items, state, h, h' => by
    by_cases hi : i ∉ state.1 ∧ rule state.1 i = true
    · have hsubset := @subset_foldl_visit ι _ rule items (insert i state.1, true)
      rw [foldl_cons, visit, if_pos hi]
      calc state.1.card < (insert i state.1).card := by
            rw [card_insert_of_notMem hi.1]
            exact Nat.lt_succ_self _
        _ ≤ _ := card_le_card hsubset
    · have hvisit : visit rule state i = state := if_neg hi
      rw [foldl_cons, hvisit] at h' ⊢
      exact card_foldl_visit items state h h'

variable {P : Finset ι → Prop}

/-- A pass keeps what holds of every set that a justified mark leads to. -/
theorem foldl_visit_induction :
    ∀ (items : List ι), (∀ marks i, P marks → i ∈ items → i ∉ marks → rule marks i = true →
      P (insert i marks)) → ∀ state : Finset ι × Bool, P state.1 →
        P (items.foldl (visit rule) state).1
  | [], _, _, h => h
  | i :: items, hstep, state, h => by
    refine foldl_visit_induction items
      (fun marks j hP hj => hstep marks j hP (mem_cons_of_mem i hj)) _ ?_
    rw [visit]
    split_ifs with hi
    · exact hstep state.1 i h mem_cons_self hi.1 hi.2
    · exact h

theorem run_induction (hstep : ∀ marks i, P marks → i ∈ items → i ∉ marks → rule marks i = true →
      P (insert i marks)) : ∀ (n : ℕ) (marks : Finset ι), P marks → P (run rule items n marks)
  | 0, _, h => h
  | n + 1, marks, h => by
    have hpass : P (pass rule items marks).1 := foldl_visit_induction items hstep (marks, false) h
    rw [run]
    split_ifs
    · exact run_induction hstep n _ hpass
    · exact hpass

/-- The invariant rule: what no mark and every justified mark keeps holds of the result. -/
theorem result_induction (hemp : P ∅)
    (hstep : ∀ marks i, P marks → i ∈ items → i ∉ marks → rule marks i = true →
      P (insert i marks)) : P (result rule items) :=
  run_induction hstep _ _ hemp

theorem run_closed : ∀ (n : ℕ) (marks : Finset ι), marks ⊆ items.toFinset →
    items.toFinset.card < marks.card + n → Closed rule items (run rule items n marks)
  | 0, marks, hsub, hcard => by
    have := card_le_card hsub
    omega
  | n + 1, marks, hsub, hcard => by
    have hstep : ∀ (marks : Finset ι) (i : ι), marks ⊆ items.toFinset → i ∈ items → i ∉ marks →
        rule marks i = true → insert i marks ⊆ items.toFinset := fun marks i hmarks hi _ _ =>
      insert_subset (mem_toFinset.mpr hi) hmarks
    rw [run]
    split_ifs with hchanged
    · have hmore : marks.card < (pass rule items marks).1.card :=
        card_foldl_visit items (marks, false) rfl hchanged
      exact run_closed n _ (foldl_visit_induction items hstep (marks, false) hsub) (by omega)
    · obtain ⟨hsame, hclo⟩ := foldl_visit_of_unchanged items marks (Bool.eq_false_iff.mpr hchanged)
      rw [pass, hsame]
      exact hclo

theorem result_closed (items : List ι) : Closed rule items (result rule items) := by
  refine run_closed _ _ (empty_subset _) ?_
  have := toFinset_card_le items
  rw [card_empty]
  omega

theorem result_subset (hrule : Increasing rule) (hclo : Closed rule items marks) :
    result rule items ⊆ marks :=
  result_induction (P := fun found => found ⊆ marks) (empty_subset _)
    fun _ i hfound hi _ hmeets => insert_subset (hclo i hi (hrule hfound hmeets)) hfound

/-- Every larger bound on the passes gives the result. -/
theorem run_eq_result (hrule : Increasing rule) {n : ℕ} (hn : items.length < n) :
    run rule items n ∅ = result rule items := by
  refine Finset.Subset.antisymm ?_ (result_subset hrule (run_closed n ∅ (empty_subset _) ?_))
  · exact run_induction (P := (· ⊆ result rule items)) (fun _ i hfound hi _ hmeets =>
      insert_subset (result_closed items i hi (hrule hfound hmeets)) hfound) n ∅ (empty_subset _)
  · have := toFinset_card_le items
    rw [card_empty]
    omega

theorem justified_result (hrule : Increasing rule) :
    ∀ i ∈ result rule items, i ∈ items ∧ rule (result rule items) i = true := by
  refine result_induction (P := fun found => ∀ i ∈ found, i ∈ items ∧ rule found i = true)
    (fun i hi => absurd hi (notMem_empty i)) ?_
  intro found i hfound hi _ hmeets j hj
  have hgrow : found ⊆ insert i found := subset_insert i found
  rcases mem_insert.mp hj with rfl | hj
  · exact ⟨hi, hrule hgrow hmeets⟩
  · exact ⟨(hfound j hj).1, hrule hgrow (hfound j hj).2⟩

theorem mem_result_iff (hrule : Increasing rule) {i : ι} :
    i ∈ result rule items ↔ i ∈ items ∧ rule (result rule items) i = true :=
  ⟨justified_result hrule i, fun h => result_closed items i h.1 h.2⟩

end Panackelty.Library.Marking
