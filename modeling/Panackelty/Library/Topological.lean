import Mathlib.Data.List.Nodup
import Mathlib.Logic.Relation

/-!
# Lists in topological order

A depth-first search appends a node after everything that the node leads to.  The list that it makes
is built from the end, one node at a time, and the search itself only needs to know which nodes are
on its path.

* `Ordered`: lists in which every node stands after its successors; `Ordered.idxOf_lt`,
  `Ordered.acyclic`.
* `Leads`: every node of the path leads to the current node; `Leads.notMem`.
* `pending`: the nodes that are not on the path, the measure of the search.
-/

namespace Panackelty.Library

open List

variable {α : Type*}

/-! ## Ordered lists -/

/-- Every node of the list stands after its successors, and no node stands in it twice. -/
inductive Ordered (next : α → α → Prop) : List α → Prop
  | nil : Ordered next []
  | snoc {l : List α} {a : α} : Ordered next l → a ∉ l → (∀ b, next a b → b ∈ l) →
      Ordered next (l ++ [a])

namespace Ordered

variable {next : α → α → Prop} {l : List α}

theorem nodup (h : Ordered next l) : l.Nodup := by
  induction h with
  | nil => exact nodup_nil
  | snoc _ ha _ ih =>
    rw [nodup_append]
    refine ⟨ih, nodup_singleton _, ?_⟩
    rintro b hb c hc rfl
    exact ha (mem_singleton.mp hc ▸ hb)

theorem mem_of_next (h : Ordered next l) {a b : α} (ha : a ∈ l) (hab : next a b) : b ∈ l := by
  induction h with
  | nil => cases ha
  | snoc _ _ hnext ih =>
    rw [mem_append] at ha ⊢
    rcases ha with ha | ha
    · exact .inl (ih ha)
    · rw [mem_singleton.mp ha] at hab
      exact .inl (hnext b hab)

theorem idxOf_lt [DecidableEq α] (h : Ordered next l) {a b : α} (ha : a ∈ l) (hab : next a b) :
    l.idxOf b < l.idxOf a := by
  induction h with
  | nil => cases ha
  | @snoc l c hl hc hnext ih =>
    by_cases hmem : a ∈ l
    · rw [idxOf_append_of_mem (hl.mem_of_next hmem hab), idxOf_append_of_mem hmem]
      exact ih hmem
    have hac : a = c := by
      rcases mem_append.mp ha with ha | ha
      · exact absurd ha hmem
      · exact mem_singleton.mp ha
    rw [hac] at hab hmem ⊢
    rw [idxOf_append_of_mem (hnext b hab), idxOf_append_of_notMem hmem]
    exact Nat.lt_add_right _ (idxOf_lt_length_of_mem (hnext b hab))

theorem acyclic (h : Ordered next l) (hall : ∀ a b, next a b → a ∈ l) (a : α) :
    ¬ Relation.TransGen next a a := by
  classical
  -- positions go down along the relation
  have hdown : ∀ {b c}, Relation.TransGen next b c → l.idxOf c < l.idxOf b := by
    intro b c hbc
    induction hbc with
    | single hbc => exact h.idxOf_lt (hall _ _ hbc) hbc
    | tail _ hcd ih => exact Nat.lt_trans (h.idxOf_lt (hall _ _ hcd) hcd) ih
  intro hcycle
  exact Nat.lt_irrefl _ (hdown hcycle)

end Ordered

/-! ## The path of a search -/

/-- Every node of the path leads to the node. -/
def Leads (next : α → α → Prop) (path : List α) (a : α) : Prop :=
  ∀ s ∈ path, Relation.TransGen next s a

namespace Leads

variable {next : α → α → Prop} {path : List α} {a b : α}

theorem nil (a : α) : Leads next [] a := fun s hs => by cases hs

theorem snoc (h : Leads next path a) (hab : Relation.TransGen next a b) :
    Leads next (path ++ [a]) b := by
  intro s hs
  rcases mem_append.mp hs with hs | hs
  · exact (h s hs).trans hab
  · rw [mem_singleton.mp hs]
    exact hab

theorem notMem (h : Leads next path a) (hacyc : ¬ Relation.TransGen next a a) : a ∉ path :=
  fun hmem => hacyc (h a hmem)

end Leads

/-- The number of nodes that are not on the path. -/
def pending [DecidableEq α] (nodes path : List α) : ℕ := (nodes.filter (· ∉ path)).length

theorem pending_snoc_lt [DecidableEq α] {nodes path : List α} {a : α} (ha : a ∈ nodes)
    (hpath : a ∉ path) : pending nodes (path ++ [a]) < pending nodes path := by
  have hsub : (nodes.filter (· ∉ path ++ [a])) = (nodes.filter (· ∉ path)).filter (· ≠ a) := by
    rw [filter_filter]
    refine filter_congr fun b _ => ?_
    by_cases hb : b = a <;> by_cases hp : b ∈ path <;> simp [hb, hp]
  unfold pending
  rw [hsub]
  refine length_filter_lt_length_iff_exists.mpr ⟨a, ?_, by simp⟩
  exact mem_filter.mpr ⟨ha, by simpa using hpath⟩

end Panackelty.Library
