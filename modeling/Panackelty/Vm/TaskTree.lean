import Panackelty.Vm.ScopeTree
import Panackelty.Vm.TaskOperations

/-!
# The tree of tasks

The tasks of a session are a tree of scopes.  Every loop of `tasks.c` over the tasks is a move of
this tree, and every call ends with a settled one.

* `Session.scope`: the tree; `scope_cancelBelow`, `settling_settle`: the loops.
* `Kept`: scopes that have ended stay as they are.
* `treeContract_run`: the contract of the tree, in every run.
-/

open Function (update update_self update_of_ne update_idem)

namespace Panackelty.Vm

open Library (sweep sweep_induction sweep_invariant)
open Nat Session TaskStatus
open List

variable {H : Type} {out : TaskStatus} {c j : ℕ}

/-! ## The tree of a session -/

/-- A task as a node of the tree. -/
def Task.scope (task : Task H) : Scope := ⟨task.parent, task.deadline, task.status, task.outcome⟩

/-- A place without a task. -/
def Scope.absent : Scope := ⟨0, 0, .invalid, .invalid⟩

/-- The tree of a session. -/
def Session.scope (t : Session H) (i : ℕ) : Scope := (t.tasks[i]?).elim .absent Task.scope

section Tree

variable {t t' : Session H} {i : ℕ} {task : Task H}

theorem Session.scope_eq (hi : t.tasks[i]? = some task) : t.scope i = task.scope := by
  unfold scope
  rw [hi]
  rfl

theorem Session.scope_absent (hi : t.tasks.length ≤ i) : t.scope i = .absent := by
  unfold scope
  rw [getElem?_eq_none hi]
  rfl

theorem Session.scope_modify {f : Task H → Task H} (hi : t.tasks[i]? = some task)
    (ht : t'.tasks = t.tasks.modify i f) : t'.scope = update t.scope i (f task).scope := by
  ext1 j
  by_cases hj : j = i
  · subst hj
    rw [update_self]
    exact scope_eq (by rw [ht, getElem?_modify_eq, hi]; rfl)
  · rw [update_of_ne hj]
    unfold scope
    rw [ht, getElem?_modify_ne _ _ (Ne.symm hj)]

theorem Session.scope_modify_same {f : Task H → Task H} (hf : ∀ task, (f task).scope = task.scope)
    (ht : t'.tasks = t.tasks.modify i f) : t'.scope = t.scope := by
  ext1 j
  unfold scope
  rw [ht, getElem?_modify]
  cases t.tasks[j]? with
  | none => rfl
  | some task =>
    split
    · exact hf task
    · rfl

theorem Session.scope_finishBody (hi : t.tasks[i]? = some task) (out : TaskStatus) :
    (t.finishBody i out).scope = update t.scope i ((t.scope i).finish out) := by
  obtain ⟨-, -, hout, hstat, hpar, hdl, -⟩ := task.finishBody_eq out
  rw [scope_modify hi (t.finishBody_tasks i out), scope_eq hi]
  unfold Task.scope Scope.finish
  rw [hout, hstat, hpar, hdl]

theorem Session.scope_conclude (hi : t.tasks[i]? = some task) : (t.conclude i).scope =
      update t.scope i { t.scope i with status := (t.scope i).outcome } := by
  have hmodify : (t.conclude i).tasks =
      t.tasks.modify i fun task => { task with status := task.outcome } := rfl
  rw [scope_modify hi hmodify, scope_eq hi]
  rfl

theorem Session.scope_cancelTask (hi : t.tasks[i]? = some task) :
    (t.cancelTask i).scope = update t.scope i (t.scope i).cancel := by
  have hfin : (t.finishBody i .cancelled).tasks[i]? = some (task.finishBody .cancelled) := by
    simp [finishBody_tasks, hi]
  rw [t.cancelTask_eq, scope_conclude hfin, scope_finishBody hi,
    update_self, update_idem]
  rfl

theorem Session.length_cancelTask (t : Session H) (i : ℕ) :
    (t.cancelTask i).tasks.length = t.tasks.length := by
  simp [cancelTask, modify, finishBody]

/-! ## Descendants -/

theorem Session.ascend_succ (t : Session H) (upper fuel slot : ℕ) :
    t.ascend upper (fuel + 1) (slot + 1) = if slot + 1 = upper then slot + 1
      else t.ascend upper fuel (t.scope slot).parent := by
  have helim : (t.tasks[slot]?).elim 0 Task.parent = (t.scope slot).parent := by
    unfold scope
    cases t.tasks[slot]? <;> rfl
  rw [ascend, Nat.add_sub_cancel, helim]
  simp

theorem Session.ascend_zero (t : Session H) (upper fuel : ℕ) : t.ascend upper fuel 0 = 0 := by
  cases fuel <;> simp [ascend]

theorem Session.ascend_congr (hpar : ∀ j, (t'.scope j).parent = (t.scope j).parent)
    (upper fuel slot : ℕ) : t'.ascend upper fuel slot = t.ascend upper fuel slot := by
  induction fuel generalizing slot with
  | zero => rfl
  | succ fuel ih =>
    cases slot with
    | zero => rw [t.ascend_zero, t'.ascend_zero]
    | succ slot => rw [t.ascend_succ, t'.ascend_succ, hpar, ih]

theorem Session.descendant_congr (hpar : ∀ j, (t'.scope j).parent = (t.scope j).parent)
    (i ancestor : ℕ) : t'.descendant i ancestor = t.descendant i ancestor := by
  unfold descendant
  rw [ascend_congr hpar]

theorem Session.descendant_self (t : Session H) (i : ℕ) : t.descendant i (i + 1) = true := by
  simp [descendant, ascend]

section Ancestors

variable (hbelow : ∀ i, (t.scope i).parent ≤ i)

include hbelow

theorem Session.ascend_fuel (upper fuel : ℕ) :
    ∀ {slot}, slot ≤ fuel → t.ascend upper fuel slot = t.ascend upper slot slot := by
  induction fuel using Nat.strong_induction_on with
  | _ fuel ih =>
    intro slot hslot
    rcases slot with _ | slot
    · rw [t.ascend_zero, t.ascend_zero]
    obtain ⟨fuel, rfl⟩ := exists_eq_succ_of_ne_zero (ne_of_gt (lt_of_lt_of_le
      (succ_pos slot) hslot))
    have hpar := hbelow slot
    rw [succ_eq_add_one, t.ascend_succ, t.ascend_succ]
    split
    · rfl
    · rw [ih fuel (lt_succ_self fuel) (by omega), ih slot (by omega) hpar]

theorem Session.descendant_child (hchild : Child t.scope j c) {ancestor : ℕ}
    (hne : c + 1 ≠ ancestor) : t.descendant c ancestor = t.descendant j ancestor := by
  have hpar := hbelow c
  unfold Child at hchild
  unfold descendant
  rw [t.ascend_succ, if_neg hne, hchild, ascend_fuel hbelow ancestor c (by omega)]

theorem Session.ascend_le (upper fuel slot : ℕ) : t.ascend upper fuel slot ≤ slot := by
  induction fuel generalizing slot with
  | zero => exact le_rfl
  | succ fuel ih =>
    cases slot with
    | zero => rw [t.ascend_zero]
    | succ slot =>
      rw [t.ascend_succ]
      split
      · exact le_rfl
      · exact (ih _).trans ((hbelow slot).trans (le_succ slot))

theorem Session.le_of_descendant {upper : ℕ} (h : t.descendant i upper) : upper ≤ i + 1 := by
  rw [← beq_iff_eq.mp h]
  exact ascend_le hbelow _ _ _

end Ancestors

/-! ## Cancelling -/

/-- The tasks that `cancelBelow` goes for. -/
def Session.selects (t : Session H) (root : ℕ) (itself : Bool) (i : ℕ) : Bool :=
  decide (i < t.tasks.length) && (itself || i + 1 != root) && t.descendant i root

/-- One visit of the sweep of `cancelBelow`. -/
def Session.cancelVisit (root : ℕ) (itself : Bool) (i : ℕ) (t : Session H) : Session H :=
  match t.tasks[i]? with
  | some task =>
    if (itself || i + 1 != root) && !task.terminal && t.descendant i root then t.cancelTask i else t
  | none => t

theorem Session.scope_cancelBelow (t : Session H) (root : ℕ) (itself : Bool) :
    (t.cancelBelow root itself).scope = cancelIn (t.selects root itself) t.scope ∧
      (t.cancelBelow root itself).tasks.length = t.tasks.length := by
  -- the places from the one that was visited last are as they will be
  let P : ℕ → Session H → Prop := fun n s => s.tasks.length = t.tasks.length ∧
    ∀ j, s.scope j = if n ≤ j then cancelIn (t.selects root itself) t.scope j else t.scope j
  have hvisit : ∀ i s, P (i + 1) s → P i (s.cancelVisit root itself i) := by
    rintro i s ⟨hlen, hscope⟩
    have hpar : ∀ j, (s.scope j).parent = (t.scope j).parent := by
      intro j
      rw [hscope j]
      split
      · exact (moves_cancelIn _ _ j).parent
      · rfl
    have hi : s.scope i = t.scope i := by rw [hscope i, if_neg (by omega)]
    -- it remains to see what becomes of the place itself
    have hoth : ∀ {s' : Session H}, s'.tasks.length = s.tasks.length →
        (∀ j, j ≠ i → s'.scope j = s.scope j) →
        s'.scope i = cancelIn (t.selects root itself) t.scope i → P i s' := by
      intro s' hlen' hne hself
      refine ⟨hlen'.trans hlen, fun j => ?_⟩
      by_cases hj : j = i
      · rw [hj, hself, if_pos le_rfl]
      rw [hne j hj, hscope j]
      by_cases hle : i ≤ j
      · rw [if_pos (by omega), if_pos hle]
      · rw [if_neg (by omega), if_neg hle]
    unfold cancelVisit
    split
    · rename_i task htask
      have hlt : i < t.tasks.length := hlen ▸ (List.getElem?_eq_some_iff.mp htask).1
      have hterm : task.terminal = (t.scope i).status.terminal := by
        rw [← hi, scope_eq htask]
        rfl
      have hcond : ((itself || i + 1 != root) && !task.terminal && s.descendant i root) = true ↔
          t.selects root itself i = true ∧ (t.scope i).status.terminal = false := by
        rw [descendant_congr hpar, hterm]
        simp only [selects, hlt, decide_true, Bool.true_and, Bool.and_eq_true,
          Bool.not_eq_true']
        tauto
      split
      · rename_i hsel
        refine hoth (s.length_cancelTask i) ?_ ?_
        · intro j hj
          rw [scope_cancelTask htask, update_of_ne hj]
        · rw [scope_cancelTask htask, update_self, cancelIn,
            if_pos (hcond.mp hsel), hi]
      · rename_i hsel
        refine hoth rfl (fun _ _ => rfl) ?_
        rw [hi, cancelIn, if_neg fun h => hsel (hcond.mpr h)]
    · rename_i htask
      refine hoth rfl (fun _ _ => rfl) ?_
      have hge : ¬i < t.tasks.length := hlen ▸ (getElem?_eq_none_iff.mp htask).not_gt
      rw [hi, cancelIn, if_neg]
      simp [selects, hge]
  have hinit : P t.tasks.length t := by
    refine ⟨rfl, fun j => ?_⟩
    split
    · rename_i hle
      have hge : ¬j < t.tasks.length := hle.not_gt
      rw [cancelIn, if_neg]
      simp [selects, hge]
    · rfl
  obtain ⟨hlen, hscope⟩ : P 0 (t.cancelBelow root itself) := sweep_induction hvisit hinit
  refine ⟨?_, hlen⟩
  ext1 j
  exact (hscope j).trans (if_pos (zero_le j))

theorem Session.selects_iff (t : Session H) {root : ℕ} {itself : Bool} :
    t.selects root itself j = true ↔
      j < t.tasks.length ∧ (itself = true ∨ j + 1 ≠ root) ∧ t.descendant j root = true := by
  simp [selects, and_assoc]

theorem Session.lt_of_child (hchild : Child t.scope j c) : c < t.tasks.length := by
  by_contra hge
  unfold Child at hchild
  rw [t.scope_absent (not_lt.mp hge)] at hchild
  cases hchild

section Selection

variable (hbelow : ∀ i, (t.scope i).parent ≤ i) {root : ℕ} {itself : Bool}

include hbelow

theorem Session.selects_child (hchild : Child t.scope j c) (hj : t.selects root itself j) :
    t.selects root itself c = true := by
  obtain ⟨-, -, hdesc⟩ := t.selects_iff.mp hj
  have hle := le_of_descendant hbelow hdesc
  have hlt := hbelow c
  unfold Child at hchild
  have hne : c + 1 ≠ root := by omega
  exact t.selects_iff.mpr ⟨lt_of_child hchild, .inr hne,
    (descendant_child hbelow hchild hne).trans hdesc⟩

theorem Session.selects_of_child (hchild : Child t.scope i c) :
    t.selects (i + 1) itself c = true := by
  have hlt := hbelow c
  unfold Child at hchild
  have hne : c + 1 ≠ i + 1 := by omega
  exact t.selects_iff.mpr ⟨lt_of_child hchild, .inr hne,
    (descendant_child hbelow hchild hne).trans (t.descendant_self i)⟩

theorem Session.selects_parent (hchild : Child t.scope j c)
    (hc : t.selects (i + 1) false c) :
    j = i ∨ t.selects (i + 1) false j = true := by
  obtain ⟨hlt, hne, hdesc⟩ := t.selects_iff.mp hc
  have hne := hne.resolve_left Bool.false_ne_true
  rw [descendant_child hbelow hchild hne] at hdesc
  have hpar := hbelow c
  by_cases hj : j = i
  · exact .inl hj
  · unfold Child at hchild
    exact .inr (t.selects_iff.mpr ⟨by omega, .inr (by omega), hdesc⟩)

end Selection

theorem Session.selects_self (t : Session H) (i : ℕ) : t.selects (i + 1) false i = false := by
  simp [selects]

/-- Scopes that have ended stay as they are. -/
def Kept (f g : ℕ → Scope) : Prop := ∀ i, (f i).status.terminal = true → g i = f i

theorem Kept.refl (f : ℕ → Scope) : Kept f f := fun _ _ => rfl

theorem Kept.trans {f g k : ℕ → Scope} (hfg : Kept f g) (hgk : Kept g k) : Kept f k := by
  intro i hi
  have hg := hfg i hi
  rw [← hg] at hi ⊢
  exact hgk i hi

theorem kept_of_moves {f g : ℕ → Scope} (h : ∀ i, (f i).Moves (g i)) : Kept f g :=
  fun i hi => (h i).eq_of_terminal hi

theorem structured_cancelBelow (h : Structured t.scope) (root : ℕ) (itself : Bool) :
    Structured (t.cancelBelow root itself).scope ∧
      Kept t.scope (t.cancelBelow root itself).scope := by
  rw [(t.scope_cancelBelow root itself).1]
  exact ⟨h.cancelIn (selects_child h.below), kept_of_moves (moves_cancelIn _ _)⟩

theorem Session.scope_fail (hlen : t'.tasks.length = t.tasks.length)
    (hscope : t'.scope = update t.scope i ((t.scope i).finish out)) :
    (t'.cancelBelow (i + 1) false).scope = failIn i out (t.selects (i + 1) false) t.scope := by
  have hpar : ∀ j, (t'.scope j).parent = (t.scope j).parent := by
    intro j
    rw [hscope]
    by_cases hj : j = i
    · subst hj
      rw [update_self]
      rfl
    · rw [update_of_ne hj]
  have hselects : t'.selects (i + 1) false = t.selects (i + 1) false := by
    ext1 j
    unfold selects
    rw [hlen, descendant_congr hpar]
  rw [(t'.scope_cancelBelow _ _).1, hselects, hscope]
  ext1 j
  by_cases hj : j = i
  · subst hj
    rw [failIn_self, cancelIn, if_neg (by simp [t.selects_self]), update_self]
  · rw [failIn_of_ne hj, cancelIn, cancelIn, update_of_ne hj]

theorem Session.length_finishBody (t : Session H) (i : ℕ) (out : TaskStatus) :
    (t.finishBody i out).tasks.length = t.tasks.length := by
  simp [finishBody]

theorem structured_fail (h : Structured t.scope) (hi : t.tasks[i]? = some task)
    (hterm : task.terminal = false) (hends : Scope.Ends out) :
    Structured ((t.finishBody i out).cancelBelow (i + 1) false).scope ∧
      Kept t.scope ((t.finishBody i out).cancelBelow (i + 1) false).scope := by
  rw [scope_fail (t.length_finishBody i out) (scope_finishBody hi out)]
  have hopen : (t.scope i).status.terminal = false := by
    rw [scope_eq hi]
    exact hterm
  exact ⟨h.failIn hopen hends (selects_child h.below)
    (fun hchild _ => selects_of_child h.below hchild) (t.selects_self i),
    kept_of_moves (moves_failIn hopen hends)⟩

/-! ## Settling -/

theorem Session.joined_iff (hbelow : ∀ i, (t.scope i).parent ≤ i) (i : ℕ) :
    t.joined i = true ↔ ∀ c, Child t.scope i c → (t.scope c).status.terminal = true := by
  unfold joined
  rw [all_eq_true]
  constructor
  · intro hall c hchild
    have hlt := lt_of_child hchild
    have hpar := hbelow c
    obtain ⟨child, hc⟩ : ∃ child, t.tasks[c]? = some child := ⟨_, getElem?_eq_getElem hlt⟩
    unfold Child at hchild
    have hmem : child ∈ t.tasks.drop (i + 1) := by
      refine mem_of_getElem? (i := c - (i + 1)) ?_
      rw [getElem?_drop, Nat.add_sub_cancel' (by omega), hc]
    rw [scope_eq hc] at hchild ⊢
    have hended : child.terminal := by
      simpa [show child.parent = i + 1 from hchild] using hall child hmem
    exact hended
  · intro hall child hmem
    obtain ⟨k, hk⟩ := mem_iff_getElem?.mp hmem
    rw [getElem?_drop] at hk
    have hscope := scope_eq hk
    have hterm := hall (i + 1 + k)
    unfold Child at hterm
    rw [hscope] at hterm
    simpa [Task.scope, Task.terminal, imp_iff_not_or] using hterm

theorem settling_settleJoin (h : Settling (i + 1) t.scope) :
    Settling (i + 1) (t.settleJoin i).scope ∧ (((t.settleJoin i).scope i).status = .joining →
        ∃ c, Child (t.settleJoin i).scope i c ∧
          ((t.settleJoin i).scope c).status.terminal = false) ∧
      ∀ j, (t.scope j).Moves ((t.settleJoin i).scope j) := by
  have hjoined := joined_iff h.structured.below i
  unfold settleJoin
  split
  · rename_i task hi
    have hscope := scope_eq hi
    split
    · rename_i hdone
      have hstat : (t.scope i).status = .joining := hscope ▸ hdone.1
      have hconclude : (t.modify i fun task => { task with status := task.outcome }).scope = _ :=
        scope_conclude hi
      rw [hconclude]
      refine ⟨h.join hstat (hjoined.mp hdone.2), fun hjoin => ?_, fun j => ?_⟩
      · rw [update_self] at hjoin
        have hterm := Scope.ends_terminal ((h.structured.valid i).joining hstat)
        rw [show (t.scope i).outcome = .joining from hjoin] at hterm
        cases hterm
      by_cases hj : j = i
      · subst hj
        rw [update_self]
        exact .conclude hstat
      · rw [update_of_ne hj]
        exact .same
    · rename_i hdone
      refine ⟨h, fun hjoin => ?_, fun _ => .same⟩
      by_contra hnone
      push Not at hnone
      have hstat : task.status = .joining := by
        rw [hscope] at hjoin
        exact hjoin
      exact hdone ⟨hstat, hjoined.mpr fun c hc => by simpa using hnone c hc⟩
  · rename_i hi
    refine ⟨h, fun hjoin => ?_, fun _ => .same⟩
    rw [t.scope_absent (getElem?_eq_none_iff.mp hi)] at hjoin
    cases hjoin

/-- The second half of a visit: the parent of a task that has failed is taken along, or is gone or
going already. -/
theorem Session.settleParent_cases (h : Structured t.scope) (i : ℕ) :
    ((t.settleParent i).scope = t.scope ∧
      ∀ {p}, Child t.scope p i → (t.scope i).Failed → (t.scope p).Doomed) ∨
    ∃ p, Child t.scope p i ∧ (t.scope i).Failed ∧ (t.scope p).status.terminal = false ∧
      (t.settleParent i).scope = failIn p .trapped (t.selects (p + 1) false) t.scope := by
  unfold settleParent
  split
  · rename_i task hi
    have hscope := scope_eq hi
    split
    · rename_i hfailed
      obtain ⟨p, hp⟩ := exists_eq_succ_of_ne_zero hfailed.2.2
      have hchild : Child t.scope p i := by
        unfold Child
        rw [hscope]
        exact hp
      have hfail : (t.scope i).Failed := by
        rw [hscope]
        exact ⟨hfailed.1, hfailed.2.1⟩
      rw [hp, Nat.succ_eq_add_one, Nat.add_sub_cancel]
      split
      · rename_i parent hpar
        have hpscope := scope_eq hpar
        split
        · rename_i hgoing
          right
          simp only [Bool.and_eq_true, Bool.not_eq_true'] at hgoing
          refine ⟨p, hchild, hfail, by rw [hpscope]; exact hgoing.1.1, ?_⟩
          refine scope_fail ?_ ?_
          · simp [modify, finishBody]
          · refine (scope_modify_same ?_ rfl).trans (scope_finishBody hpar .trapped)
            exact fun _ => rfl
        · rename_i hgone
          refine .inl ⟨rfl, fun {q} hq _ => ?_⟩
          obtain rfl : q = p := succ_injective (hq.symm.trans hchild)
          by_cases hterm : (t.scope q).status.terminal = true
          · exact .inl ⟨hterm, fun hcompl => hfail.2 (h.completed hchild hcompl)⟩
          -- a parent that goes on has no outcome, so this one joins its children
          · have hout : (t.scope q).outcome = .trapped ∨ (t.scope q).outcome = .exited := by
              rw [hpscope] at hterm ⊢
              change ¬parent.terminal = true at hterm
              change parent.outcome = .trapped ∨ parent.outcome = .exited
              by_contra hoth
              rw [not_or] at hoth
              exact hgone (by simp [hterm, hoth])
            have hjoin : (t.scope q).status = .joining := by
              by_contra hnot
              rw [(h.valid q).running (Bool.not_eq_true _ ▸ hterm) hnot] at hout
              exact hout.elim noConfusion noConfusion
            refine .inr ⟨hjoin, fun hcompl => ?_⟩
            rw [hcompl] at hout
            exact hout.elim noConfusion noConfusion
      · rename_i hpar
        have hlt := (h.lt hchild).trans (lt_of_child hchild)
        rw [getElem?_eq_getElem hlt] at hpar
        cases hpar
    · rename_i hnot
      refine .inl ⟨rfl, fun {p} hchild hfail => absurd ?_ hnot⟩
      unfold Child at hchild
      rw [hscope] at hchild hfail
      exact ⟨hfail.1, hfail.2, ne_of_gt (show 0 < task.scope.parent by omega)⟩
  · rename_i hi
    refine .inl ⟨rfl, fun {p} hchild _ => ?_⟩
    have hlt := lt_of_child hchild
    rw [getElem?_eq_getElem hlt] at hi
    cases hi

theorem settling_visit (h : Settling (i + 1) t.scope) :
    Settling i ((t.settleJoin i).settleParent i).scope ∧
      Kept t.scope ((t.settleJoin i).settleParent i).scope := by
  obtain ⟨hjoin, hjoins, hmoves⟩ := settling_settleJoin h
  rcases settleParent_cases hjoin.structured i with ⟨hsame, hfails⟩ |
    ⟨p, hchild, hfailed, hp, hfail⟩
  · rw [hsame]
    exact ⟨hjoin.pass hjoins hfails, kept_of_moves hmoves⟩
  · rw [hfail]
    have hbelow := hjoin.structured.below
    exact ⟨hjoin.fail hfailed hchild hp (selects_child hbelow)
      (selects_of_child hbelow) (selects_parent hbelow) (selects_self _ p),
      (kept_of_moves hmoves).trans (kept_of_moves (moves_failIn hp (.inr (.inl rfl))))⟩

theorem settling_settle (h : Structured t.scope) :
    Settling 0 t.settle.scope ∧ Kept t.scope t.settle.scope := by
  have hstart : Settling t.tasks.length t.scope := by
    refine ⟨h, fun i hi hjoin => ?_, fun c hc _ _ hfail => ?_⟩
    · rw [t.scope_absent hi] at hjoin
      cases hjoin
    · rw [Scope.Failed, t.scope_absent hc] at hfail
      cases hfail.1
  let P : ℕ → Session H → Prop := fun n s => Settling n s.scope ∧ Kept t.scope s.scope
  have hvisit : ∀ i s, P (i + 1) s → P i ((s.settleJoin i).settleParent i) :=
    fun i s hs => ⟨(settling_visit hs.1).1, hs.2.trans (settling_visit hs.1).2⟩
  exact sweep_induction hvisit ⟨hstart, Kept.refl _⟩

/-! ## Calls -/

/-- A settled tree, in which what has ended in another stays. -/
def Orderly (f : ℕ → Scope) (t : Session H) : Prop := Settling 0 t.scope ∧ Kept f t.scope

theorem Orderly.trans {f : ℕ → Scope} (h : Orderly f t) (h' : Orderly t.scope t') : Orderly f t' :=
  ⟨h'.1, h.2.trans h'.2⟩

theorem Orderly.of_eq (h : Settling 0 t.scope) (hscope : t'.scope = t.scope) :
    Orderly t.scope t' := by
  unfold Orderly
  rw [hscope]
  exact ⟨h, Kept.refl _⟩

theorem orderly_settle {f : ℕ → Scope} (h : Structured t.scope) (hkept : Kept f t.scope) :
    Orderly f t.settle :=
  ⟨(settling_settle h).1, hkept.trans (settling_settle h).2⟩

theorem orderly_live (h : Settling 0 t.scope) (hi : t.tasks[i]? = some task)
    (hlive : task.status = .ready ∨ task.status = .waiting) {status : TaskStatus}
    (hstat : status = .ready ∨ status = .waiting) :
    Orderly t.scope (t.modify i fun task => { task with status }) := by
  have hscope : (t.modify i fun task => { task with status }).scope =
      update t.scope i { t.scope i with status } := by
    rw [scope_modify hi rfl, scope_eq hi]
    rfl
  have hlive' : (t.scope i).Live := by
    rw [scope_eq hi]
    exact hlive
  unfold Orderly
  rw [hscope]
  refine ⟨h.live hlive' hstat, kept_of_moves fun j => ?_⟩
  by_cases hj : j = i
  · subst hj
    rw [update_self]
    exact .live hlive' hstat
  · rw [update_of_ne hj]
    exact .same

theorem orderly_fail (h : Structured t.scope) (hi : t.tasks[i]? = some task)
    (hterm : task.terminal = false) (hends : Scope.Ends out) :
    Orderly t.scope ((t.finishBody i out).cancelBelow (i + 1) false).settle :=
  orderly_settle (structured_fail h hi hterm hends).1 (structured_fail h hi hterm hends).2

theorem terminal_of_live (hlive : task.status = .ready ∨ task.status = .waiting) :
    task.terminal = false := by
  unfold Task.terminal
  rcases hlive with h | h
  · rw [h]
    rfl
  · rw [h]
    rfl

theorem orderly_deliver (hsnd : ∀ task ∈ t.tasks, task.Sound) (h : Settling 0 t.scope)
    (event : Completion) : Orderly t.scope (t.deliver event) := by
  rcases t.deliver_cases event with ⟨-, heq⟩ | ⟨i, task, haddr, heq⟩
  · rw [heq]
    exact .of_eq h rfl
  obtain ⟨-, hi, hpend, -⟩ := addressee_eq_some.mp haddr
  have hwait := ((hsnd task (mem_of_getElem? hi)).pending hpend).1
  have hans : (t.answer event i).scope = t.scope := by
    refine scope_modify_same ?_ rfl
    exact fun _ => rfl
  have hplace : (t.answer event i).tasks[i]? = some (task.answered event) := by
    simp [answer, hi]
  rw [heq, ← hans]
  rw [← hans] at h
  split
  · exact orderly_fail h.structured hplace (terminal_of_live (.inr hwait)) (.inr (.inl rfl))
  · exact orderly_live h hplace (.inr hwait) (.inl rfl)

theorem orderly_deliverCompletions (hbook : Booked t) (h : Settling 0 t.scope) (n : ℕ) :
    Orderly t.scope (t.deliverCompletions n) := by
  induction n generalizing t with
  | zero => exact .of_eq h rfl
  | succ n ih =>
    unfold deliverCompletions
    split
    · exact .of_eq h rfl
    rename_i event events hpop
    have hord := @orderly_deliver H { t with events } hbook.sound h event
    exact hord.trans (ih (hbook.deliver hpop) hord.1)

theorem structured_expire (h : Structured t.scope) (now : ℕ) :
    Structured (t.expire now).scope ∧ Kept t.scope (t.expire now).scope := by
  refine foldlRecOn _ _ (motive := fun s : Session H => Structured s.scope ∧ Kept t.scope s.scope)
    ⟨h, Kept.refl _⟩ fun s hs i _ => ?_
  split
  · split
    · have hcanc := structured_cancelBelow hs.1 (i + 1) true
      exact ⟨hcanc.1, hs.2.trans hcanc.2⟩
    · exact hs
  · exact hs

theorem orderly_runTask (S : Services H) (p : Program) (hbook : Booked t) (h : Settling 0 t.scope)
    (hi : t.tasks[i]? = some task) (hready : task.status = .ready) :
    Orderly t.scope (t.runTask S p i) := by
  obtain ⟨-, e, he, -⟩ := (hbook.sound_of_getElem? hi).ready hready
  obtain ⟨e', he'⟩ : ∃ e', e' = advance S.forTask p 1
    { e with host := { e.host with request := task.request, registered := t.registered } } :=
      ⟨_, rfl⟩
  have hadv : (t.advanced i e').scope = t.scope := by
    refine scope_modify_same ?_ rfl
    exact fun _ => rfl
  have hplace : (t.advanced i e').tasks[i]? = some (task.advanced e') := by
    simp [advanced, hi]
  have hopen : (task.advanced e').terminal = false := terminal_of_live (.inl hready)
  rcases t.runTask_cases S p hi he he' with ⟨-, heq⟩ | ⟨-, heq⟩ | ⟨-, heq⟩
  · rw [heq, ← hadv]
    exact orderly_live (hadv ▸ h) hplace (.inl hready) (.inr rfl)
  · rw [heq]
    exact .of_eq h hadv
  rw [heq, ← hadv]
  rw [← hadv] at h
  have hends : Scope.Ends (outcomeOf e'.status) := by
    cases e'.status <;> simp [outcomeOf, Scope.Ends]
  split
  · exact orderly_fail h.structured hplace hopen hends
  rename_i hcompl
  rw [not_not] at hcompl
  -- the children of a body that has completed go on
  have hscope : ((t.advanced i e').finishBody i (outcomeOf e'.status)).scope =
      failIn i .completed (fun _ => false) (t.advanced i e').scope := by
    rw [scope_finishBody hplace, hcompl]
    ext1 j
    by_cases hj : j = i
    · subst hj
      rw [failIn_self, update_self]
    · rw [failIn_of_ne hj, update_of_ne hj, cancelIn, if_neg (by simp)]
  have hterm : ((t.advanced i e').scope i).status.terminal = false := by
    rw [scope_eq hplace]
    exact hopen
  refine orderly_settle ?_ ?_
  · rw [hscope]
    exact h.structured.failIn hterm (.inl rfl) (fun _ hfalse => hfalse)
      (fun _ hnot => absurd rfl hnot) rfl
  · rw [hscope]
    exact kept_of_moves (moves_failIn hterm (.inl rfl))

theorem orderly_dispatchTasks (S : Services H) (p : Program) (hbook : Booked t)
    (h : Settling 0 t.scope) (budget : ℕ) : Orderly t.scope (dispatchTasks S p budget t) := by
  refine (dispatchTasks_induction (P := fun t' => Booked t' ∧ Orderly t.scope t') S p ?_ ?_
    budget ⟨hbook, .of_eq h rfl⟩).2
  · rintro t' cur ⟨h, hord⟩
    exact ⟨⟨h.sound, h.balance, h.issued, h.nodup, h.ledger⟩, hord⟩
  · rintro t' i task ⟨h, hord⟩ hi hstat
    exact ⟨h.runTask S p hi hstat, hord.trans (orderly_runTask S p h hord.1 hi hstat)⟩

theorem orderly_pump (S : Services H) (p : Program) (hbook : Booked t) (h : Settling 0 t.scope)
    (now budget : ℕ) : Orderly t.scope (t.pump S p now budget).2 := by
  unfold pump
  split
  · exact .of_eq h rfl
  have hnow : Booked { t with now } :=
    ⟨hbook.sound, hbook.balance, hbook.issued, hbook.nodup, hbook.ledger⟩
  have hdlv := orderly_deliverCompletions hnow h t.events.count
  have hexpired := structured_expire hdlv.1.structured now
  have hset := orderly_settle hexpired.1 (hdlv.2.trans hexpired.2)
  have hbooks := treeStable_booked.settle
    (treeStable_booked.expire now (hnow.deliverCompletions t.events.count))
  exact Orderly.trans hset (orderly_dispatchTasks S p hbooks hset.1 budget)

theorem orderly_spawn (h : Settling 0 t.scope) (parent : TaskId) (fn : Function)
    (args : List Value) (deadline : ℕ) : Orderly t.scope (t.spawn parent fn args deadline).2 := by
  rcases t.spawn_cases parent fn args deadline with heq | ⟨task, heq, -, -, hready, hout, hpar⟩
  · rw [heq]
    exact .of_eq h rfl
  have habs : t.scope t.tasks.length = .absent := t.scope_absent le_rfl
  have hscope : (t.spawn parent fn args deadline).2.scope =
      update t.scope t.tasks.length task.scope := by
    rw [heq]
    ext1 j
    by_cases hj : j = t.tasks.length
    · rw [hj, update_self]
      exact scope_eq (by simp)
    rw [update_of_ne hj]
    unfold scope
    rcases lt_or_gt_of_ne hj with hlt | hgt
    · rw [getElem?_append_left hlt]
    · rw [getElem?_eq_none (by simp; omega), getElem?_eq_none (by omega)]
  unfold Orderly
  rw [hscope]
  have hopen : task.scope.Open := Scope.open_of_live (.inl hready)
  have hchild : ∀ {j}, task.scope.parent = j + 1 → ∃ upper, t.tasks[j]? = some upper ∧
      (upper.status = .ready ∨ upper.status = .waiting) ∧ task.deadline ≤ upper.deadline := by
    intro j hj
    rcases hpar with hroot | ⟨k, upper, hk, hanc⟩
    · rw [show task.scope.parent = 0 from hroot] at hj
      cases hj
    · obtain rfl : k = j := succ_injective (hk.symm.trans hj)
      exact ⟨upper, hanc⟩
  refine ⟨h.update ?_ hopen ?_ ?_ ?_ ?_ ?_, ?_⟩
  · rw [habs]
    exact ⟨rfl, noConfusion⟩
  · exact ⟨fun hjoin => absurd hjoin hopen.2, fun _ _ => hout⟩
  · cases hp : task.scope.parent with
    | zero => exact zero_le _
    | succ j =>
      obtain ⟨upper, hanc, -⟩ := hchild hp
      exact (List.getElem?_eq_some_iff.mp hanc).1
  · intro j hj
    obtain ⟨upper, hanc, hlive, hdl⟩ := hchild hj
    have hopen' : (t.scope j).Open := by
      rw [scope_eq hanc]
      exact Scope.open_of_live hlive
    refine ⟨hopen'.not_completed, hopen'.not_doomed, ?_⟩
    rw [scope_eq hanc]
    exact hdl
  · intro c hc
    have hlt := h.structured.lt hc
    exact absurd (lt_of_child hc) (by omega)
  · intro j hj
    exact absurd (lt_of_child hj) (lt_irrefl _)
  · intro j hj
    have hne : j ≠ t.tasks.length := by
      rintro rfl
      rw [habs] at hj
      cases hj
    exact update_of_ne hne _ _

theorem orderly_complete (h : Settling 0 t.scope) (op : OperationId) (error : Option String)
    (res : Option Value) (read : Bool) : Orderly t.scope (t.complete op error res read).2 := by
  rcases t.complete_cases op error res read with heq | ⟨i, task, -, -, -, -, -, -, -, heq⟩
  · rw [heq]
    exact .of_eq h rfl
  · rw [heq]
    refine .of_eq h (scope_modify_same ?_ rfl)
    exact fun _ => rfl

theorem orderly_cancel (h : Settling 0 t.scope) (id : TaskId) :
    Orderly t.scope (t.cancel id).2 := by
  unfold cancel
  split
  · exact .of_eq h rfl
  rename_i i _
  have hcanc := structured_cancelBelow h.structured (i + 1) true
  exact orderly_settle hcanc.1 hcanc.2

theorem orderly_call (S : Services H) (p : Program) (hbook : Booked t) (h : Settling 0 t.scope)
    (call : TaskCall) : Orderly t.scope (t.call S p call) := by
  cases call with
  | spawn parent fn args deadline =>
    exact orderly_spawn h parent fn args deadline
  | pump now budget => exact orderly_pump S p hbook h now budget
  | complete op error => exact orderly_complete h op error none false
  | completeRead op res => exact orderly_complete h op none res true
  | cancel task => exact orderly_cancel h task

theorem orderly_run (S : Services H) (p : Program) (hbook : Booked t) (h : Settling 0 t.scope)
    (calls : List TaskCall) : Orderly t.scope (t.run S p calls) := by
  induction calls generalizing t with
  | nil => exact .of_eq h rfl
  | cons call calls ih =>
    have hcall := orderly_call S p hbook h call
    exact hcall.trans (ih (hbook.call S p call) hcall.1)

end Tree

theorem settling_createSession (template : H) (taskLimit eventLimit ident : ℕ) :
    Settling 0 (createSession template taskLimit eventLimit ident).scope := by
  have habs : ∀ i, (createSession template taskLimit eventLimit ident).scope i = .absent :=
    fun i => scope_absent (zero_le i)
  have hnochild :
      ∀ {i c}, ¬Child (createSession template taskLimit eventLimit ident).scope i c := by
    intro i c hchild
    exact absurd (lt_of_child hchild) (not_lt_zero c)
  refine ⟨⟨fun i => ?_, fun i => ?_, fun h => absurd h hnochild, fun h => absurd h hnochild,
    fun h => absurd h hnochild⟩, fun i _ hjoin => ?_, fun c _ _ h => absurd h hnochild⟩
  · rw [habs]
    exact ⟨fun h => noConfusion h, fun _ _ => rfl⟩
  · rw [habs]
    exact zero_le i
  · rw [habs] at hjoin
    cases hjoin

/-- After every call of every run of a session the tasks are structured: a completed task has
completed descendants only, a task with a child that has failed has failed itself, a task that joins
has a child that goes on, and no task has a later deadline than an ancestor.  And what has ended
stays so, however the run goes on. -/
theorem treeContract_run (S : Services H) (p : Program) (template : H)
    (taskLimit eventLimit identity : ℕ) (calls later : List TaskCall) :
    let t := (createSession template taskLimit eventLimit identity).run S p calls
    TreeContract t.scope ∧ ∀ i, (t.scope i).status.terminal = true →
        ((t.run S p later).scope i).status = (t.scope i).status := by
  intro t
  have hbook := (booked_createSession template taskLimit eventLimit identity).run S p calls
  have hset := (orderly_run S p (booked_createSession template taskLimit eventLimit identity)
    (settling_createSession template taskLimit eventLimit identity) calls).1
  refine ⟨hset.treeContract, fun i hi => ?_⟩
  rw [(orderly_run S p hbook hset later).2 i hi]

section Sessions

variable (S : Services H) (p : Program) (template : H) (taskLimit eventLimit identity : ℕ)

/-- After every call of every run a task goes on exactly when the body of a task at or below it has
not ended: no task outlives an ancestor, and no tasks are left that only wait for each other. -/
theorem terminal_eq_false_iff_open (calls : List TaskCall) (i : ℕ) :
    let t := (createSession template taskLimit eventLimit identity).run S p calls
    (t.scope i).status.terminal = false ↔
      ∃ c, Relation.ReflTransGen (Child t.scope) i c ∧ (t.scope c).Open := by
  intro t
  have hset : Settling 0 t.scope :=
    (orderly_run S p (booked_createSession ..) (settling_createSession ..) calls).1
  clear_value t
  constructor
  · -- a task that joins has a child that goes on, at a higher place
    induction hn : t.tasks.length - i using Nat.strong_induction_on generalizing i with
    | _ n ih =>
      intro hi
      by_cases hjoin : (t.scope i).status = .joining
      · obtain ⟨c, hchild, hc⟩ := hset.joins i (zero_le i) hjoin
        have hlt := hset.structured.lt hchild
        have hlen := lt_of_child hchild
        obtain ⟨d, hbelow, hopen⟩ := ih _ (by omega) c rfl hc
        exact ⟨d, .head hchild hbelow, hopen⟩
      · exact ⟨i, .refl, hi, hjoin⟩
  · rintro ⟨c, hbelow, hopen⟩
    induction hbelow using Relation.ReflTransGen.head_induction_on with
    | refl => exact hopen.1
    | head hchild _ ih =>
      refine Bool.eq_false_iff.mpr fun hend => ?_
      cases ih.symm.trans (hset.structured.terminal hchild hend)

/-- No accepted completion is lost, doubled or overtaken: those accepted are, in order, those taken
from the queue and those in it. -/
theorem accepted_eq_handled_append (calls : List TaskCall) :
    let t := (createSession template taskLimit eventLimit identity).run S p calls
    t.accepted.reverse = t.handled.reverse.map Prod.fst ++
      t.events.toList.map Completion.operation :=
  ((booked_createSession ..).run S p calls).ledger

end Sessions

end Panackelty.Vm
