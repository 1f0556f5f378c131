import Mathlib.Logic.Relation
import Panackelty.Vm.Tasks

/-!
# Trees of scopes

Tasks are scopes: a scope ends after the scopes in it, a scope that fails takes the scopes in it
along, and a scope in which one fails does not complete.  A tree is a function from places to
scopes, and it goes on by moves of its scopes.

* `Scope`, `Scope.Moves`: a scope, and how it may go on.
* `Structured`: what holds at all times; `Settling`: what one pass from the leaves up has
  established.
* `TreeContract`: what holds after the pass.
-/

open Function (update update_self update_of_ne)

namespace Panackelty.Vm

open TaskStatus

/-! ## Scopes -/

/-- A task, as far as the tree goes. -/
structure Scope where
  /-- The place of the parent, counted from one; zero is no parent. -/
  parent : ℕ
  deadline : ℕ
  status : TaskStatus
  outcome : TaskStatus

namespace Scope

/-- A task that has ended without success. -/
def Failed (s : Scope) : Prop := s.status.terminal = true ∧ s.status ≠ .completed

/-- It has failed, or will when its children are joined. -/
def Doomed (s : Scope) : Prop := s.Failed ∨ (s.status = .joining ∧ s.outcome ≠ .completed)

/-- A task that can still run. -/
def Live (s : Scope) : Prop := s.status = .ready ∨ s.status = .waiting

/-- The outcomes of a body that has ended by itself. -/
def Ends (outcome : TaskStatus) : Prop :=
  outcome = .completed ∨ outcome = .trapped ∨ outcome = .exited

/-- The outcome of a task fits its status. -/
structure Valid (s : Scope) : Prop where
  joining : s.status = .joining → Ends s.outcome
  running : s.status.terminal = false → s.status ≠ .joining → s.outcome = .invalid

/-- A task is cancelled. -/
def cancel (s : Scope) : Scope := { s with status := .cancelled, outcome := .cancelled }

/-- The body of a task has ended. -/
def finish (s : Scope) (outcome : TaskStatus) : Scope := { s with status := .joining, outcome }

/-- How a scope goes on. -/
inductive Moves (s : Scope) : Scope → Prop where
  | same : Moves s s
  | live {status : TaskStatus} (h : s.Live) (h' : status = .ready ∨ status = .waiting) :
      Moves s { s with status }
  | finish {outcome : TaskStatus} (h : s.status.terminal = false) (h' : Ends outcome) :
      Moves s (s.finish outcome)
  | cancel (h : s.status.terminal = false) : Moves s s.cancel
  | conclude (h : s.status = .joining) : Moves s { s with status := s.outcome }

variable {s s' : Scope}

theorem Moves.parent (h : Moves s s') : s'.parent = s.parent := by cases h <;> rfl

theorem Moves.deadline (h : Moves s s') : s'.deadline = s.deadline := by cases h <;> rfl

theorem Moves.eq_of_terminal (h : Moves s s') (hs : s.status.terminal) : s' = s := by
  cases h with
  | same => rfl
  | live h =>
    rcases h with h | h
    · rw [h] at hs
      cases hs
    · rw [h] at hs
      cases hs
  | finish h | cancel h | conclude h =>
    rw [h] at hs
    cases hs

theorem ends_terminal {outcome : TaskStatus} (h : Ends outcome) : outcome.terminal = true := by
  rcases h with rfl | rfl | rfl <;> rfl

theorem Valid.live_outcome (h : s.Valid) (hs : s.Live) : s.outcome = .invalid := by
  rcases hs with hs | hs
  · exact h.running (by rw [hs]; rfl) (by rw [hs]; exact noConfusion)
  · exact h.running (by rw [hs]; rfl) (by rw [hs]; exact noConfusion)

theorem Valid.moves (h : s.Valid) (hmoves : Moves s s') : s'.Valid := by
  cases hmoves with
  | same => exact h
  | live hlive hstat =>
    refine ⟨fun hjoin => ?_, fun _ _ => h.live_outcome hlive⟩
    rcases hstat with rfl | rfl
    · cases hjoin
    · cases hjoin
  | finish _ hends => exact ⟨fun _ => hends, fun _ hnot => absurd rfl hnot⟩
  | cancel _ => exact ⟨fun hjoin => noConfusion hjoin,
      fun hterm => Bool.noConfusion hterm⟩
  | conclude hjoin =>
    have hterm := ends_terminal (h.joining hjoin)
    refine ⟨fun hout => ?_, fun hnot => ?_⟩
    · rw [show s.outcome = .joining from hout] at hterm
      cases hterm
    · rw [show s.outcome.terminal = false from hnot] at hterm
      cases hterm

theorem doomed_finish {outcome : TaskStatus} : (s.finish outcome).Doomed ↔ outcome ≠ .completed :=
  ⟨fun h => h.elim (fun hfail => Bool.noConfusion hfail.1) And.right, fun h => .inr ⟨rfl, h⟩⟩

theorem doomed_cancel : s.cancel.Doomed := .inl ⟨rfl, noConfusion⟩

theorem failed_of_doomed (h : s.Doomed) (hs : s.status ≠ .joining) : s.Failed :=
  h.resolve_right fun hjoin => hs hjoin.1

/-- Neither at its end nor joining: a scope that runs, or a place without one. -/
def Open (s : Scope) : Prop := s.status.terminal = false ∧ s.status ≠ .joining

theorem open_of_live (h : s.Live) : s.Open := by
  unfold Open
  rcases h with h | h
  · rw [h]
    exact ⟨rfl, noConfusion⟩
  · rw [h]
    exact ⟨rfl, noConfusion⟩

theorem Open.not_completed (h : s.Open) : s.status ≠ .completed := by
  intro hcompl
  rw [Open, hcompl] at h
  cases h.1

theorem Open.not_doomed (h : s.Open) : ¬s.Doomed := by
  rintro (hfail | hjoin)
  · rw [Open, hfail.1] at h
    cases h.1
  · exact h.2 hjoin.1

end Scope

/-! ## Trees -/

section Trees

variable {f g : ℕ → Scope}

/-- The second place is a child of the first. -/
def Child (f : ℕ → Scope) (i c : ℕ) : Prop := (f c).parent = i + 1

/-- What holds of the tree at all times. -/
structure Structured (f : ℕ → Scope) : Prop where
  valid : ∀ i, (f i).Valid
  below : ∀ i, (f i).parent ≤ i
  completed : ∀ {i c}, Child f i c → (f i).status = .completed → (f c).status = .completed
  doomed : ∀ {i c}, Child f i c → (f i).Doomed → (f c).status.terminal = true
  deadline : ∀ {i c}, Child f i c → (f c).deadline ≤ (f i).deadline

theorem Structured.lt (h : Structured f) {i c : ℕ} (hchild : Child f i c) : i < c := by
  have hbelow := h.below c
  unfold Child at hchild
  omega

theorem Structured.terminal (h : Structured f) {i c : ℕ} (hchild : Child f i c)
    (hi : (f i).status.terminal) : (f c).status.terminal = true := by
  by_cases hcompl : (f i).status = .completed
  · rw [h.completed hchild hcompl]
    rfl
  · exact h.doomed hchild (.inl ⟨hi, hcompl⟩)

/-- A move of many scopes: only what has changed is to be seen to. -/
theorem Structured.moves (h : Structured f) (hmoves : ∀ i, (f i).Moves (g i))
    (hcompl : ∀ {i c}, Child f i c → (f i).status ≠ .completed → (g i).status = .completed →
      (g c).status = .completed) (hdoom : ∀ {i c}, Child f i c → ¬(f i).Doomed → (g i).Doomed →
      (g c).status.terminal = true) : Structured g := by
  have hchild : ∀ {i c}, Child g i c → Child f i c := fun hchild => by
    unfold Child at hchild ⊢
    rw [← hchild, (hmoves _).parent]
  refine ⟨fun i => (h.valid i).moves (hmoves i), fun i => ?_, fun {i c} hg hi => ?_,
    fun {i c} hg hi => ?_, fun {i c} hg => ?_⟩
  · rw [(hmoves i).parent]
    exact h.below i
  · by_cases hold : (f i).status = .completed
    · have hc := h.completed (hchild hg) hold
      rw [(hmoves c).eq_of_terminal (by rw [hc]; rfl), hc]
    · exact hcompl (hchild hg) hold hi
  · by_cases hold : (f i).Doomed
    · have hc := h.doomed (hchild hg) hold
      rw [(hmoves c).eq_of_terminal hc]
      exact hc
    · exact hdoom (hchild hg) hold hi
  · rw [(hmoves c).deadline, (hmoves i).deadline]
    exact h.deadline (hchild hg)

/-- What `settle` has established when it has visited the places from one on. -/
structure Settling (n : ℕ) (f : ℕ → Scope) : Prop where
  structured : Structured f
  joins : ∀ i ≥ n, (f i).status = .joining → ∃ c, Child f i c ∧ (f c).status.terminal = false
  fails : ∀ c ≥ n, ∀ {i}, Child f i c → (f c).Failed → (f i).Doomed

/-- What holds of the tree after every call. -/
structure TreeContract (f : ℕ → Scope) : Prop where
  completed : ∀ {i c}, Relation.TransGen (Child f) i c → (f i).status = .completed →
    (f c).status = .completed
  failed : ∀ {i c}, Child f i c → (f c).Failed → (f i).Failed
  joining : ∀ {i}, (f i).status = .joining → ∃ c, Child f i c ∧ (f c).status.terminal = false
  deadline : ∀ {i c}, Relation.TransGen (Child f) i c → (f c).deadline ≤ (f i).deadline

theorem Settling.treeContract (h : Settling 0 f) : TreeContract f where
  completed {i c} hdesc hi := by
    induction hdesc with
    | single hchild => exact h.structured.completed hchild hi
    | tail _ hchild ih => exact h.structured.completed hchild ih
  failed {i c} hchild hc := by
    have hdoom := h.fails c (Nat.zero_le c) hchild hc
    refine Scope.failed_of_doomed hdoom fun hjoin => ?_
    -- all children of a scope that is to fail have ended, and one that joins has a child that has
    -- not
    obtain ⟨c', hchild', hc'⟩ := h.joins i (Nat.zero_le i) hjoin
    rw [h.structured.doomed hchild' hdoom] at hc'
    cases hc'
  joining {i} hi := h.joins i (Nat.zero_le i) hi
  deadline {i c} hdesc := by
    induction hdesc with
    | single hchild => exact h.structured.deadline hchild
    | tail _ hchild ih => exact (h.structured.deadline hchild).trans ih

/-! ## Moves of the tree -/

/-- Selected scopes are cancelled, unless they have ended. -/
def cancelIn (selected : ℕ → Bool) (f : ℕ → Scope) (i : ℕ) : Scope :=
  if selected i = true ∧ (f i).status.terminal = false then (f i).cancel else f i

/-- A scope ends, and selected ones are cancelled. -/
def failIn (r : ℕ) (outcome : TaskStatus) (selected : ℕ → Bool) (f : ℕ → Scope) : ℕ → Scope :=
  update (cancelIn selected f) r ((f r).finish outcome)

theorem moves_cancelIn (selected : ℕ → Bool) (f : ℕ → Scope) (i : ℕ) :
    (f i).Moves (cancelIn selected f i) := by
  unfold cancelIn
  split
  · rename_i h
    exact .cancel h.2
  · exact .same

theorem cancelIn_terminal {selected : ℕ → Bool} {i : ℕ} (h : selected i) :
    (cancelIn selected f i).status.terminal = true := by
  unfold cancelIn
  split
  · rfl
  rename_i hnot
  rw [not_and, Bool.not_eq_false] at hnot
  exact hnot h

/-- A selected scope that has not completed has failed in the end. -/
theorem cancelIn_cases (selected : ℕ → Bool) (f : ℕ → Scope) (i : ℕ) : cancelIn selected f i = f i ∨
      (selected i = true ∧ (f i).status.terminal = false ∧
        cancelIn selected f i = (f i).cancel) := by
  unfold cancelIn
  split
  · rename_i h
    exact .inr ⟨h.1, h.2, rfl⟩
  · exact .inl rfl

theorem failIn_self (r : ℕ) (outcome : TaskStatus) (selected : ℕ → Bool) (f : ℕ → Scope) :
    failIn r outcome selected f r = (f r).finish outcome :=
  update_self _ _ _

theorem failIn_of_ne {r i : ℕ} (h : i ≠ r) (outcome : TaskStatus) (selected : ℕ → Bool)
    (f : ℕ → Scope) : failIn r outcome selected f i = cancelIn selected f i :=
  update_of_ne h _ _

theorem Structured.cancelIn (h : Structured f) {selected : ℕ → Bool}
    (hclo : ∀ {i c}, Child f i c → selected i = true → selected c = true) :
    Structured (cancelIn selected f) := by
  refine h.moves (moves_cancelIn selected f) ?_ ?_
  · intro i c _ hold hnew
    rcases cancelIn_cases selected f i with heq | ⟨-, -, heq⟩
    · exact absurd (heq ▸ hnew) hold
    · rw [heq] at hnew
      cases hnew
  · intro i c hchild hold hnew
    rcases cancelIn_cases selected f i with heq | ⟨hsel, -, -⟩
    · exact absurd (heq ▸ hnew) hold
    · exact cancelIn_terminal (hclo hchild hsel)

section Fail

variable {r : ℕ} {outcome : TaskStatus} {selected : ℕ → Bool}

theorem moves_failIn (hr : (f r).status.terminal = false) (hends : Scope.Ends outcome) (i : ℕ) :
    (f i).Moves (failIn r outcome selected f i) := by
  by_cases hi : i = r
  · subst hi
    rw [failIn_self]
    exact .finish hr hends
  · rw [failIn_of_ne hi]
    exact moves_cancelIn selected f i

theorem Structured.failIn (h : Structured f) (hr : (f r).status.terminal = false)
    (hends : Scope.Ends outcome)
    (hclo : ∀ {i c}, Child f i c → selected i = true → selected c = true)
    (hbelow : ∀ {c}, Child f r c → outcome ≠ .completed → selected c = true)
    (hself : selected r = false) : Structured (failIn r outcome selected f) := by
  refine h.moves (moves_failIn hr hends) ?_ ?_
  · intro i c _ hold hnew
    by_cases hi : i = r
    · subst hi
      rw [failIn_self] at hnew
      cases hnew
    rw [failIn_of_ne hi] at hnew
    rcases cancelIn_cases selected f i with heq | ⟨-, -, heq⟩
    · exact absurd (heq ▸ hnew) hold
    · rw [heq] at hnew
      cases hnew
  · intro i c hchild hold hnew
    have hsel : selected c := by
      by_cases hi : i = r
      · subst hi
        rw [failIn_self, Scope.doomed_finish] at hnew
        exact hbelow hchild hnew
      · rw [failIn_of_ne hi] at hnew
        rcases cancelIn_cases selected f i with heq | ⟨hsel, -, -⟩
        · exact absurd (heq ▸ hnew) hold
        · exact hclo hchild hsel
    have hc : c ≠ r := by
      rintro rfl
      cases hself.symm.trans hsel
    rw [failIn_of_ne hc]
    exact cancelIn_terminal hsel

end Fail

/-! ## Settling -/

theorem Settling.join {i : ℕ} (h : Settling (i + 1) f) (hi : (f i).status = .joining)
    (hjoined : ∀ c, Child f i c → (f c).status.terminal = true) :
    Settling (i + 1) (update f i { f i with status := (f i).outcome }) := by
  have hne : ∀ {j}, j ≠ i → update f i { f i with status := (f i).outcome } j = f j :=
    fun hj => update_of_ne hj _ _
  have hself : update f i { f i with status := (f i).outcome } i =
      { f i with status := (f i).outcome } := update_self _ _ _
  generalize update f i { f i with status := (f i).outcome } = g at hne hself
  have hmoves : ∀ j, (f j).Moves (g j) := by
    intro j
    by_cases hj : j = i
    · subst hj
      rw [hself]
      exact .conclude hi
    · rw [hne hj]
      exact .same
  have hchild : ∀ {j c}, Child g j c ↔ Child f j c := fun {j c} => by
    unfold Child
    rw [(hmoves c).parent]
  have hterm := Scope.ends_terminal ((h.structured.valid i).joining hi)
  refine ⟨h.structured.moves hmoves ?_ ?_, ?_, ?_⟩
  · intro j c hc hold hnew
    have hj : j = i := by
      by_contra hj
      exact hold (hne hj ▸ hnew)
    subst hj
    have hlt := h.structured.lt hc
    rw [hself] at hnew
    rw [hne hlt.ne']
    -- no child has failed, or the outcome would be another one
    by_contra hfail
    rcases h.fails c hlt hc ⟨hjoined c hc, hfail⟩ with hdoom | ⟨-, hdoom⟩
    · rw [Scope.Failed, hi] at hdoom
      cases hdoom.1
    · exact hdoom hnew
  · intro j c hc hold hnew
    have hj : j = i := by
      by_contra hj
      exact hold (hne hj ▸ hnew)
    subst hj
    rw [hne (h.structured.lt hc).ne']
    exact hjoined c hc
  · intro j hj hjoin
    rw [hne (by omega)] at hjoin
    obtain ⟨c, hc, hopen⟩ := h.joins j hj hjoin
    have hlt := h.structured.lt hc
    exact ⟨c, hchild.mpr hc, by rw [hne (by omega)]; exact hopen⟩
  · intro c hc j hj hfail
    rw [hne (by omega)] at hfail
    have hdoom := h.fails c hc (hchild.mp hj) hfail
    by_cases hji : j = i
    · subst hji
      rw [hself]
      refine .inl ⟨hterm, ?_⟩
      rcases hdoom with hdoom | ⟨-, hdoom⟩
      · rw [Scope.Failed, hi] at hdoom
        cases hdoom.1
      · exact hdoom
    · rw [hne hji]
      exact hdoom

theorem Settling.pass {i : ℕ} (h : Settling (i + 1) f)
    (hjoins : (f i).status = .joining → ∃ c, Child f i c ∧ (f c).status.terminal = false)
    (hfails : ∀ {p}, Child f p i → (f i).Failed → (f p).Doomed) : Settling i f where
  structured := h.structured
  joins j hj hjoin := by
    rcases Nat.eq_or_lt_of_le hj with rfl | hlt
    · exact hjoins hjoin
    · exact h.joins j hlt hjoin
  fails c hc {j} hchild hfail := by
    rcases Nat.eq_or_lt_of_le hc with rfl | hlt
    · exact hfails hchild hfail
    · exact h.fails c hlt hchild hfail

/-- A visit in which the parent of a failed scope fails, with all that is below it. -/
theorem Settling.fail {i p : ℕ} (h : Settling (i + 1) f) (hi : (f i).Failed) (hpar : Child f p i)
    (hp : (f p).status.terminal = false) {selected : ℕ → Bool}
    (hclo : ∀ {j c}, Child f j c → selected j = true → selected c = true)
    (hbelow : ∀ {c}, Child f p c → selected c = true)
    (habove : ∀ {j c}, Child f j c → selected c = true → j = p ∨ selected j = true)
    (hself : selected p = false) : Settling i (failIn p .trapped selected f) := by
  have hends : Scope.Ends .trapped := .inr (.inl rfl)
  have hmoves := @moves_failIn f p _ selected hp hends
  have hpi := h.structured.lt hpar
  have hne := fun {j} (hj : j ≠ p) => failIn_of_ne hj .trapped selected f
  have hdoom : (failIn p .trapped selected f p).Doomed := by
    rw [failIn_self, Scope.doomed_finish]
    exact noConfusion
  have hchild : ∀ {j c}, Child (failIn p .trapped selected f) j c ↔ Child f j c := fun {j c} => by
    unfold Child
    rw [(hmoves c).parent]
  refine ⟨h.structured.failIn hp hends hclo (fun hc _ => hbelow hc) hself, ?_, ?_⟩
  · intro j hj hjoin
    rw [hne (by omega)] at hjoin
    rcases cancelIn_cases selected f j with heq | ⟨-, -, heq⟩
    · rw [heq] at hjoin
      have hji : j ≠ i := by
        rintro rfl
        rw [Scope.Failed, hjoin] at hi
        cases hi.1
      obtain ⟨c, hc, hopen⟩ := h.joins j (by omega) hjoin
      have hlt := h.structured.lt hc
      refine ⟨c, hchild.mpr hc, ?_⟩
      rw [hne (by omega)]
      -- a child is not cancelled without its parent
      rcases cancelIn_cases selected f c with hsame | ⟨hsel, -, -⟩
      · rw [hsame]
        exact hopen
      rcases habove hc hsel with hjp | hjselected
      · omega
      have hterm := @cancelIn_terminal f selected j hjselected
      rw [heq, hjoin] at hterm
      cases hterm
    · rw [heq] at hjoin
      cases hjoin
  · intro c hc j hj hfail
    have hj := hchild.mp hj
    by_cases hjp : j = p
    · rw [hjp]
      exact hdoom
    rw [hne hjp]
    rw [hne (by omega)] at hfail
    rcases cancelIn_cases selected f c with heq | ⟨hsel, hopen, -⟩
    · rw [heq] at hfail
      have hci : c ≠ i := by
        rintro rfl
        exact hjp (Nat.succ_injective (hj.symm.trans hpar))
      have hold := h.fails c (by omega) hj hfail
      rcases cancelIn_cases selected f j with hsame | ⟨-, -, hcanc⟩
      · rw [hsame]
        exact hold
      · rw [hcanc]
        exact Scope.doomed_cancel
    · have hjselected := (habove hj hsel).resolve_left hjp
      rcases cancelIn_cases selected f j with hsame | ⟨-, -, hcanc⟩
      · have hterm := @cancelIn_terminal f selected j hjselected
        rw [hsame] at hterm
        rw [h.structured.terminal hj hterm] at hopen
        cases hopen
      · rw [hcanc]
        exact Scope.doomed_cancel

/-- A scope that goes on, or one that is new, changes nothing for the others. -/
theorem Settling.update {n i : ℕ} (h : Settling n f) {s : Scope} (hold : (f i).Open) (hnew : s.Open)
    (hvalid : s.Valid) (hbelow : s.parent ≤ i) (hpar : ∀ {j}, s.parent = j + 1 →
      (f j).status ≠ .completed ∧ ¬(f j).Doomed ∧ s.deadline ≤ (f j).deadline)
    (hchildren : ∀ {c}, Child f i c → (f c).deadline ≤ s.deadline)
    (hkeeps : ∀ {j}, Child f j i → s.parent = j + 1) : Settling n (Function.update f i s) := by
  have hne : ∀ {j}, j ≠ i → Function.update f i s j = f j := fun hj => update_of_ne hj _ _
  have hself : Function.update f i s i = s := update_self _ _ _
  generalize Function.update f i s = g at hne hself
  have hlt : ∀ {j}, s.parent = j + 1 → j ≠ i := fun hj hji => by omega
  -- a scope of which something is said that is not said of an open one is not the new one
  have hnot : ∀ {j}, (g j).status = .completed ∨ (g j).Doomed → j ≠ i := by
    rintro j hj rfl
    rw [hself] at hj
    exact hj.elim hnew.not_completed hnew.not_doomed
  refine ⟨⟨?_, ?_, ?_, ?_, ?_⟩, ?_, ?_⟩
  · intro j
    by_cases hj : j = i
    · rw [hj, hself]
      exact hvalid
    · rw [hne hj]
      exact h.structured.valid j
  · intro j
    by_cases hj : j = i
    · rw [hj, hself]
      exact hbelow
    · rw [hne hj]
      exact h.structured.below j
  · intro j c hchild hcompl
    have hj := hnot (.inl hcompl)
    rw [hne hj] at hcompl
    unfold Child at hchild
    by_cases hc : c = i
    · rw [hc, hself] at hchild
      exact absurd hcompl (hpar hchild).1
    · rw [hne hc] at hchild ⊢
      exact h.structured.completed hchild hcompl
  · intro j c hchild hdoom
    have hj := hnot (.inr hdoom)
    rw [hne hj] at hdoom
    unfold Child at hchild
    by_cases hc : c = i
    · rw [hc, hself] at hchild
      exact absurd hdoom (hpar hchild).2.1
    · rw [hne hc] at hchild ⊢
      exact h.structured.doomed hchild hdoom
  · intro j c hchild
    unfold Child at hchild
    by_cases hc : c = i
    · rw [hc, hself] at hchild ⊢
      rw [hne (hlt hchild)]
      exact (hpar hchild).2.2
    rw [hne hc] at hchild ⊢
    by_cases hj : j = i
    · rw [hj, hself]
      exact hchildren (hj ▸ hchild)
    · rw [hne hj]
      exact h.structured.deadline hchild
  · intro j hj hjoin
    have hji : j ≠ i := by
      rintro rfl
      rw [hself] at hjoin
      exact hnew.2 hjoin
    rw [hne hji] at hjoin
    obtain ⟨c, hchild, hc⟩ := h.joins j hj hjoin
    refine ⟨c, ?_, ?_⟩
    · unfold Child
      by_cases hci : c = i
      · subst hci
        rw [hself]
        exact hkeeps hchild
      · rw [hne hci]
        exact hchild
    · by_cases hci : c = i
      · rw [hci, hself]
        exact hnew.1
      · rw [hne hci]
        exact hc
  · intro c hc j hchild hfail
    have hci : c ≠ i := hnot (.inr (.inl hfail))
    unfold Child at hchild
    rw [hne hci] at hchild hfail
    have hdoom := h.fails c hc hchild hfail
    have hji : j ≠ i := by
      rintro rfl
      exact hold.not_doomed hdoom
    rw [hne hji]
    exact hdoom

theorem Settling.live {n i : ℕ} (h : Settling n f) (hi : (f i).Live) {status : TaskStatus}
    (hstat : status = .ready ∨ status = .waiting) :
    Settling n (Function.update f i { f i with status }) := by
  have hopen := Scope.open_of_live hi
  refine h.update hopen (Scope.open_of_live hstat)
    ((h.structured.valid i).moves (.live hi hstat)) (h.structured.below i) ?_ ?_ id
  · intro j hj
    refine ⟨fun hcompl => ?_, fun hdoom => ?_, h.structured.deadline hj⟩
    · exact hopen.not_completed (h.structured.completed hj hcompl)
    · rw [Scope.Open, h.structured.doomed hj hdoom] at hopen
      cases hopen.1
  · exact fun hc => h.structured.deadline hc

end Trees

end Panackelty.Vm
