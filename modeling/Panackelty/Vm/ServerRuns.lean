import Panackelty.Vm.ServerAccounts

/-!
# Calls are runs of steps

What every step of a server keeps is kept by `poll`, `advance` and `stop`: between two looks at the
clock each of them takes one step, and it takes the next one only while the server is not done.

* `StepClosed`: kept by every step.
* `StepClosed.poll`, `StepClosed.advance`, `StepClosed.stop`: kept by the calls.
-/

namespace Panackelty.Vm

open Server

variable {B : Type} {O : Os B} {S : Services B} {p : Program} {P : Server B →
    Prop} {s s' : Server B}

/-- Every step keeps the property. -/
def StepClosed (O : Os B) (S : Services B) (p : Program) (P : Server B → Prop) : Prop :=
  ∀ s step, s.done = false ∨ ServerStep.passive step = true → P s → P (s.apply O S p step)

namespace StepClosed

variable (hP : StepClosed O S p P)

include hP

theorem act (hs : P s) (hdone : s.done = false) (step : ServerStep B) : P (s.apply O S p step) :=
  hP s step (.inl hdone) hs

theorem cursors (hs : P s) (nextIo nextHandler : ℕ) : P { s with nextIo, nextHandler } :=
  hP s (.cursors nextIo nextHandler) (.inr rfl) hs

theorem deadlines (hs : P s) : P (s.deadlines O).2 := by
  cases hdone : s.done with
  | false => exact hP.act hs hdone .deadlines
  | true =>
    have hsame : (s.deadlines O).2 = s := by simp [Server.deadlines, hdone]
    rw [hsame]
    exact hs

theorem looked (hs : P s) {now : ℕ} (hlook : s.deadlines O = (some now, s')) :
    P s' ∧ s'.done = false := by
  have hmoves := (@moves_deadlines B s O).2
  have hkept := hP.deadlines hs
  rw [hlook] at hmoves hkept
  exact ⟨hkept, hmoves rfl⟩

theorem expired (hs : P s) (hlook : s.deadlines O = (none, s')) : P s' := by
  have hkept := hP.deadlines hs
  rwa [hlook] at hkept

theorem stop (hs : P s) : P (s.stop O) := by
  unfold Server.stop
  split
  · rename_i hlook
    exact hP.expired hs hlook
  · rename_i now s₁ hlook
    obtain ⟨hs₁, hdone⟩ := hP.looked hs hlook
    exact hP.deadlines (hP.act hs₁ hdone (.stopAt now))

/-! ## Polling -/

theorem fillTable (order : List ℕ) (table : Server.PollTable) (hs : P s) (hdone : s.done = false) :
    P (fillTable O S p order table s).2 ∧ (fillTable O S p order table s).2.done = false := by
  induction order generalizing s table with
  | nil => exact ⟨hs, hdone⟩
  | cons i order ih =>
    have hsurvey := congrArg Account.done (@account_survey B s i O S p)
    exact ih _ (hP.act hs hdone (.survey i)) (hsurvey.trans hdone)

theorem serveAll (ready : List (PollEntry × Revents)) (hs : P s) : P (serveAll O ready s) := by
  induction ready generalizing s with
  | nil => exact hP.deadlines (hP.cursors hs _ s.nextHandler)
  | cons entry ready ih =>
    obtain ⟨entry, revents⟩ := entry
    unfold serveAll
    split
    · exact hP.deadlines (hP.cursors hs _ s.nextHandler)
    split
    · rename_i hlook
      exact hP.expired hs hlook
    · rename_i now s₁ hlook
      obtain ⟨hs₁, hdone⟩ := hP.looked hs hlook
      exact ih (hP.act hs₁ hdone (.serve now entry revents))

theorem poll (maxWaitMs : ℕ) (hs : P s) : P (s.poll O S p maxWaitMs) := by
  unfold Server.poll
  split
  · rename_i hlook
    exact hP.expired hs hlook
  rename_i now s₁ hlook
  obtain ⟨hs₁, hdone⟩ := hP.looked hs hlook
  split
  · refine hP.deadlines ?_
    have hready := hP.act hs₁ hdone .pollReady
    split
    · exact hready
    · exact hP _ (.others _ _) (.inr rfl) hready
  · obtain ⟨hfill, hfillDone⟩ := hP.fillTable s₁.pollOrder (s₁.emptyTable maxWaitMs) hs₁ hdone
    simp only
    generalize Server.fillTable O S p s₁.pollOrder (s₁.emptyTable maxWaitMs) s₁ = filled
      at hfill hfillDone ⊢
    have hawait := hP.act hfill hfillDone
      (.await filled.1.entries (min filled.1.wait (filled.1.expiry - now)))
    change P (filled.2.await O filled.1.entries (min filled.1.wait (filled.1.expiry - now))).2
      at hawait
    split
    · rename_i hres
      rwa [hres] at hawait
    rename_i revents s₂ hres
    rw [hres] at hawait
    split
    · rename_i hlook'
      exact hP.expired hawait hlook'
    rename_i hlook'
    obtain ⟨hs₃, -⟩ := hP.looked hawait hlook'
    split
    · exact hs₃
    · exact hP.serveAll _ hs₃

/-! ## Advancing -/

theorem turn (hs : P s) (hdone : s.done = false) : P (s.turn O S p).2 := by
  have hcur := hP.cursors hs s.nextIo ((s.nextHandler + 1) % s.limits.concurrency)
  unfold Server.turn
  simp only
  have hstart := hP.act hcur hdone (.startHandler s.nextHandler)
  change P (if stateOf _ s.nextHandler = .start then _ else _) at hstart
  generalize (if stateOf _ s.nextHandler = .start then _ else _) = s₁ at hstart ⊢
  split
  · exact hstart
  rename_i hgoing
  rw [Bool.not_eq_true] at hgoing
  split
  · exact hstart
  rename_i hrun
  have hhdl := hP.act hstart hgoing (.runHandler s.nextHandler)
  change P (if s₁.stateOf s.nextHandler = .run then _ else _) at hhdl
  rw [if_pos (not_not.mp hrun)] at hhdl
  split
  · rename_i hlook
    exact hP.expired hhdl hlook
  · rename_i hlook
    obtain ⟨hs₂, hdone₂⟩ := hP.looked hhdl hlook
    exact hP.act hs₂ hdone₂ (.settleHandler s.nextHandler)

theorem scan {again : ℕ → Server B → Server B} (hagain : ∀ idle s, P s → P (again idle s))
    (idle : ℕ) (hs : P s) : P (Server.scan O S p again idle s) := by
  induction idle generalizing s with
  | zero => exact hP.deadlines hs
  | succ idle ih =>
    unfold Server.scan
    split
    · rename_i hlook
      exact hP.expired hs hlook
    rename_i hlook
    obtain ⟨hs₁, hdone⟩ := hP.looked hs hlook
    have hturn := hP.turn hs₁ hdone
    split
    · rename_i hres
      rw [hres] at hturn
      exact ih hturn
    · rename_i hres
      rw [hres] at hturn
      exact hagain _ _ hturn
    · rename_i hres
      rwa [hres] at hturn

theorem advanceLoop (budget idle : ℕ) (hs : P s) : P (advanceLoop O S p budget idle s) := by
  induction budget generalizing idle s with
  | zero => exact hs
  | succ budget ih => exact hP.scan (fun idle s hs => ih idle hs) idle hs

theorem advance (budget : ℕ) (hs : P s) : P (s.advance O S p budget) := by
  unfold Server.advance
  split
  · rename_i hlook
    exact hP.expired hs hlook
  rename_i hlook
  obtain ⟨hs₁, hdone⟩ := hP.looked hs hlook
  split
  · split
    · exact hs₁
    · exact hP.act hs₁ hdone (.advanceReady budget)
  · exact hP.advanceLoop budget _ hs₁

end StepClosed

theorem stepClosed_reachable : StepClosed O S p (serverMachine O S p).Reachable :=
  fun _ _ hallowed hs => .step hs ⟨hallowed, rfl⟩

end Panackelty.Vm
