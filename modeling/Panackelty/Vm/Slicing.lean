import Panackelty.Library.Stride
import Panackelty.Vm.EffectContract
import Panackelty.Vm.Waits

/-!
# Budgets

An embedder divides a run into advances of any budgets.  The host is deterministic: what it answers
depends on its own state, which only calls change, and a wait is answered by a function of the state
in which it is found.  Then the division does not matter: where a run comes to rest, and everything
that was called on the way, is the same as without a limit.

An advance without a limit also ends where a builtin has asked for it, after `http_listen`; the
embedder goes on with another one.

* `tick`: one instruction, or one answer; `advance_stride`: an advance takes some ticks.
* `drive`: advances of any budgets, and answers; `cycle`: an advance and an answer.
* `drive_eq_cycle`, `advances_eq_advance`: the division does not matter.
* `start`: where a run starts, with its services enabled.
-/

open Function Nat Option

namespace Panackelty.Vm

open Library Execution

variable {H : Type}

/-! ## Ticks -/

section Ticks

variable (S : Services H) (p : Program) (answer : Execution H → Option (Input H))

/-- A shutdown has come to its end and the next advance resumes the execution. -/
def resumable (s : Execution H) : Bool :=
  s.status == .waiting && s.httpWaiting.any fun handle => !S.resource handle s.host

/-- One instruction of a running execution; of a waiting one, the end of a shutdown or the answer of
the embedder, if it has one. -/
def tick (s : Execution H) : Execution H :=
  match s.status with
  | .yielded =>
    if s.error.isSome then s.finish
    else ({ dispatch S p s with yieldRequested := false } : Execution H).finish
  | .waiting =>
    if resumable S s then s.resumeShutdown S else (answer s).elim s (respond S p s)
  | _ => s

/-- Nothing moves any more: the execution has ended, or waits and is not answered. -/
def Resting (s : Execution H) : Prop :=
  s.status ≠ .yielded ∧ resumable S s = false ∧ (s.status = .waiting → answer s = none)

/-- No builtin of the run asks for a pause. -/
def Unpaused (s : Execution H) : Prop :=
  ∀ j, ((tick S p answer)^[j] s).status = .yielded →
    (dispatch S p ((tick S p answer)^[j] s)).yieldRequested = false

/-- A turn of the embedder. -/
inductive Turn where
  | advance (budget : ℕ)
  | answer

/-- What a turn does; an answer is given to an execution that waits for it. -/
def turn : Turn → Execution H → Execution H
  | .advance budget, s => advance S p budget s
  | .answer, s =>
    if s.status = .waiting ∧ resumable S s = false then (answer s).elim s (respond S p s) else s

/-- Advances of any budgets, and answers. -/
def drive (turns : List Turn) (s : Execution H) : Execution H :=
  turns.foldl (fun s t => turn S p answer t s) s

/-- An advance and then an answer, if there is something to answer. -/
def cycle (budget : ℕ) (s : Execution H) : Execution H :=
  turn S p answer .answer (advance S p budget s)

/-- Advances of these budgets, without an answer. -/
def advances (budgets : List ℕ) (s : Execution H) : Execution H :=
  budgets.foldl (fun s budget => advance S p budget s) s

end Ticks

variable {S : Services H} {p : Program} {answer : Execution H → Option (Input H)} {s : Execution H}

theorem tick_of_resting (h : Resting S answer s) : IsFixedPt (tick S p answer) s := by
  obtain ⟨hyld, hresm, hans⟩ := h
  unfold IsFixedPt tick
  cases hstat : s.status with
  | yielded => exact absurd hstat hyld
  | waiting => simp [hresm, hans hstat]
  | completed | trapped | exited => rfl

theorem resumeShutdown_of_not (h : resumable S s = false) : s.resumeShutdown S = s := by
  unfold resumeShutdown
  split
  · rename_i handle hstat hhdl
    simp only [resumable, hstat, hhdl, beq_self_eq_true, any_some, Bool.true_and,
      Bool.not_eq_false'] at h
    rw [if_pos h]
  · rfl

theorem resumeShutdown_status (h : resumable S s) :
    (s.resumeShutdown S).status = .yielded := by
  simp only [resumable, Bool.and_eq_true, beq_iff_eq, any_eq_true] at h
  obtain ⟨hstat, handle, hhdl, hrsrc⟩ := h
  have hgone : S.resource handle s.host ≠ true := by simpa using hrsrc
  rw [resumeShutdown, hstat, hhdl]
  simp only
  rw [if_neg hgone]

theorem resumable_of_not_waiting (h : s.status ≠ .waiting) : resumable S s = false := by
  simp [resumable, h]

theorem finish_of_yielded (hs : s.status = .yielded) (herr : s.error = none) : s.finish = s := by
  simp [finish, hs, herr]

/-- The loop of an advance takes some ticks: at least one if the budget is not zero, and as many as
the budget unless the execution stops or asks for a pause. -/
theorem dispatchLoop_stride (hs : s.status = .yielded) (budget : ℕ) :
    ∃ n, (dispatchLoop S p budget s).finish = (tick S p answer)^[n] s ∧ (0 < budget → 0 < n) ∧
      (Unpaused S p answer s → budget ≤ n ∨ ((tick S p answer)^[n] s).status ≠ .yielded) := by
  induction budget generalizing s with
  | zero =>
    cases herr : s.error with
    | none => exact ⟨0, finish_of_yielded hs herr, fun h => h, fun _ => .inl le_rfl⟩
    | some trap =>
      refine ⟨1, ?_, fun _ => one_pos, fun _ => .inl (zero_le 1)⟩
      simp [tick, dispatchLoop, hs, herr]
  | succ budget ih =>
    cases herr : s.error with
    | some trap =>
      have htick : tick S p answer s = s.finish := by simp [tick, hs, herr]
      refine ⟨1, ?_, fun _ => one_pos, fun _ => .inr ?_⟩
      · rw [iterate_one, htick, dispatchLoop, if_pos (.inl (by simp [herr]))]
      · rw [iterate_one, htick]
        simp [finish, herr]
    | none =>
      have htick : tick S p answer s =
          ({ dispatch S p s with yieldRequested := false } : Execution H).finish := by
        simp [tick, hs, herr]
      rw [dispatchLoop, if_neg (by simp [hs, herr])]
      by_cases hyield : (dispatch S p s).yieldRequested = true
      · rw [if_pos hyield]
        refine ⟨1, htick.symm, fun _ => one_pos, fun hnever => ?_⟩
        have hnot := hnever 0 hs
        rw [iterate_zero_apply, hyield] at hnot
        cases hnot
      · rw [if_neg hyield]
        have hclear : ({ dispatch S p s with yieldRequested := false } : Execution H) =
            dispatch S p s := by rw [← Bool.eq_false_iff.mpr hyield]
        rw [hclear] at htick
        by_cases hgo : (dispatch S p s).status = .yielded ∧ (dispatch S p s).error = none
        · have hstep : tick S p answer s = dispatch S p s :=
            htick.trans (finish_of_yielded hgo.1 hgo.2)
          obtain ⟨n, hn, -, hfull⟩ := ih hgo.1
          refine ⟨n + 1, ?_, fun _ => succ_pos n, fun hnever => ?_⟩
          · rw [iterate_succ_apply, hstep]
            exact hn
          rw [iterate_succ_apply, hstep]
          refine (hfull fun j => ?_).imp_left succ_le_succ
          have hlater := hnever (j + 1)
          rwa [iterate_succ_apply, hstep] at hlater
        · -- the loop ends here
          have hend : dispatchLoop S p budget (dispatch S p s) = dispatch S p s := by
            rcases budget with _ | budget
            · rfl
            rw [dispatchLoop]
            refine if_pos ?_
            rw [not_and_or] at hgo
            rcases hgo with hstat | herr
            · exact .inr hstat
            · exact .inl (isSome_iff_ne_none.mpr herr)
          rw [hend]
          refine ⟨1, htick.symm, fun _ => one_pos, fun _ => .inr ?_⟩
          rw [iterate_one, htick]
          unfold finish
          rw [not_and_or] at hgo
          cases herr : (dispatch S p s).error with
          | none =>
            have hstat := hgo.resolve_right (not_not.mpr herr)
            simp only [Option.isSome_none, Bool.false_eq_true, if_false]
            split
            · exact hstat
            · exact hstat
          | some trap => simp

/-- An advance takes some ticks, and at least one unless its budget is zero or it has nothing to do.
-/
theorem advance_stride (budget : ℕ) (s : Execution H) :
    ∃ n, advance S p budget s = (tick S p answer)^[n] s ∧
      (0 < budget → s.status = .yielded ∨ resumable S s = true → 0 < n) := by
  by_cases hresm : resumable S s = true
  · have hyld := resumeShutdown_status hresm
    have hwait : s.status = .waiting := by
      simp only [resumable, Bool.and_eq_true, beq_iff_eq] at hresm
      exact hresm.1
    have htick : tick S p answer s = s.resumeShutdown S := by simp [tick, hwait, hresm]
    obtain ⟨n, hn, -⟩ := @dispatchLoop_stride H S p answer _ hyld budget
    refine ⟨n + 1, ?_, fun _ _ => succ_pos n⟩
    rw [iterate_succ_apply, htick, ← hn, advance]
    exact if_neg (not_not.mpr hyld)
  · have hsame := resumeShutdown_of_not (Bool.eq_false_iff.mpr hresm)
    by_cases hyld : s.status = .yielded
    · obtain ⟨n, hn, hpos, -⟩ := @dispatchLoop_stride H S p answer _ hyld budget
      refine ⟨n, ?_, fun hbud _ => hpos hbud⟩
      rw [← hn, advance, hsame]
      exact if_neg (not_not.mpr hyld)
    · refine ⟨0, ?_, fun _ hgo => absurd hgo (not_or.mpr ⟨hyld, hresm⟩)⟩
      rw [advance, hsame]
      exact if_pos hyld

theorem answer_stride (s : Execution H) : ∃ n, turn S p answer .answer s = (tick S p answer)^[n] s ∧
      (s.status = .waiting → resumable S s = false → 0 < n) := by
  by_cases hwait : s.status = .waiting ∧ resumable S s = false
  · refine ⟨1, ?_, fun _ _ => one_pos⟩
    simp [turn, tick, hwait.1, hwait.2]
  · refine ⟨0, ?_, fun hstat hresm => absurd ⟨hstat, hresm⟩ hwait⟩
    simp only [turn, if_neg hwait, iterate_zero_apply]

theorem isStride_turn (t : Turn) : IsStride (tick S p answer) (turn S p answer t) := by
  intro s
  cases t with
  | advance budget =>
    obtain ⟨n, hn, -⟩ := @advance_stride H S p answer budget s
    exact ⟨n, hn⟩
  | answer =>
    obtain ⟨n, hn, -⟩ := @answer_stride H S p answer s
    exact ⟨n, hn⟩

/-- An advance with a budget and an answer get on, unless the execution is at rest. -/
theorem isProgress_cycle {budget : ℕ} (hbud : 0 < budget) :
    IsProgress (tick S p answer) (cycle S p answer budget) := by
  intro s
  obtain ⟨n, hn, hpos⟩ := @advance_stride H S p answer budget s
  obtain ⟨m, hm, hpos'⟩ := @answer_stride H S p answer (advance S p budget s)
  refine ⟨m + n, ?_, fun hmoving => ?_⟩
  · rw [iterate_add_apply, ← hn, ← hm, cycle]
  by_contra hzero
  obtain ⟨rfl, rfl⟩ : m = 0 ∧ n = 0 := by omega
  rw [iterate_zero_apply] at hn
  rw [hn] at hpos'
  refine hmoving (tick_of_resting ⟨?_, ?_, ?_⟩)
  · exact fun hyld => absurd (hpos hbud (.inl hyld)) (lt_irrefl 0)
  · exact Bool.eq_false_iff.mpr fun hresm => absurd (hpos hbud (.inr hresm)) (lt_irrefl 0)
  intro hwait
  refine absurd (hpos' hwait ?_) (lt_irrefl 0)
  exact Bool.eq_false_iff.mpr fun hresm => absurd (hpos hbud (.inr hresm)) (lt_irrefl 0)

/-- A run that comes to rest, however it is divided, comes to rest in the same state if the advances
have no limit. -/
theorem drive_eq_cycle (turns : List Turn) (s : Execution H)
    (hrest : Resting S answer (drive S p answer turns s)) :
    ∃ n, ∀ budget, n ≤ budget → ∀ rounds, n ≤ rounds →
      (cycle S p answer budget)^[rounds] s = drive S p answer turns s := by
  obtain ⟨n, hn⟩ := IsStride.foldl (@isStride_turn H S p answer) turns s
  have hdrive : drive S p answer turns s = (tick S p answer)^[n] s := hn
  have hfixed : IsFixedPt (tick S p answer) ((tick S p answer)^[n] s) := by
    rw [← hdrive]
    exact tick_of_resting hrest
  refine ⟨n + 1, fun budget hbud rounds hrounds => ?_⟩
  rw [hdrive]
  exact (isProgress_cycle (lt_of_lt_of_le n.succ_pos hbud)).iterate_eq hfixed
    (le_of_succ_le hrounds)

/-! ## One advance -/

/-- A shutdown that has come to its end is not left waiting. -/
def Parked (S : Services H) (s : Execution H) : Prop := s.status = .waiting → resumable S s = false

theorem httpShutdown_parked (args : List Value) (destroy : Bool) (hs : s.status ≠ .waiting) :
    Parked S (httpShutdown S args destroy s).execution := by
  unfold httpShutdown
  simp only
  split
  · split_ifs with hrsrc
    · intro _
      simp [resumable, novalue, hrsrc]
    · exact fun hwait => absurd hwait hs
  · exact fun hwait => absurd hwait hs
  · exact fun hwait => absurd hwait hs

theorem waitKind_close {b : BuiltinName} (h : waitKind b = some .close) :
    b = .httpClose ∨ b = .httpDestroy := by
  cases b <;> first | exact .inl rfl | exact .inr rfl | exact absurd h (by decide)

/-- Only `http_close` and `http_destroy` leave a shutdown waiting, and only while it goes on. -/
theorem executionBuiltin_parked (h : Running s) (b : BuiltinName) (entry : Builtin)
    (args : List Value) : Parked S (executionBuiltin S p b entry args s).execution := by
  intro hwait
  rcases h.executionBuiltin S p args b entry with ⟨hnot, -⟩ | ⟨-, -, k, hk, hflg⟩
  · exact absurd hwait hnot
  by_cases hclose : waitKind b = some .close
  · rcases waitKind_close hclose with rfl | rfl
    · exact httpShutdown_parked args false h.not_waiting hwait
    · exact httpShutdown_parked args true h.not_waiting hwait
  have hnone : (executionBuiltin S p b entry args s).execution.httpWaiting = none := by
    have hfield := congrArg Flags.close hflg
    have hne : k ≠ .close := fun heq => hclose (heq ▸ hk)
    have hfalse : k.flags.close = false := by cases k <;> first | rfl | exact absurd rfl hne
    rw [hfalse] at hfield
    exact isNone_iff_eq_none.mp (isSome_eq_false_iff.mp hfield)
  simp [resumable, hnone]

theorem dispatch_parked (h : Running s) : Parked S (dispatch S p s) := by
  rcases @Running.dispatch H s S p h with ⟨hnot, -⟩ | ⟨s₀, b, entry, args, hs₀, -, heq⟩
  · exact fun hwait => absurd hwait hnot
  rw [heq]
  intro hwait
  have hstat : (invoke S p b entry args s₀).execution.status = .waiting :=
    (invoke S p b entry args s₀).pushValue_eq.1.symm.trans hwait
  have hpush : (invoke S p b entry args s₀).pushValue =
      (invoke S p b entry args s₀).execution := by simp [Invoked.pushValue, hstat]
  rw [hpush]
  exact @executionBuiltin_parked H S p s₀ hs₀ b entry args hstat

theorem dispatchLoop_parked (hstand : Standing s) (hs : s.status ≠ .waiting) (budget : ℕ) :
    Parked S (dispatchLoop S p budget s) := by
  induction budget generalizing s with
  | zero => exact fun hwait => absurd hwait hs
  | succ budget ih =>
    unfold dispatchLoop
    split
    · exact fun hwait => absurd hwait hs
    rename_i hgo
    rw [not_or, not_not, Bool.not_eq_true, isSome_eq_false_iff, isNone_iff_eq_none]
      at hgo
    have hrun := hstand.running hgo.2 hgo.1
    have hpark := @dispatch_parked H S p s hrun
    simp only
    split
    · exact hpark
    by_cases hwait : (dispatch S p s).status = .waiting
    · rw [dispatchLoop_of_waiting hwait]
      exact hpark
    · exact ih ((@Running.dispatch H s S p hrun).standing hrun) hwait

/-- An advance leaves no shutdown waiting that has come to its end. -/
theorem advance_parked (hstand : Standing s) (h : Parked S s) (budget : ℕ) :
    Standing (advance S p budget s) ∧ Parked S (advance S p budget s) := by
  have hresm : resumable S s = false := by
    by_cases hwait : s.status = .waiting
    · exact h hwait
    · exact resumable_of_not_waiting hwait
  rw [advance, resumeShutdown_of_not hresm]
  split
  · exact ⟨hstand, h⟩
  rename_i hyld
  have hs : s.status ≠ .waiting := not_not.mp hyld ▸ Status.noConfusion
  obtain ⟨hloop, -⟩ := @dispatchLoop_standing H s S p hstand hs budget
  refine ⟨hloop.finish, ?_⟩
  by_cases hwait : (dispatchLoop S p budget s).status = .waiting
  · rw [finish_of_waiting hloop hwait]
    exact dispatchLoop_parked hstand hs budget
  · exact fun hw => absurd hw (finish_of_not_waiting hwait).1

theorem advances_parked (hstand : Standing s) (h : Parked S s) (budgets : List ℕ) :
    Parked S (advances S p budgets s) := by
  induction budgets generalizing s with
  | nil => exact h
  | cons budget budgets ih =>
    obtain ⟨hnext, hpark⟩ := @advance_parked H S p s hstand h budget
    exact ih hnext hpark

/-- Without a pause one advance without a limit does the work of all. -/
theorem advances_eq_advance (hstand : Standing s) (hs : s.status = .yielded)
    (hunp : Unpaused S p (fun _ => none) s) (budgets : List ℕ)
    (hend : (advances S p budgets s).status ≠ .yielded) :
    ∃ n, ∀ budget, n ≤ budget → advance S p budget s = advances S p budgets s := by
  have hpark : Parked S s := fun hwait => by
    cases hs.symm.trans hwait
  have hresting : ∀ s' : Execution H, s'.status ≠ .yielded → Parked S s' →
      Resting S (fun _ => none) s' := by
    intro s' hended hpark'
    refine ⟨hended, ?_, fun _ => rfl⟩
    by_cases hwait : s'.status = .waiting
    · exact hpark' hwait
    · exact resumable_of_not_waiting hwait
  obtain ⟨n, hn⟩ := IsStride.foldl
    (fun budget => @isStride_turn H S p (fun _ => none) (.advance budget)) budgets s
  have hadv : advances S p budgets s = (tick S p fun _ => none)^[n] s := hn
  have hfixed : IsFixedPt (tick S p fun _ => none) ((tick S p fun _ => none)^[n] s) := by
    rw [← hadv]
    exact tick_of_resting (hresting _ hend (advances_parked hstand hpark budgets))
  refine ⟨n, fun budget hbud => ?_⟩
  obtain ⟨m, hm, -, hfull⟩ := @dispatchLoop_stride H S p (fun _ => none) s hs budget
  have hadvance : advance S p budget s = (tick S p fun _ => none)^[m] s := by
    rw [← hm, advance, resumeShutdown_of_not (resumable_of_not_waiting (hs ▸ Status.noConfusion))]
    exact if_neg (not_not.mpr hs)
  rw [hadvance, hadv]
  rcases hfull hunp with hle | hended
  · exact iterate_eq_of_le hfixed (hbud.trans hle)
  refine iterate_eq_of_rest (tick_of_resting (hresting _ hended ?_)) hfixed
  rw [← hadvance]
  exact (advance_parked hstand hpark budget).2

/-! ## Whole runs -/

/-- The services that the owner of an execution can enable. -/
inductive Capability where
  | serverReads
  | tcp
  | console
  | filesystem
  | server

/-- The entry point that enables a service. -/
def Capability.enable : Capability → Input H
  | serverReads => .enableServerReads
  | tcp => .enableTcp
  | console => .enableConsole
  | filesystem => .enableFilesystem
  | server => .enableServer

/-- An execution before its first advance: it is created and its services are enabled. -/
def start (S : Services H) (p : Program) (mode : Mode) (function : Function)
    (arguments : List Value) (host : H) (capabilities : List Capability) : Execution H :=
  run S p (capabilities.map Capability.enable) (create mode function arguments host)

theorem standing_enable (hstand : Standing s) (hs : s.status = .yielded) (c : Capability) :
    Standing (respond S p s c.enable) ∧ (respond S p s c.enable).status = .yielded := by
  have henabled : ∀ t : Execution H, Standing t → t.status = .yielded →
      Standing (s.enable t) ∧ (s.enable t).status = .yielded := by
    intro t ht hyld
    rw [enable, if_pos hs]
    exact ⟨ht, hyld⟩
  cases c with
  | serverReads =>
    rw [Capability.enable, respond]
    split
    · exact henabled _ ⟨hstand.idle, hstand.waiting⟩ hs
    · exact ⟨hstand, hs⟩
  | tcp | console | filesystem | server =>
    exact henabled _ ⟨hstand.idle, hstand.waiting⟩ hs

theorem standing_start (mode : Mode) (function : Function) (arguments : List Value) (host : H)
    (capabilities : List Capability) :
    Standing (start S p mode function arguments host capabilities) ∧
      (start S p mode function arguments host capabilities).status = .yielded := by
  rw [start, run, List.foldl_map]
  refine List.foldlRecOn (motive := fun s => Standing s ∧ s.status = .yielded) capabilities _
    ⟨standing_create mode function arguments host, framePush_status _ _ _⟩ ?_
  exact fun s hs c _ => standing_enable hs.1 hs.2 c

/-- The division of a run into advances does not matter.  A run with advances of any budgets, whose
waits are answered, comes to rest in the state, with the calls, the result and the error, in which a
run with unlimited advances comes to rest; and without a pause and without an answer this is the
state after one unlimited advance. -/
theorem slicing_eq (S : Services H) (p : Program) (mode : Mode) (function : Function)
    (arguments : List Value) (host : H) (capabilities : List Capability) :
    (∀ answer turns, Resting S answer
      (drive S p answer turns (start S p mode function arguments host capabilities)) →
      ∃ n, ∀ budget, n ≤ budget → ∀ rounds, n ≤ rounds →
        (cycle S p answer budget)^[rounds] (start S p mode function arguments host capabilities) =
          drive S p answer turns (start S p mode function arguments host capabilities)) ∧
    (Unpaused S p (fun _ => none) (start S p mode function arguments host capabilities) →
      ∀ budgets,
      (advances S p budgets (start S p mode function arguments host capabilities)).status ≠
        .yielded →
      ∃ n, ∀ budget, n ≤ budget →
        advance S p budget (start S p mode function arguments host capabilities) =
          advances S p budgets (start S p mode function arguments host capabilities)) := by
  refine ⟨fun answer turns => drive_eq_cycle turns _, fun hunp budgets hend => ?_⟩
  obtain ⟨hstand, hyld⟩ := standing_start mode function arguments host capabilities
  exact advances_eq_advance hstand hyld hunp budgets hend

/-- A host that takes reads. -/
def readingServices : Services Unit :=
  { quietServices with readWait := fun _ host => (.ok (), host) }

/-- The reader as an embedder runs it, with reads and a console. -/
def readerStart : Execution Unit :=
  start readingServices readerProgram.program ⟨true, false, false, true⟩ readerMain [] ()
    [.serverReads, .console]

/-- Every read is answered with bytes. -/
def readerAnswer (_ : Execution Unit) : Option (Input Unit) :=
  some (.completeRead (some (.variant (Str.asciiBytes "Ok") [.bytes (Str.asciiBytes "line")])))

/-- Slices of the reader: it calls a function, waits in its worker, is answered and ends. -/
def readerTurns : List Turn :=
  [.advance 1, .advance 3, .advance 2, .advance 9, .answer, .advance 1, .advance 9]

/-- The slices of the reader come to where unlimited advances with an answer come to; without an
answer they come to where one unlimited advance comes to. -/
theorem slicing_eq_reader :
    ((drive readingServices readerProgram.program readerAnswer readerTurns readerStart).status =
        .completed ∧
      ∃ n, ∀ budget, n ≤ budget → ∀ rounds, n ≤ rounds →
        (cycle readingServices readerProgram.program readerAnswer budget)^[rounds] readerStart =
          drive readingServices readerProgram.program readerAnswer readerTurns readerStart) ∧
    ∃ n, ∀ budget, n ≤ budget → advance readingServices readerProgram.program budget readerStart =
      advances readingServices readerProgram.program [1, 3, 2, 9] readerStart := by
  have hslicing := slicing_eq readingServices readerProgram.program ⟨true, false, false, true⟩
    readerMain [] () [.serverReads, .console]
  constructor
  · have hend : (drive readingServices readerProgram.program readerAnswer readerTurns
        readerStart).status = .completed := by
      decide +kernel
    refine ⟨hend, hslicing.1 readerAnswer readerTurns ⟨?_, ?_, ?_⟩⟩
    · exact hend ▸ Status.noConfusion
    · exact resumable_of_not_waiting (hend ▸ Status.noConfusion)
    · exact fun hwait => absurd (hend.symm.trans hwait) Status.noConfusion
  have hstat : ((tick readingServices readerProgram.program fun _ => none)^[8] readerStart).status =
      .waiting := by
    decide +kernel
  refine hslicing.2 (fun j => ?_) [1, 3, 2, 9] (by decide +kernel)
  rcases j with _ | _ | _ | _ | _ | _ | _ | _ | j
  iterate 8 exact fun _ => by decide +kernel
  intro hyld
  have hfixed := @tick_of_resting Unit readingServices readerProgram.program (fun _ => none)
    ((tick readingServices readerProgram.program fun _ => none)^[8] readerStart)
    ⟨hstat ▸ Status.noConfusion, by decide +kernel, fun _ => rfl⟩
  have hlater := iterate_eq_of_le hfixed (le_add_left 8 j)
  have hwait := congrArg status hlater
  rw [hstat] at hwait
  exact absurd (hwait.symm.trans hyld) Status.noConfusion

/-- An async `main` that listens, with a worker for the connections. -/
def listenerMain : Function :=
  ⟨CString.ascii "main", false, true, false, [],
    [.const (.text (Str.asciiBytes "server")), .const (.text (Str.asciiBytes "worker")),
      .awaitCall (CString.ascii "http_listen_ordinary") 2, .pop, .call (CString.ascii "$unit") 0,
        .ret]⟩

/-- The worker of `listenerMain`. -/
def listenerWorker : Function :=
  ⟨CString.ascii "worker", false, true, false, [CString.ascii "connection"],
    [.call (CString.ascii "$unit") 0, .ret]⟩

/-- The program of `listenerMain`. -/
def listenerProgram : VerifiedProgram where
  source := ⟨[listenerMain, listenerWorker], false⟩
  program := ⟨[listenerMain, listenerWorker], true⟩
  verified := by decide +kernel

/-- A host without an HTTP runtime: `http_listen` has an `Error` as its value. -/
def runtimelessServices : Services Unit :=
  { quietServices with httpListen := fun _ _ _ _ _ _ host =>
      (.ok (.variant (Str.asciiBytes "Error")
        [.str (Str.asciiBytes "HTTP resource runtime is unavailable")]), host) }

/-- The listener as an embedder runs it, with the server enabled. -/
def listenerStart : Execution Unit :=
  start runtimelessServices listenerProgram.program ⟨true, false, false, false⟩ listenerMain [] ()
    [.server]

/-- One advance with the largest budget stops after `http_listen`; two slices come to the end. -/
theorem slicing_pauses_listener :
    (advance runtimelessServices listenerProgram.program sizeMax listenerStart).status = .yielded ∧
    (advances runtimelessServices listenerProgram.program [5, 5] listenerStart).status =
      .completed := by
  decide +kernel

end Panackelty.Vm
