import Panackelty.Vm.HostSteps
import Panackelty.Vm.Tasks

/-!
# The requests of tasks

The request of a task and the wait of its execution belong together: a request is pending exactly as
long as a task waits for its callback, and only a ready task is advanced.

* `forTask_keep`: only the callbacks touch the request.
* `TreeStable`: an invariant that the end of tasks keeps, `cancelBelow` and `settle` with it.
* `Task.Sound`: the invariant of one task; `advance_sound`, `answer_sound`: its steps.
-/

namespace Panackelty.Vm

open Execution

open Library (sweep sweep_invariant)

variable {H : Type}

/-! ## The host of a task -/

/-- The request and the count of the session are as they were. -/
def TaskHost.Same (h h' : TaskHost H) : Prop :=
  h'.request = h.request ∧ h'.registered = h.registered

theorem registerRequest_refused {v : Value} {h h' : TaskHost H} {failure : Failure}
    (hreg : registerRequest v h = (.error failure, h')) : h.Same h' := by
  unfold registerRequest at hreg
  split at hreg
  · obtain ⟨-, rfl⟩ := Prod.mk.injEq .. ▸ hreg
    exact ⟨rfl, rfl⟩
  · simp at hreg

/-- A request that was accepted: a new generation is pending, and it is counted. -/
theorem registerRequest_accepted {v : Value} {h h' : TaskHost H}
    (hreg : registerRequest v h = (.ok (), h')) :
    h.request.pending = false ∧ h'.request = { h.request with
        pending := true, generation := h.request.generation + 1, input := some v } ∧
      h'.registered = h.registered + 1 := by
  unfold registerRequest at hreg
  split at hreg
  · simp at hreg
  rename_i hfree
  obtain ⟨-, rfl⟩ := Prod.mk.injEq .. ▸ hreg
  refine ⟨?_, rfl, rfl⟩
  rw [not_or, Bool.not_eq_true] at hfree
  exact hfree.1

theorem forTask_keep (S : Services H) : S.forTask.Keep TaskHost.Same where
  refl _ := ⟨rfl, rfl⟩
  trans hab hbc := ⟨hbc.1.trans hab.1, hbc.2.trans hab.2⟩
  builtinCall _ _ _ := ⟨rfl, rfl⟩
  hostCall _ _ _ := ⟨rfl, rfl⟩
  readWait _ _ _ _ := registerRequest_refused
  printWait _ _ _ _ := registerRequest_refused
  httpContinue _ _ := ⟨rfl, rfl⟩
  httpListen _ _ _ _ _ _ _ := ⟨rfl, rfl⟩
  stopSignals _ := ⟨rfl, rfl⟩
  requestClose _ _ _ := ⟨rfl, rfl⟩
  serviceStart _ _ _ _ _ _ _ := ⟨rfl, rfl⟩
  serviceReady _ _ _ _ _ := ⟨rfl, rfl⟩
  serverStart _ _ _ _ _ _ _ := ⟨rfl, rfl⟩
  serverEnable _ _ _ := ⟨rfl, rfl⟩
  consoleWriteStart _ _ _ := ⟨rfl, rfl⟩
  rootReadStart _ _ _ := ⟨rfl, rfl⟩
  tcpExchangeStart _ _ := ⟨rfl, rfl⟩
  httpTransportStart _ _ := ⟨rfl, rfl⟩

/-! ## The end of tasks -/

theorem Task.finishBody_eq (out : TaskStatus) (task : Task H) :
    (task.finishBody out).execution = none ∧ (task.finishBody out).request = task.request.release ∧
      (task.finishBody out).outcome = out ∧ (task.finishBody out).status = .joining ∧
      (task.finishBody out).parent = task.parent ∧ (task.finishBody out).deadline = task.deadline ∧
      (task.finishBody out).asyncRead = task.asyncRead := by
  unfold finishBody
  cases hexec : task.execution with
  | none => simp [hexec]
  | some e => cases out <;> simp

/-- A task that has been joined has its outcome. -/
def Session.conclude (t : Session H) (i : ℕ) : Session H :=
  t.modify i fun task => { task with status := task.outcome }

/-- An invariant that is kept when a body ends, when a task takes its outcome, and when it gets the
text of an error. -/
structure TreeStable (P : Session H → Prop) : Prop where
  finish : ∀ {t : Session H} (i : ℕ) {outcome : TaskStatus}, outcome.terminal = true → P t →
    P (t.finishBody i outcome)
  conclude : ∀ {t : Session H} {i : ℕ} {task : Task H}, t.tasks[i]? = some task →
    task.status = .joining → P t → P (t.conclude i)
  error : ∀ {t : Session H} (i : ℕ) (text : String), P t →
    P (t.modify i fun task => { task with error := some text })

theorem Session.finishBody_tasks (t : Session H) (i : ℕ) (out : TaskStatus) :
    (t.finishBody i out).tasks = t.tasks.modify i (Task.finishBody out) := rfl

theorem Session.cancelTask_eq (t : Session H) (i : ℕ) :
    t.cancelTask i = (t.finishBody i .cancelled).conclude i := by
  have hcomp : (fun task : Task H => { task with status := .cancelled }) ∘ Task.finishBody
      .cancelled =
      (fun task : Task H => { task with status := task.outcome }) ∘ Task.finishBody .cancelled := by
    ext1 task
    simp only [Function.comp_apply]
    rw [(task.finishBody_eq .cancelled).2.2.1]
  unfold cancelTask conclude modify
  rw [Session.finishBody_tasks, List.modify_modify_eq, List.modify_modify_eq, hcomp]

namespace TreeStable

variable {P : Session H → Prop} (hP : TreeStable P) {t : Session H}

include hP

theorem cancelTask {i : ℕ} {task : Task H} (hi : t.tasks[i]? = some task) (h : P t) :
    P (t.cancelTask i) := by
  rw [t.cancelTask_eq]
  have hfin : (t.finishBody i .cancelled).tasks[i]? = some (task.finishBody .cancelled) := by
    simp [Session.finishBody_tasks, hi]
  exact hP.conclude hfin (task.finishBody_eq _).2.2.2.1 (hP.finish i rfl h)

theorem cancelBelow (root : ℕ) (itself : Bool) (h : P t) : P (t.cancelBelow root itself) := by
  refine sweep_invariant ?_ h _
  intro i t h
  split
  · rename_i hi
    split
    · exact hP.cancelTask hi h
    · exact h
  · exact h

theorem fail (i : ℕ) {out : TaskStatus} (hout : out.terminal) (h : P t) :
    P ((t.finishBody i out).cancelBelow (i + 1) false) :=
  hP.cancelBelow _ _ (hP.finish i hout h)

theorem settle (h : P t) : P t.settle := by
  refine sweep_invariant ?_ h _
  intro i t h
  have hjoin : P (t.settleJoin i) := by
    unfold Session.settleJoin
    split
    · rename_i hi
      split
      · rename_i hjoining
        exact hP.conclude hi hjoining.1 h
      · exact h
    · exact h
  unfold Session.settleParent
  split
  · split
    · split
      · split
        · exact hP.cancelBelow _ _ (hP.error _ _ (hP.finish _ rfl hjoin))
        · exact hjoin
      · exact hjoin
    · exact hjoin
  · exact hjoin

end TreeStable

/-! ## One task -/

/-- What the execution of a task is created with. -/
def taskMode (read : Bool) : Mode := ⟨true, false, !read, read⟩

/-- An execution that waits for the callback of its task. -/
structure Awaits (read : Bool) (e : Execution H) : Prop where
  status : e.status = .waiting
  error : e.error = none
  flags : e.flags = (if read then WaitKind.read else WaitKind.print).flags

/-- A ready task runs; a pending request is that of the wait of its execution. -/
structure Task.Sound (task : Task H) : Prop where
  ready : task.status = .ready → task.request.pending = false ∧ ∃ e ∈ task.execution, Running e
  pending : task.request.pending = true →
    task.status = .waiting ∧ ∃ e ∈ task.execution, Awaits task.asyncRead e
  mode : ∀ e ∈ task.execution, e.mode = taskMode task.asyncRead
  queued : task.request.queued = true → task.request.pending = true
  outcome : task.outcome ≠ .ready ∧ task.outcome ≠ .waiting

theorem Request.release_pending (req : Request) : req.release.pending = false := by
  unfold release
  split
  · rfl
  · exact Bool.not_eq_true _ ▸ ‹_›

theorem Request.release_generation (req : Request) : req.release.generation = req.generation := by
  unfold release
  split <;> rfl

theorem Request.release_queued {req : Request}
    (h : req.queued = true → req.pending = true) : req.release.queued = false := by
  unfold release
  split
  · rfl
  · rename_i hpend
    exact Bool.not_eq_true _ ▸ fun hque => hpend (h hque)

/-- Whatever a task was doing, it has no request when its body has ended. -/
theorem Task.sound_finishBody {task : Task H}
    (h : task.request.queued = true → task.request.pending = true) {out : TaskStatus}
    (houtcome : out.terminal) : (task.finishBody out).Sound := by
  obtain ⟨hexec, hreq, hout, hstat, -, -, -⟩ := task.finishBody_eq out
  refine ⟨?_, ?_, ?_, ?_, ?_⟩
  · intro hready
    cases hstat.symm.trans hready
  · intro hpend
    rw [hreq, task.request.release_pending] at hpend
    cases hpend
  · intro e he
    cases hexec.symm.trans he
  · intro hque
    rw [hreq, Request.release_queued h] at hque
    cases hque
  · rw [hout]
    cases out <;> simp_all [TaskStatus.terminal]

theorem Task.Sound.conclude {task : Task H} (h : task.Sound) (hjoin : task.status = .joining) :
    ({ task with status := task.outcome } : Task H).Sound where
  ready hready := absurd hready h.outcome.1
  pending hpend := by
    have hwait := (h.pending hpend).1
    cases hjoin.symm.trans hwait
  mode := h.mode
  queued := h.queued
  outcome := h.outcome

/-- One instruction of a ready task: it goes on, it registers the wait that it is left in, or it
waits for something else or ends without a request. -/
theorem advance_sound (S : Services H) (p : Program) {task : Task H} (h : task.Sound)
    {e : Execution (TaskHost H)} (he : e ∈ task.execution) (hready : task.status = .ready)
    (registered : ℕ) {e' : Execution (TaskHost H)}
    (he' : e' = advance S.forTask p 1
      { e with host := { e.host with request := task.request, registered } }) :
    e'.mode = taskMode task.asyncRead ∧ (e'.status = .yielded → Running e') ∧
      ((e'.host.request = task.request ∧ e'.host.registered = registered) ∨
        (Awaits task.asyncRead e' ∧ (∃ v, e'.host.request = { task.request with
          pending := true, generation := task.request.generation + 1, input := some v }) ∧
          e'.host.registered = registered + 1)) := by
  obtain ⟨hfree, e₀, he₀, hrunning⟩ := h.ready hready
  obtain rfl : e = e₀ := Option.some_inj.mp (he.symm.trans he₀)
  have hrun : Running ({ e with host := { e.host with request := task.request, registered } } :
      Execution (TaskHost H)) := ⟨hrunning.status, hrunning.error, hrunning.flags⟩
  obtain ⟨hstand, hsrv, herr⟩ := @Running.advance_one _ _ _ _ p (forTask_keep S) hrun
  rw [← he'] at hstand hsrv herr
  have hmode := h.mode e he
  refine ⟨hsrv.mode.trans hmode, ?_, ?_⟩
  · intro hyld
    exact ⟨hyld, herr hyld, hstand.idle (hyld ▸ Status.noConfusion)⟩
  rcases hsrv.host with hsame | ⟨hwait, v, hkind⟩
  · exact .inl hsame
  right
  -- the callback is that of the mode, so the kind of the wait is that of the task
  have hread : e.readWait = task.asyncRead := congrArg Mode.readWait hmode
  have hprint : e.printWait = !task.asyncRead := congrArg Mode.printWait hmode
  have hacc : ∀ {host : TaskHost H},
      registerRequest v ⟨task.request, registered, e.host.base⟩ = (.ok (), host) →
      (∃ v, host.request = { task.request with
        pending := true, generation := task.request.generation + 1, input := some v }) ∧
        host.registered = registered + 1 :=
    fun hreg => ⟨⟨v, (registerRequest_accepted hreg).2.1⟩, (registerRequest_accepted hreg).2.2⟩
  rcases hkind with ⟨hcb, hreg, hflg⟩ | ⟨hcb, hreg, hflg⟩
  · refine ⟨⟨hwait, (hstand.waiting hwait).1, ?_⟩, hacc hreg⟩
    rw [← hread, show e.readWait = true from hcb, hflg, hrun.flags]
    rfl
  refine ⟨⟨hwait, (hstand.waiting hwait).1, ?_⟩, hacc hreg⟩
  have hasync : task.asyncRead = false := by
    rw [show e.printWait = true from hcb] at hprint
    exact Bool.not_eq_true' _ ▸ hprint.symm
  rw [hasync, hflg, hrun.flags]
  rfl

/-- The completion of the wait of a task is taken: the execution goes on, or it has an error. -/
theorem answer_sound {e : Execution (TaskHost H)} {event : Completion} {read : Bool}
    (h : Awaits read e) {e' : Execution (TaskHost H)}
    (he' : e' = if read then e.completeRead event.result else e.completePrint event.error) :
    e'.mode = e.mode ∧ e'.host = e.host ∧
      (Running e' ∨ (e'.status = .trapped ∧ e'.error ≠ none)) := by
  have hset : ∀ (s : Execution (TaskHost H)) (error : Option Trap) (res : Option Value),
      s.flags = .idle → (s.settle error res).mode = s.mode ∧
        (s.settle error res).host = s.host ∧ (Running (s.settle error res) ∨
          ((s.settle error res).status = .trapped ∧ (s.settle error res).error ≠ none)) := by
    intro s error res hflg
    unfold settle
    split
    · exact ⟨s.push_mode _, s.push_host _, .inl ⟨rfl, rfl, (s.push_flags _).trans hflg⟩⟩
    · exact ⟨rfl, rfl, .inr ⟨rfl, Option.some_ne_none _⟩⟩
    · exact ⟨rfl, rfl, .inr ⟨rfl, Option.some_ne_none _⟩⟩
  obtain ⟨hstat, herr, hflg⟩ := h
  subst he'
  rcases read with _ | _
  · obtain ⟨hread, -, -, hsrv, -, -, hclose⟩ := @flags_eq _ e .print hflg
    have hcompl : e.completePrint event.error = e.settle (event.error.map fatal) (some .void) := by
      unfold completePrint
      rw [if_neg (by simp [hstat, hread, hsrv, hclose, WaitKind.flags, Flags.idle])]
    rw [if_neg Bool.false_ne_true, hcompl]
    exact hset e _ _ hflg
  obtain ⟨hread, htcp, hhttp, hsrv, hroot, hcons, hclose⟩ := @flags_eq _ e .read hflg
  have hidle : flags { e with waitingRead := false } = .idle := by
    unfold flags
    rw [htcp, hhttp, hsrv, hroot, hcons, hclose]
    rfl
  rw [if_pos rfl]
  unfold completeRead
  rw [if_neg (by simp [hstat, hread, htcp, hhttp, WaitKind.flags, Flags.idle])]
  split
  · exact hset _ _ _ hidle
  split_ifs
  · exact hset _ _ _ hidle
  · exact hset _ _ _ hidle

end Panackelty.Vm
