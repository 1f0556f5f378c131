import Panackelty.Vm.TaskWaits

/-!
# Operations of task sessions

An operation is a wait of a task: a session, a slot and a generation.  Its completion is accepted
into the ring and delivered by a later pump, and the task may be gone or have gone on in the
meantime.

* `Task.Issued`: a generation that no completion is accepted for any more.
* `Booked`: the invariant, over the ring, the generations and the two counts.
* `Booked.run`: it holds throughout a run; `Session.deliver_cases`: what happens to an event.
* `OperationContract`: what follows for the operations.
-/

namespace Panackelty.Vm

open List Option Session Panackelty.Vm.Task
open Request (release_pending)

variable {H : Type} {event : Completion} {i : ℕ}

/-- A generation that is past, or whose completion is queued or was taken. -/
def Task.Issued (task : Task H) (generation : ℕ) : Prop :=
  generation < task.request.generation ∨ (generation = task.request.generation ∧
    (task.request.pending = false ∨ task.request.queued = true))

/-- The tasks with a pending request. -/
def Session.pending (t : Session H) : ℕ := t.tasks.countP fun task => task.request.pending

/-- The books of a session. -/
structure Booked (t : Session H) : Prop where
  sound : ∀ task ∈ t.tasks, task.Sound
  balance : t.registered = t.released + t.pending
  issued : ∀ operation ∈ t.accepted, ∃ i task, t.lookup operation.task = some i ∧
    t.tasks[i]? = some task ∧ task.Issued operation.generation
  nodup : t.accepted.Nodup
  ledger : t.accepted.reverse =
    t.handled.reverse.map Prod.fst ++ t.events.toList.map Completion.operation

theorem countP_modify {α : Type} (q : α → Bool) (f : α → α) {l : List α} {a : α}
    (h : l[i]? = some a) :
    (l.modify i f).countP q + (q a).toNat = l.countP q + (q (f a)).toNat := by
  induction l generalizing i with
  | nil => simp at h
  | cons b l ih =>
    cases i with
    | zero =>
      obtain rfl : b = a := by simpa using h
      cases hb : q b <;> cases hf : q (f b) <;> simp [hb, hf]
    | succ i =>
      have hrest := ih (i := i) (by simpa using h)
      rw [modify_succ_cons, countP_cons, countP_cons]
      omega

namespace Booked

variable {t : Session H} (h : Booked t)

include h

variable {task : Task H}

theorem sound_of_getElem? (hi : t.tasks[i]? = some task) : task.Sound :=
  h.sound task (mem_of_getElem? hi)

variable {f : Task H → Task H}

theorem update {i : ℕ} (hi : t.tasks[i]? = some task)
    (hsnd : (f task).Sound) (hiss : ∀ g, task.Issued g → (f task).Issued g)
    {registered released : ℕ} (hbal : registered + t.released + task.request.pending.toNat =
      t.registered + released + (f task).request.pending.toNat) :
    Booked { t with tasks := t.tasks.modify i f, registered, released } := by
  refine ⟨?_, ?_, ?_, h.nodup, h.ledger⟩
  · intro task' htask'
    obtain ⟨j, hj⟩ := mem_iff_getElem?.mp htask'
    rw [getElem?_modify] at hj
    obtain ⟨task₀, hj₀, rfl⟩ := map_eq_some_iff.mp hj
    by_cases hij : i = j
    · subst hij
      rw [hi, some_inj] at hj₀
      subst hj₀
      rwa [if_pos rfl]
    · rw [if_neg hij]
      exact h.sound_of_getElem? hj₀
  · have hcnt := countP_modify (fun task : Task H => task.request.pending) f hi
    have hbooks := h.balance
    unfold pending at hbooks ⊢
    simp only
    omega
  · intro op hop
    obtain ⟨j, task₀, hlook, hj, hg⟩ := h.issued op hop
    refine ⟨j, if i = j then f task₀ else task₀, ?_, ?_, ?_⟩
    · unfold Session.lookup at hlook ⊢
      simpa using hlook
    · simp [getElem?_modify, hj]
    split_ifs with hij
    · subst hij
      rw [hi, some_inj] at hj
      subst hj
      exact hiss _ hg
    · exact hg

theorem modify (hi : t.tasks[i]? = some task)
    (hsnd : (f task).Sound) (hreq : (f task).request = task.request) : Booked (t.modify i f) := by
  refine h.update hi hsnd (fun g hg => ?_) (by rw [hreq])
  unfold Task.Issued at hg ⊢
  rwa [hreq]

theorem release (hi : t.tasks[i]? = some task)
    (hsnd : (f task).Sound) (hreq : (f task).request = task.request.release) : Booked { t with
      tasks := t.tasks.modify i f
      released := t.released + (t.tasks[i]?).elim 0 fun task => task.request.releases } := by
  refine h.update hi hsnd (fun g hg => ?_) ?_
  · unfold Task.Issued
    rw [hreq, Request.release_generation, release_pending]
    exact hg.imp_right fun hlast => ⟨hlast.1, .inl rfl⟩
  · rw [hreq, release_pending, hi]
    unfold Request.releases
    cases hpend : task.request.pending <;> simp [hpend, Nat.add_assoc]

theorem take {events : Library.Ring Completion} (hpop : t.events.pop = some (event, events))
    (delivered : Bool) :
    Booked { t with events, handled := (event.operation, delivered) :: t.handled } := by
  refine ⟨h.sound, h.balance, h.issued, h.nodup, ?_⟩
  rw [h.ledger, Library.Ring.toList_pop hpop]
  simp

end Booked

theorem treeStable_booked : TreeStable (Booked : Session H → Prop) where
  finish {t} i outcome hout h := by
    cases hi : t.tasks[i]? with
    | none =>
      have hsame : t.finishBody i outcome = t := by
        unfold Session.finishBody
        rw [modify_eq_self (by simpa using hi), hi]
        rfl
      rwa [hsame]
    | some task =>
      exact h.release hi (sound_finishBody (h.sound_of_getElem? hi).queued hout)
        (task.finishBody_eq outcome).2.1
  conclude hi hjoin h := h.modify hi ((h.sound_of_getElem? hi).conclude hjoin) rfl
  error {t} i text h := by
    cases hi : t.tasks[i]? with
    | none =>
      have hsame : (t.modify i fun task => { task with error := some text }) = t := by
        unfold Session.modify
        rw [modify_eq_self (by simpa using hi)]
      rwa [hsame]
    | some task =>
      have hsnd := h.sound_of_getElem? hi
      exact h.modify hi ⟨hsnd.ready, hsnd.pending, hsnd.mode, hsnd.queued, hsnd.outcome⟩ rfl

/-! ## Completions -/

section Calls

variable {t : Session H}

/-- A completion is rejected, or it is queued for the pending request of its generation. -/
theorem Session.complete_cases (t : Session H) (operation : OperationId) (error : Option String)
    (result : Option Value) (read : Bool) :
    t.complete operation error result read = (false, t) ∨
      ∃ i task, t.lookup operation.task = some i ∧ t.tasks[i]? = some task ∧
        task.asyncRead = read ∧ task.request.pending = true ∧ task.request.queued = false ∧
        task.request.generation = operation.generation ∧ t.events.count < t.events.capacity ∧
        t.complete operation error result read = (true, { t with
          events := t.events.push ⟨operation, error, result⟩
          tasks := t.tasks.modify i fun task =>
            { task with request := { task.request with queued := true } }
          accepted := operation :: t.accepted }) := by
  unfold complete
  split
  · exact .inl rfl
  rename_i i task hfound
  obtain ⟨j, hlook, hj⟩ := bind_eq_some_iff.mp hfound
  obtain ⟨task', htask, hpair⟩ := map_eq_some_iff.mp hj
  obtain ⟨rfl, rfl⟩ := Prod.mk.injEq .. ▸ hpair
  split
  · exact .inl rfl
  rename_i hacc
  simp only [not_or, ne_eq, not_not, Bool.not_eq_false, Bool.not_eq_true] at hacc
  obtain ⟨hread, hpend, hque, hgen, hfull⟩ := hacc
  exact .inr ⟨j, task', hlook, htask, hread, hpend, hque, hgen,
    lt_of_le_of_ne t.events.bound hfull, rfl⟩

theorem booked_complete (h : Booked t) (op : OperationId) (error : Option String)
    (res : Option Value) (read : Bool) : Booked (t.complete op error res read).2 := by
  rcases t.complete_cases op error res read with heq |
    ⟨i, task, hlook, hi, -, hpend, hque, hgen, hroom, heq⟩
  · rw [heq]
    exact h
  rw [heq]
  have hsnd := h.sound_of_getElem? hi
  have hupdate : Booked (t.modify i fun task =>
      { task with request := { task.request with queued := true } }) := by
    refine h.update hi ⟨hsnd.ready, hsnd.pending, hsnd.mode, fun _ => hpend, hsnd.outcome⟩ ?_ rfl
    exact fun g hg => hg.imp_right fun hlast => ⟨hlast.1, .inr rfl⟩
  refine ⟨hupdate.sound, hupdate.balance, ?_, nodup_cons.mpr ⟨?_, h.nodup⟩, ?_⟩
  · intro op' hmem
    rcases mem_cons.mp hmem with rfl | hmem
    · refine ⟨i, { task with request := { task.request with queued := true } }, ?_, ?_, ?_⟩
      · unfold Session.lookup at hlook ⊢
        simpa using hlook
      · simp [hi]
      · exact .inr ⟨hgen.symm, .inr rfl⟩
    · exact hupdate.issued op' hmem
  · intro hmem
    -- an op that was accepted is past, queued or taken
    obtain ⟨j, task', hlook', hj, hg⟩ := h.issued op hmem
    obtain rfl : i = j := some_inj.mp (hlook.symm.trans hlook')
    obtain rfl : task = task' := some_inj.mp (hi.symm.trans hj)
    rcases hg with hlt | ⟨-, hdone | hdone⟩
    · omega
    · cases hpend.symm.trans hdone
    · cases hque.symm.trans hdone
  · simp only [reverse_cons]
    rw [h.ledger, t.events.toList_push _ hroom]
    simp

/-! ## Deliveries -/

/-- The task of an operation, while its request of that generation is pending. -/
def Session.addressee (t : Session H) (operation : OperationId) : Option (ℕ × Task H) :=
  ((t.lookup operation.task).bind fun i => (t.tasks[i]?).map fun task => (i, task)).filter
    fun found => found.2.request.pending && found.2.request.generation == operation.generation

/-- A task whose request was answered. -/
def Task.answered (event : Completion) (task : Task H) : Task H :=
  { Task.deliver event task with request := task.request.release }

theorem Session.addressee_eq_some {op : OperationId} {task : Task H} :
    t.addressee op = some (i, task) ↔ t.lookup op.task = some i ∧
      t.tasks[i]? = some task ∧ task.request.pending = true ∧
      task.request.generation = op.generation := by
  unfold addressee
  rw [filter_eq_some_iff, bind_eq_some_iff]
  constructor
  · rintro ⟨⟨j, hlook, hj⟩, hpend⟩
    obtain ⟨task', htask, hpair⟩ := map_eq_some_iff.mp hj
    obtain ⟨rfl, rfl⟩ := Prod.mk.injEq .. ▸ hpair
    exact ⟨hlook, htask, by simpa using hpend⟩
  · rintro ⟨hlook, htask, hpend⟩
    exact ⟨⟨i, hlook, by simp [htask]⟩, by simpa using hpend⟩

/-- A task whose request was answered, in its session. -/
def Session.answer (t : Session H) (event : Completion) (i : ℕ) : Session H :=
  { t with
    tasks := t.tasks.modify i (Task.answered event)
    released := t.released + (t.tasks[i]?).elim 0 fun task => task.request.releases
    handled := (event.operation, true) :: t.handled }

/-- An event without an addressee is dropped; the others are answered. -/
theorem Session.deliver_cases (t : Session H) (event : Completion) :
    (t.addressee event.operation = none ∧
      t.deliver event = { t with handled := (event.operation, false) :: t.handled }) ∨
    ∃ i task, t.addressee event.operation = some (i, task) ∧ t.deliver event =
        if ((task.answered event).execution.any fun execution => execution.error.isSome) = true then
          (((t.answer event i).finishBody i .trapped).cancelBelow (i + 1) false).settle
        else (t.answer event i).modify i fun task => { task with status := .ready } := by
  unfold addressee deliver
  split
  · rename_i hnone
    rw [hnone]
    exact .inl ⟨rfl, rfl⟩
  rename_i i task hfound
  rw [hfound, filter_some]
  obtain ⟨j, -, hj⟩ := bind_eq_some_iff.mp hfound
  obtain ⟨task', htask, hpair⟩ := map_eq_some_iff.mp hj
  obtain ⟨rfl, rfl⟩ := Prod.mk.injEq .. ▸ hpair
  by_cases hstale : task'.request.pending = false ∨
      task'.request.generation ≠ event.operation.generation
  · rw [if_neg (by simpa [imp_iff_not_or] using hstale), if_pos hstale]
    exact .inl ⟨rfl, rfl⟩
  · rw [if_pos (by simpa using hstale), if_neg hstale]
    refine .inr ⟨j, task', rfl, ?_⟩
    have hans : releaseRequest (modify
        { t with handled := (event.operation, true) :: t.handled } j (Task.deliver event)) j =
        t.answer event j := by
      unfold releaseRequest modify answer
      simp only [modify_modify_eq, getElem?_modify_eq, htask]
      rfl
    have hexec : ((t.answer event j).tasks[j]?).bind execution =
        (task'.answered event).execution := by simp [answer, htask]
    simp only
    rw [hans, hexec]

theorem Task.answered_eq (event : Completion) (task : Task H) :
    (task.answered event).request = task.request.release ∧
      (task.answered event).status = task.status ∧ (task.answered event).outcome = task.outcome ∧
      (task.answered event).asyncRead = task.asyncRead :=
  ⟨rfl, rfl, rfl, rfl⟩

/-- A task whose request was answered goes on, or its execution has an error. -/
theorem Task.Sound.answered {task : Task H} (h : task.Sound) (event : Completion)
    (hpend : task.request.pending) :
    (task.answered event).Sound ∧ ∃ e ∈ (task.answered event).execution,
      Running e ∨ (e.status = .trapped ∧ e.error ≠ none) := by
  obtain ⟨hwait, e, he, hawt⟩ := h.pending hpend
  obtain ⟨hmode, -, hend⟩ := @answer_sound H e event _ hawt _ rfl
  have hexec : (task.answered event).execution =
      some (if task.asyncRead then e.completeRead event.result
        else e.completePrint event.error) := by
    show task.execution.map _ = _
    rw [he]
    rfl
  refine ⟨⟨?_, ?_, ?_, ?_, h.outcome⟩, _, hexec, hend⟩
  · intro hready
    rw [(task.answered_eq event).2.1, hwait] at hready
    cases hready
  · intro hpend'
    rw [(task.answered_eq event).1, release_pending] at hpend'
    cases hpend'
  · intro e' he'
    rw [hexec] at he'
    obtain rfl := some_inj.mp he'
    exact hmode.trans (h.mode e he)
  · intro hque
    rw [(task.answered_eq event).1, Request.release_queued h.queued] at hque
    cases hque

theorem Booked.deliver (h : Booked t) {events : Library.Ring Completion}
    (hpop : t.events.pop = some (event, events)) : Booked (deliver { t with events } event) := by
  rcases deliver_cases { t with events } event with ⟨-, heq⟩ | ⟨i, task, haddr, heq⟩
  · rw [heq]
    exact h.take hpop false
  rw [heq]
  obtain ⟨-, hi, hpend, -⟩ := addressee_eq_some.mp haddr
  have htake := h.take hpop true
  obtain ⟨hsnd, e, he, hend⟩ := (htake.sound_of_getElem? hi).answered event hpend
  have hans : Booked (answer { t with events } event i) :=
    htake.release hi hsnd (task.answered_eq event).1
  split
  · exact treeStable_booked.settle (treeStable_booked.fail i rfl hans)
  rename_i herr
  have hrun : Running e := by
    refine hend.resolve_right fun htrap => herr ?_
    rw [he]
    exact isSome_iff_ne_none.mpr htrap.2
  have hplace : (answer { t with events } event i).tasks[i]? = some (task.answered event) := by
    simp only [answer, getElem?_modify_eq]
    rw [hi]
    rfl
  refine hans.modify hplace ⟨?_, ?_, hsnd.mode, hsnd.queued, hsnd.outcome⟩ rfl
  · exact fun _ => ⟨release_pending _, e, he, hrun⟩
  intro hpend'
  rw [show (task.answered event).request.pending = false from release_pending _] at hpend'
  cases hpend'

theorem Booked.deliverCompletions (h : Booked t) (n : ℕ) : Booked (t.deliverCompletions n) := by
  induction n generalizing t with
  | zero => exact h
  | succ n ih =>
    unfold deliverCompletions
    split
    · exact h
    · rename_i hpop
      exact ih (h.deliver hpop)

/-! ## Running -/

theorem Session.nextReady_spec (n : ℕ) (t : Session H) :
    (∃ cursor, (t.nextReady n).2 = { t with cursor }) ∧
      ∀ i, (t.nextReady n).1 = some i → ∃ task, t.tasks[i]? = some task ∧ task.status = .ready := by
  induction n generalizing t with
  | zero => exact ⟨⟨t.cursor, rfl⟩, fun i hi => absurd hi (some_ne_none i).symm⟩
  | succ n ih =>
    unfold nextReady
    simp only
    split
    · rename_i hany
      refine ⟨⟨_, rfl⟩, fun i hi => ?_⟩
      obtain rfl := some_inj.mp hi
      obtain ⟨task, htask, hready⟩ := (any_eq_true _ _).mp hany
      exact ⟨task, htask, by simpa using hready⟩
    · obtain ⟨⟨cursor, hcur⟩, hfound⟩ := ih { t with cursor := (t.cursor + 1) % t.tasks.length }
      exact ⟨⟨cursor, hcur⟩, hfound⟩

/-- A task with the execution that an instruction has left. -/
def Task.advanced (e : Execution (TaskHost H)) (task : Task H) : Task H :=
  { task with execution := some e, request := e.host.request }

/-- A task was advanced. -/
def Session.advanced (t : Session H) (i : ℕ) (e : Execution (TaskHost H)) : Session H :=
  { t with tasks := t.tasks.modify i (Task.advanced e), registered := e.host.registered }

theorem outcomeOf_terminal (status : Status) : (outcomeOf status).terminal = true := by
  cases status <;> rfl

/-- A ready task executes an instruction, and then it waits, goes on or ends. -/
theorem Session.runTask_cases (S : Services H) (p : Program) {i : ℕ} {task : Task H}
    (hi : t.tasks[i]? = some task) {e : Execution (TaskHost H)} (he : e ∈ task.execution)
    {e' : Execution (TaskHost H)} (he' : e' = advance S.forTask p 1
      { e with host := { e.host with request := task.request, registered := t.registered } }) :
    (e'.status = .waiting ∧ t.runTask S p i =
      (t.advanced i e').modify i fun task => { task with status := .waiting }) ∨
    (e'.status = .yielded ∧ t.runTask S p i = t.advanced i e') ∨
    (e'.status ≠ .waiting ∧ t.runTask S p i = settle (if outcomeOf e'.status ≠ .completed then
        ((t.advanced i e').finishBody i (outcomeOf e'.status)).cancelBelow (i + 1) false
      else (t.advanced i e').finishBody i (outcomeOf e'.status))) := by
  have hfound : ((t.tasks[i]?).bind fun task =>
      task.execution.map fun execution => (task, execution)) = some (task, e) := by
    rw [hi, bind_some, show task.execution = some e from he]
    rfl
  have hadv : t.advanceTask S p i = (t.advanced i e', some e'.status) := by
    unfold advanceTask
    rw [hfound, he']
    rfl
  unfold runTask
  rw [hadv]
  cases hstat : e'.status with
  | waiting => exact .inl ⟨rfl, rfl⟩
  | yielded => exact .inr (.inl ⟨rfl, rfl⟩)
  | _ => exact .inr (.inr ⟨Status.noConfusion, rfl⟩)

theorem Booked.runTask (S : Services H) (p : Program) (h : Booked t) {task : Task H}
    (hi : t.tasks[i]? = some task) (hready : task.status = .ready) : Booked (t.runTask S p i) := by
  have hsnd := h.sound_of_getElem? hi
  obtain ⟨hfree, e, he, -⟩ := hsnd.ready hready
  obtain ⟨e', he'⟩ : ∃ e', e' = advance S.forTask p 1
    { e with host := { e.host with request := task.request, registered := t.registered } } :=
      ⟨_, rfl⟩
  obtain ⟨hmode, hyld, hhost⟩ := advance_sound S p hsnd he hready t.registered he'
  have hque : task.request.queued = false := by
    rw [← Bool.not_eq_true]
    exact fun hque => Bool.false_ne_true (hfree.symm.trans (hsnd.queued hque))
  have hque' : e'.host.request.queued = false := by
    rcases hhost with ⟨hreq, -⟩ | ⟨-, ⟨v, hreq⟩, -⟩
    · rw [hreq, hque]
    · rw [hreq]
      exact hque
  have hmode' : ∀ e ∈ some e', e.mode = taskMode task.asyncRead := by
    intro e he
    obtain rfl := some_inj.mp he
    exact hmode
  have hiss : ∀ g, task.Issued g → (task.advanced e').Issued g := by
    intro g hg
    unfold Task.Issued Task.advanced
    rcases hhost with ⟨hreq, -⟩ | ⟨-, ⟨v, hreq⟩, -⟩
    · rw [hreq]
      exact hg
    · rw [hreq]
      exact .inl (Nat.lt_succ_of_le (hg.elim Nat.le_of_lt fun hlast => hlast.1.le))
  have hcnt : e'.host.registered + t.released + task.request.pending.toNat =
      t.registered + t.released + e'.host.request.pending.toNat := by
    rcases hhost with ⟨hreq, hregd⟩ | ⟨-, ⟨v, hreq⟩, hregd⟩
    · rw [hreq, hregd]
    · rw [hreq, hregd, hfree, Bool.toNat_false, Bool.toNat_true]
      omega
  -- an execution that does not wait has not registered anything
  have hidle : e'.status ≠ .waiting → e'.host.request.pending = false := by
    intro hnot
    rw [(hhost.resolve_right fun hregd => hnot hregd.1.status).1, hfree]
  rcases t.runTask_cases S p hi he he' with ⟨-, heq⟩ | ⟨hstat, heq⟩ | ⟨hstat, heq⟩
  · rw [heq]
    unfold Session.advanced Session.modify
    simp only [modify_modify_eq]
    refine h.update hi ⟨?_, ?_, hmode', ?_, hsnd.outcome⟩ ?_ hcnt
    · exact fun hready => TaskStatus.noConfusion hready
    · intro hpend
      refine ⟨rfl, e', rfl, ?_⟩
      rcases hhost with ⟨hreq, -⟩ | ⟨hawt, -⟩
      · change e'.host.request.pending = true at hpend
        rw [hreq, hfree] at hpend
        cases hpend
      · exact hawt
    · exact fun hque => absurd hque (by simp [Task.advanced, hque'])
    · exact hiss
  · rw [heq]
    have hnot : e'.status ≠ .waiting := hstat ▸ Status.noConfusion
    refine h.update hi ⟨?_, ?_, hmode', ?_, hsnd.outcome⟩ hiss hcnt
    · exact fun _ => ⟨hidle hnot, e', rfl, hyld hstat⟩
    · exact fun hpend => absurd hpend (by simp [Task.advanced, hidle hnot])
    · exact fun hque => absurd hque (by simp [Task.advanced, hque'])
  · rw [heq]
    have hfin : Booked ((t.advanced i e').finishBody i (outcomeOf e'.status)) := by
      have hbefore : (t.advanced i e').tasks[i]? = some (task.advanced e') := by
        simp [Session.advanced, hi]
      obtain ⟨-, hreq, -⟩ := (task.advanced e').finishBody_eq (outcomeOf e'.status)
      unfold Session.finishBody
      rw [hbefore]
      unfold Session.advanced
      simp only [modify_modify_eq]
      refine h.update hi ?_ ?_ ?_
      · refine sound_finishBody ?_ (outcomeOf_terminal _)
        exact fun hque => absurd hque (by simp [Task.advanced, hque'])
      · intro g hg
        unfold Task.Issued
        simp only [Function.comp_apply]
        rw [hreq, Request.release_generation, release_pending]
        exact (hiss g hg).imp_right fun hlast => ⟨hlast.1, .inl rfl⟩
      · simp only [Function.comp_apply, Option.elim]
        rw [hreq, release_pending]
        simp only [Task.advanced, Request.releases, hidle hstat] at hcnt ⊢
        simpa using hcnt
    refine treeStable_booked.settle ?_
    split
    · exact treeStable_booked.cancelBelow _ _ hfin
    · exact hfin

/-- What running a ready task keeps, the dispatch loop keeps; the search only moves the cursor. -/
theorem Session.dispatchTasks_induction {P : Session H → Prop} (S : Services H) (p : Program)
    (hcur : ∀ {t : Session H} {cursor : ℕ}, P t → P { t with cursor })
    (hrun : ∀ {t : Session H} {i : ℕ} {task : Task H}, P t → t.tasks[i]? = some task →
      task.status = .ready → P (t.runTask S p i)) (budget : ℕ) (h : P t) :
    P (dispatchTasks S p budget t) := by
  induction budget generalizing t with
  | zero => exact h
  | succ budget ih =>
    obtain ⟨⟨cursor, hmoved⟩, hready⟩ := nextReady_spec t.tasks.length t
    unfold dispatchTasks
    split
    · rename_i hnext
      rw [hnext] at hmoved
      subst hmoved
      exact hcur h
    rename_i i _ hnext
    obtain ⟨task, hi, hstat⟩ := hready i (by rw [hnext])
    rw [hnext] at hmoved
    subst hmoved
    exact ih (hrun (hcur h) hi hstat)

theorem Booked.dispatchTasks (S : Services H) (p : Program) (h : Booked t) (budget : ℕ) :
    Booked (dispatchTasks S p budget t) :=
  dispatchTasks_induction S p (fun h => ⟨h.sound, h.balance, h.issued, h.nodup, h.ledger⟩)
    (fun h hi hstat => h.runTask S p hi hstat) budget h

/-- The deadlines are over tasks that may be cancelled on the way. -/
theorem TreeStable.expire {P : Session H → Prop} (hP : TreeStable P) (now : ℕ) (h : P t) :
    P (t.expire now) := by
  refine foldlRecOn _ _ h fun t h i _ => ?_
  split
  · split
    · exact hP.cancelBelow _ _ h
    · exact h
  · exact h

theorem Booked.pump (S : Services H) (p : Program) (h : Booked t) (now budget : ℕ) :
    Booked (t.pump S p now budget).2 := by
  unfold Session.pump
  split
  · exact h
  have hnow : Booked { t with now } := ⟨h.sound, h.balance, h.issued, h.nodup, h.ledger⟩
  exact (treeStable_booked.settle (treeStable_booked.expire now
    (hnow.deliverCompletions _))).dispatchTasks S p budget

/-! ## Spawning -/

theorem Session.spawn_cases (t : Session H) (parent : TaskId) (fn : Function)
    (args : List Value) (deadline : ℕ) :
    (t.spawn parent fn args deadline).2 = t ∨ ∃ task : Task H, (t.spawn parent fn args deadline).2 =
          { t with tasks := t.tasks ++ [task] } ∧ task.Sound ∧ task.request.pending = false ∧
        task.status = .ready ∧ task.outcome = .invalid ∧
        ((task.parent = 0) ∨ ∃ i upper, task.parent = i + 1 ∧ t.tasks[i]? = some upper ∧
          (upper.status = .ready ∨ upper.status = .waiting) ∧
          task.deadline ≤ upper.deadline) := by
  unfold spawn
  simp only
  split
  · exact .inl rfl
  rename_i hadmit
  split
  · exact .inl rfl
  rename_i herr
  refine .inr ⟨_, rfl, ⟨?_, ?_, ?_, ?_, ?_⟩, rfl, rfl, rfl, ?_⟩
  · refine fun _ => ⟨rfl, _, rfl, ?_, herr, ?_⟩
    · exact Execution.framePush_status _ _ _
    · exact Execution.framePush_flags _ _ _
  · exact fun hpend => Bool.noConfusion hpend
  · intro e he
    obtain rfl := some_inj.mp he
    exact Execution.framePush_mode _ _ _
  · exact fun hque => Bool.noConfusion hque
  · exact ⟨TaskStatus.noConfusion, TaskStatus.noConfusion⟩
  rw [not_or, Bool.not_eq_false, Bool.or_eq_true] at hadmit
  rcases hadmit.2 with hroot | hchild
  · left
    simpa using (Bool.and_eq_true_iff.mp hroot).2
  right
  obtain ⟨upper, hfound, hlive⟩ := (any_eq_true _ _).mp hchild
  obtain ⟨i, hlook, hi⟩ := bind_eq_some_iff.mp hfound
  refine ⟨i, upper, ?_, hi, by simpa using hlive, ?_⟩
  · unfold lookup at hlook
    split_ifs at hlook with hslot
    have := some_inj.mp hlook
    simp only
    omega
  · rw [hfound]
    exact min_le_left _ _

theorem Booked.spawn (h : Booked t) (parent : TaskId) (fn : Function) (args : List Value)
    (deadline : ℕ) : Booked (t.spawn parent fn args deadline).2 := by
  rcases t.spawn_cases parent fn args deadline with heq | ⟨task, heq, hsnd, hfree, -⟩
  · rw [heq]
    exact h
  rw [heq]
  refine ⟨?_, ?_, ?_, h.nodup, h.ledger⟩
  · intro task' htask'
    rcases List.mem_append.mp htask' with hold | hnew
    · exact h.sound task' hold
    · rw [List.mem_singleton.mp hnew]
      exact hsnd
  · have hbal := h.balance
    unfold pending at hbal ⊢
    simpa [hfree] using hbal
  · intro op hop
    obtain ⟨i, task', hlook, hi, hg⟩ := h.issued op hop
    refine ⟨i, task', ?_, ?_, hg⟩
    · unfold Session.lookup at hlook ⊢
      split_ifs at hlook with hslot
      rw [if_neg (by simp only [List.length_append]; omega)]
      exact hlook
    · exact List.getElem?_append_left (List.getElem?_eq_some_iff.mp hi).1 ▸ hi

theorem Booked.cancel (h : Booked t) (id : TaskId) : Booked (t.cancel id).2 := by
  unfold Session.cancel
  split
  · exact h
  · exact treeStable_booked.settle (treeStable_booked.cancelBelow _ _ h)

theorem Booked.call (S : Services H) (p : Program) (h : Booked t) (call : TaskCall) :
    Booked (t.call S p call) := by
  cases call with
  | spawn parent fn args deadline => exact h.spawn parent fn args deadline
  | pump now budget => exact h.pump S p now budget
  | complete op error => exact booked_complete h op error none false
  | completeRead op res => exact booked_complete h op none res true
  | cancel task => exact h.cancel task

theorem booked_createSession (template : H) (taskLimit eventLimit ident : ℕ) :
    Booked (createSession template taskLimit eventLimit ident) where
  sound _ h := absurd h not_mem_nil
  balance := rfl
  issued _ h := absurd h not_mem_nil
  nodup := nodup_nil
  ledger := rfl

theorem Booked.run (S : Services H) (p : Program) (h : Booked t) (calls : List TaskCall) :
    Booked (t.run S p calls) := by
  induction calls generalizing t with
  | nil => exact h
  | cons call calls ih => exact ih (h.call S p call)

/-! ## The contract -/

/-- The operations whose completions were delivered, the latest first. -/
def Session.delivered (t : Session H) : List OperationId := (t.handled.filter Prod.snd).map Prod.fst

/-- What happens to the first event of the queue, from any state of the loop that delivers. -/
structure DeliveryContract (t : Session H) : Prop where
  balance : t.registered = t.released + t.pending
  /-- It goes to the wait of its generation, which it ends.  The task has the answer and no request;
  it is ready again, with every other task as it was, or it ends as trapped. -/
  addressed : ∀ {event events}, t.events.pop = some (event, events) →
    ∀ {i task}, t.addressee event.operation = some (i, task) → task.request.queued = true ∧
      (∃ e ∈ task.execution, Awaits task.asyncRead e ∧
        ∃ e' ∈ (task.answered event).execution, e'.status ≠ .waiting) ∧
      (deliver { t with events } event).delivered = event.operation :: t.delivered ∧
      ((∀ e ∈ (task.answered event).execution, e.error = none) →
        (deliver { t with events } event).tasks =
          t.tasks.set i { task.answered event with status := .ready }) ∧
      ((∃ e ∈ (task.answered event).execution, e.error.isSome) →
        deliver { t with events } event =
          (((answer { t with events } event i).finishBody
          i .trapped).cancelBelow (i + 1) false).settle)
  /-- Without such a wait it leaves nothing but its record. -/
  discarded : ∀ {event events}, t.events.pop = some (event, events) →
    t.addressee event.operation = none → deliver { t with events } event =
      { t with events, handled := (event.operation, false) :: t.handled }
  /-- A task that was cancelled, has ended or joins its children has no wait. -/
  gone : ∀ {operation : OperationId} {i task}, t.lookup operation.task = some i →
    t.tasks[i]? = some task → task.terminal = true ∨ task.status = .joining →
    t.addressee operation = none

/-- What holds of the operations of a session. -/
structure OperationContract (t : Session H) : Prop where
  accepted_once : t.accepted.Nodup
  accepts : ∀ operation error result read, (t.complete operation error result read).1 = true →
    operation ∉ t.accepted ∧
      (t.complete operation error result read).2.accepted = operation :: t.accepted
  rejects : ∀ operation error result read, (t.complete operation error result read).1 = false →
    (t.complete operation error result read).2 = t
  delivered_once : t.delivered.Nodup
  in_order : t.delivered.reverse.Sublist t.accepted.reverse
  delivers : ∀ now n, DeliveryContract (deliverCompletions n { t with now })
  balance : t.registered = t.released + t.pending

theorem treeStable_handled (handled : List (OperationId × Bool)) :
    TreeStable fun t : Session H => t.handled = handled where
  finish _ _ _ h := h
  conclude _ _ h := h
  error _ _ h := h

theorem Session.delivered_deliver {task : Task H}
    (h : t.addressee event.operation = some (i, task)) :
    (t.deliver event).delivered = event.operation :: t.delivered := by
  have hhandled : (t.deliver event).handled = (event.operation, true) :: t.handled := by
    rcases t.deliver_cases event with ⟨hnone, -⟩ | ⟨j, task', -, heq⟩
    · cases h.symm.trans hnone
    rw [heq]
    split
    · exact (treeStable_handled _).settle ((treeStable_handled _).fail j rfl rfl)
    · rfl
  unfold delivered
  rw [hhandled]
  rfl

theorem Session.deliver_of_trapped {task : Task H}
    (h : t.addressee event.operation = some (i, task))
    (htrap : ∃ e ∈ (task.answered event).execution, e.error.isSome) : t.deliver event =
      (((t.answer event i).finishBody i .trapped).cancelBelow (i + 1) false).settle := by
  rcases t.deliver_cases event with ⟨hnone, -⟩ | ⟨j, task', haddr, heq⟩
  · cases h.symm.trans hnone
  cases h.symm.trans haddr
  rw [heq, if_pos ((any_eq_true _ _).mpr htrap)]

theorem Session.tasks_deliver_of_ready {task : Task H}
    (h : t.addressee event.operation = some (i, task))
    (hready : ∀ e ∈ (task.answered event).execution, e.error = none) :
    (t.deliver event).tasks = t.tasks.set i { task.answered event with status := .ready } := by
  rcases t.deliver_cases event with ⟨hnone, -⟩ | ⟨j, task', haddr, heq⟩
  · cases h.symm.trans hnone
  cases h.symm.trans haddr
  have hnot : ¬ ((task.answered event).execution.any fun execution => execution.error.isSome) =
      true := by
    rintro htrap
    obtain ⟨e, he, herr⟩ := (any_eq_true _ _).mp htrap
    rw [hready e he] at herr
    cases herr
  rw [heq, if_neg hnot]
  show (t.tasks.modify i (Task.answered event)).modify i _ = _
  rw [modify_modify_eq, modify_eq_set_getElem?, (addressee_eq_some.mp h).2.1]
  rfl

theorem Booked.deliveryContract (h : Booked t) : DeliveryContract t where
  balance := h.balance
  addressed {event events} hpop {i task} haddr := by
    obtain ⟨hlook, hi, hpend, hgen⟩ := addressee_eq_some.mp haddr
    have hsnd := h.sound_of_getElem? hi
    refine ⟨?_, ?_, delivered_deliver haddr, tasks_deliver_of_ready haddr, deliver_of_trapped haddr⟩
    · -- the event is in the queue, so its operation was accepted
      have hmem : event.operation ∈ t.accepted := by
        rw [← mem_reverse, h.ledger, Library.Ring.toList_pop hpop]
        simp
      obtain ⟨j, task', hlook', hj, hg⟩ := h.issued _ hmem
      obtain rfl : i = j := some_inj.mp (hlook.symm.trans hlook')
      obtain rfl : task = task' := some_inj.mp (hi.symm.trans hj)
      rcases hg with hlt | ⟨-, hdone | hdone⟩
      · omega
      · cases hpend.symm.trans hdone
      · exact hdone
    · obtain ⟨-, e, he, hawt⟩ := hsnd.pending hpend
      obtain ⟨-, e', he', hend⟩ := hsnd.answered event hpend
      refine ⟨e, he, hawt, e', he', ?_⟩
      rcases hend with hrun | ⟨htrap, -⟩
      · exact hrun.not_waiting
      · exact htrap ▸ Status.noConfusion
  discarded {event events} _ hnone := by
    rcases deliver_cases { t with events } event with ⟨-, heq⟩ | ⟨i, task, hsome, -⟩
    · exact heq
    · have hcontra := hnone.symm.trans hsome
      cases hcontra
  gone {operation i task} hlook hi hgone := by
    rw [← not_isSome_iff_eq_none, isSome_iff_exists]
    rintro ⟨⟨j, task'⟩, haddr⟩
    obtain ⟨hlook', hj, hpend, -⟩ := addressee_eq_some.mp haddr
    obtain rfl : i = j := some_inj.mp (hlook.symm.trans hlook')
    obtain rfl : task = task' := some_inj.mp (hi.symm.trans hj)
    have hwait := ((h.sound_of_getElem? hi).pending hpend).1
    unfold terminal at hgone
    rw [hwait] at hgone
    exact hgone.elim (fun hterm => Bool.noConfusion hterm) TaskStatus.noConfusion

/-- Completions that were taken are taken in the order in which they were accepted. -/
theorem Booked.delivered_sublist (h : Booked t) :
    t.delivered.reverse.Sublist t.accepted.reverse := by
  have hfilt : t.delivered.Sublist (t.handled.map Prod.fst) := List.Sublist.map _ filter_sublist
  rw [h.ledger, map_reverse]
  exact (reverse_sublist.mpr hfilt).trans (sublist_append_left _ _)

/-- In every run of a session: a completion is accepted and delivered at most once for every
operation, in the same order and only to the wait of its generation; what comes too late is dropped,
what is rejected changes nothing, and the counts differ by the requests that are pending. -/
theorem operationContract_run (S : Services H) (p : Program) (template : H)
    (taskLimit eventLimit identity : ℕ) (calls : List TaskCall) :
    OperationContract ((createSession template taskLimit eventLimit identity).run S p calls) := by
  have h := (booked_createSession template taskLimit eventLimit identity).run S p calls
  generalize (createSession template taskLimit eventLimit identity).run S p calls = t at h
  have hsublist := h.delivered_sublist
  refine ⟨h.nodup, ?_, ?_, ?_, hsublist, ?_, h.balance⟩
  · intro operation error result read hacc
    have hbook := (booked_complete h operation error result read).nodup
    rcases t.complete_cases operation error result read with heq |
        ⟨i, task, -, -, -, -, -, -, -, heq⟩
    · rw [heq] at hacc
      cases hacc
    · rw [heq] at hbook ⊢
      exact ⟨(nodup_cons.mp hbook).1, rfl⟩
  · intro operation error result read hrej
    rcases t.complete_cases operation error result read with heq |
        ⟨i, task, -, -, -, -, -, -, -, heq⟩
    · rw [heq]
    · rw [heq] at hrej
      cases hrej
  · exact nodup_reverse.mp (hsublist.nodup (nodup_reverse.mpr h.nodup))
  · intro now n
    have hnow : Booked { t with now } := ⟨h.sound, h.balance, h.issued, h.nodup, h.ledger⟩
    exact (hnow.deliverCompletions n).deliveryContract

end Calls

end Panackelty.Vm
