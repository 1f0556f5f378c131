import Panackelty.Library.Ring
import Panackelty.Library.Sweep
import Panackelty.Vm.Execute

/-!
# `vm/tasks.c`: task sessions

A session runs executions as tasks of a tree.  A task whose body is over joins its children; one
that does not complete takes its children and its parent with it.  Waits are registered by a
callback of the execution, and their completions are queued in a ring and delivered by the next
pump.

Everything belongs to one thread and no callback of a session calls back into it, so the flag
`pumping` is never seen set and is left out.

* `Task`, `Session`: the state; `Session.accepted` and `Session.handled` record the completions.
* `finishBody`, `cancelBelow`, `settle`: the end of a task, downwards and upwards in the tree.
* `spawn`, `complete`, `cancel`, `pump`: the calls; `TaskCall`, `Session.run`: their sequences.
-/

namespace Panackelty.Vm

open Library (sweep)

variable {H : Type}

/-- `UINT64_MAX`; as a deadline, none. -/
def uint64Max : ℕ := 2 ^ 64 - 1

/-- `VMTaskStatus`. -/
inductive TaskStatus where
  | invalid | ready | waiting | joining | completed | trapped | exited | cancelled
  deriving DecidableEq, Repr

/-- The task has ended. -/
def TaskStatus.terminal : TaskStatus → Bool
  | .completed | .trapped | .exited | .cancelled => true
  | _ => false

/-- `VMTaskId`; slots are counted from one, and zero is no task. -/
structure TaskId where
  session : ℕ
  slot : ℕ
  deriving DecidableEq, Repr

/-- `VMOperationId`. -/
structure OperationId where
  task : TaskId
  generation : ℕ
  deriving DecidableEq, Repr

/-! ## Requests -/

/-- The wait that a task has registered. -/
structure Request where
  pending : Bool
  queued : Bool
  generation : ℕ
  input : Option Value

/-- What the execution of a task has for a host: its request, the count of its session, and the host
of its own virtual machine. -/
structure TaskHost (H : Type) where
  request : Request
  registered : ℕ
  base : H

/-- `register_request`. -/
def registerRequest (value : Value) (h : TaskHost H) : Except Failure Unit × TaskHost H :=
  if h.request.pending ∨ h.request.generation = uint64Max ∨ h.registered = sizeMax then
    (.error (some (fatal "task pending-operation limit reached")), h)
  else
    (.ok (), { h with
      request := { h.request with
        pending := true, generation := h.request.generation + 1, input := some value }
      registered := h.registered + 1 })

/-- A service of the virtual machine of a task. -/
def TaskHost.own {α : Type} (h : TaskHost H) (service : H → α × H) : α × TaskHost H :=
  ((service h.base).1, { h with base := (service h.base).2 })

/-- The services of a task: the callbacks for waits register a request. -/
def Services.forTask (S : Services H) : Services (TaskHost H) :=
  { S.within TaskHost.base TaskHost.own with
    readWait := registerRequest, printWait := registerRequest }

/-! ## State -/

/-- `Task`; it is at the place `slot - 1` of its session. -/
structure Task (H : Type) where
  execution : Option (Execution (TaskHost H))
  /-- The slot of the parent, or zero. -/
  parent : ℕ
  deadline : ℕ
  status : TaskStatus
  outcome : TaskStatus
  result : Option Value
  error : Option String
  exitStatus : ℕ
  request : Request
  asyncRead : Bool

/-- `terminal`. -/
def Task.terminal (task : Task H) : Bool := task.status.terminal

/-- `Completion`. -/
structure Completion where
  operation : OperationId
  error : Option String
  result : Option Value

/-- `VMTasks`. -/
structure Session (H : Type) where
  /-- The host of the template. -/
  template : H
  tasks : List (Task H)
  capacity : ℕ
  events : Library.Ring Completion
  cursor : ℕ
  identity : ℕ
  now : ℕ
  registered : ℕ
  released : ℕ
  /-- The operations whose completions were accepted, the latest first. -/
  accepted : List OperationId
  /-- The operations whose completions were taken from the queue, the latest first, and whether they
  were delivered. -/
  handled : List (OperationId × Bool)

/-- `vm_tasks_create`, for limits that are not zero. -/
def createSession (template : H) (taskLimit eventLimit identity : ℕ) : Session H where
  template := template
  tasks := []
  capacity := taskLimit
  events := .empty eventLimit
  cursor := 0
  identity := identity
  now := 0
  registered := 0
  released := 0
  accepted := []
  handled := []

/-- What `release_request` adds to the count of the session. -/
def Request.releases (request : Request) : ℕ := if request.pending then 1 else 0

/-- `release_request`, of the task itself. -/
def Request.release (request : Request) : Request :=
  if request.pending then { request with pending := false, queued := false, input := none }
  else request

/-- `finish_body`, of the task itself: what is kept of its execution depends on the outcome. -/
def Task.finishBody (outcome : TaskStatus) (task : Task H) : Task H :=
  let task := match task.execution with
    | none => task
    | some execution =>
      let task := match outcome with
        | .completed => { task with result := execution.result }
        | .exited => { task with exitStatus := execution.exitStatus }
        | .trapped => { task with error := execution.error.map Trap.error }
        | _ => task
      { task with execution := none }
  { task with
    result := if outcome = .completed then task.result else none
    request := task.request.release
    outcome
    status := .joining }

/-- The execution of a task gets its completion. -/
def Task.deliver (event : Completion) (task : Task H) : Task H :=
  { task with execution := task.execution.map fun execution =>
      if task.asyncRead then execution.completeRead event.result
      else execution.completePrint event.error }

namespace Session

variable (t : Session H)

/-- `lookup`, to the place of the task. -/
def lookup (id : TaskId) : Option ℕ :=
  if id.session ≠ t.identity ∨ id.slot = 0 ∨ t.tasks.length < id.slot then none
  else some (id.slot - 1)

/-- Changes the task at a place. -/
def modify (i : ℕ) (f : Task H → Task H) : Session H := { t with tasks := t.tasks.modify i f }

/-- `release_request`. -/
def releaseRequest (i : ℕ) : Session H :=
  { t with
    tasks := t.tasks.modify i fun task => { task with request := task.request.release }
    released := t.released + (t.tasks[i]?).elim 0 fun task => task.request.releases }

/-- `finish_body`. -/
def finishBody (i : ℕ) (outcome : TaskStatus) : Session H :=
  { t with
    tasks := t.tasks.modify i (Task.finishBody outcome)
    released := t.released + (t.tasks[i]?).elim 0 fun task => task.request.releases }

/-- The loop of `descendant`: from a slot up to an ancestor, or out of the tree. -/
def ascend (ancestor : ℕ) : (fuel slot : ℕ) → ℕ
  | 0, slot => slot
  | fuel + 1, slot =>
    if slot = 0 ∨ slot = ancestor then slot
    else ascend ancestor fuel ((t.tasks[slot - 1]?).elim 0 Task.parent)

/-- `descendant`; a parent has a lower slot than its child. -/
def descendant (i ancestor : ℕ) : Bool := t.ascend ancestor (i + 1) (i + 1) == ancestor

/-- A task that is cancelled does not join its children. -/
def cancelTask (i : ℕ) : Session H :=
  (t.finishBody i .cancelled).modify i fun task => { task with status := .cancelled }

/-- `cancel_tree` with the task itself, and `cancel_children` without. -/
def cancelBelow (root : ℕ) (itself : Bool) : Session H :=
  sweep (fun i t =>
    match t.tasks[i]? with
    | some task =>
      if (itself || i + 1 != root) && !task.terminal && t.descendant i root then t.cancelTask i
        else t
    | none => t) t.tasks.length t

/-- No child is still going on. -/
def joined (i : ℕ) : Bool :=
  (t.tasks.drop (i + 1)).all fun child => !(child.parent == i + 1 && !child.terminal)

/-- The first half of a visit of `settle`: a task that has been joined has its outcome. -/
def settleJoin (i : ℕ) : Session H :=
  match t.tasks[i]? with
  | some task =>
    if task.status = .joining ∧ t.joined i = true then
      t.modify i fun task => { task with status := task.outcome }
    else t
  | none => t

/-- The second half: a task that has not completed takes its parent with it. -/
def settleParent (i : ℕ) : Session H :=
  match t.tasks[i]? with
  | some task =>
    if task.terminal = true ∧ task.status ≠ .completed ∧ task.parent ≠ 0 then
      match t.tasks[task.parent - 1]? with
      | some parent =>
        if !parent.terminal && parent.outcome != .trapped && parent.outcome != .exited then
          Session.cancelBelow ((t.finishBody (task.parent - 1) .trapped).modify (task.parent - 1)
            fun parent => { parent with error := some "child task did not complete successfully" })
            task.parent false
        else t
      | none => t
    else t
  | none => t

/-- `settle`. -/
def settle : Session H :=
  sweep (fun i t => (t.settleJoin i).settleParent i) t.tasks.length t

/-! ## Calls -/

/-- `vm_tasks_cancel`. -/
def cancel (id : TaskId) : Bool × Session H :=
  match t.lookup id with
  | none => (false, t)
  | some i => (true, (t.cancelBelow (i + 1) true).settle)

/-- `complete`. -/
def complete (operation : OperationId) (error : Option String) (result : Option Value)
    (read : Bool) : Bool × Session H :=
  match (t.lookup operation.task).bind fun i => (t.tasks[i]?).map fun task => (i, task) with
  | none => (false, t)
  | some (i, task) =>
    if task.asyncRead ≠ read ∨ task.request.pending = false ∨ task.request.queued = true ∨
        task.request.generation ≠ operation.generation ∨ t.events.count = t.events.capacity then
      (false, t)
    else
      (true, { t with
        events := t.events.push ⟨operation, error, result⟩
        tasks := t.tasks.modify i fun task =>
          { task with request := { task.request with queued := true } }
        accepted := operation :: t.accepted })

/-- The body of the loop of `deliver_completions`. -/
def deliver (event : Completion) : Session H :=
  match (t.lookup event.operation.task).bind fun i => (t.tasks[i]?).map fun task => (i, task) with
  | none => { t with handled := (event.operation, false) :: t.handled }
  | some (i, task) =>
    if task.request.pending = false ∨ task.request.generation ≠ event.operation.generation then
      { t with handled := (event.operation, false) :: t.handled }
    else
      let t := { t with handled := (event.operation, true) :: t.handled }
      let t := (t.modify i (Task.deliver event)).releaseRequest i
      if ((t.tasks[i]?).bind Task.execution).any fun execution => execution.error.isSome then
        ((t.finishBody i .trapped).cancelBelow (i + 1) false).settle
      else t.modify i fun task => { task with status := .ready }

/-- `deliver_completions`, for as many events as are queued. -/
def deliverCompletions : ℕ → Session H → Session H
  | 0, t => t
  | n + 1, t =>
    match t.events.pop with
    | none => t
    | some (event, events) => deliverCompletions n (deliver { t with events } event)

/-- The loop of `vm_tasks_pump` over the deadlines. -/
def expire (now : ℕ) : Session H :=
  (List.range t.tasks.length).foldl (fun t i =>
    match t.tasks[i]? with
    | some task =>
      if task.terminal = false ∧ task.deadline ≠ uint64Max ∧ task.deadline ≤ now then
        t.cancelBelow (i + 1) true
      else t
    | none => t) t

/-- The round robin of `vm_tasks_pump`: the next ready task, in so many places. -/
def nextReady : ℕ → Session H → Option ℕ × Session H
  | 0, t => (none, t)
  | scans + 1, t =>
    let slot := t.cursor
    let t := { t with cursor := (t.cursor + 1) % t.tasks.length }
    if (t.tasks[slot]?).any fun task => task.status == .ready then (some slot, t)
    else nextReady scans t

section Running

variable (S : Services H) (p : Program)

/-- `vm_execution_advance` of a task, by one instruction. -/
def advanceTask (i : ℕ) : Session H × Option Status :=
  match (t.tasks[i]?).bind fun task => task.execution.map fun execution => (task, execution) with
  | none => (t, none)
  | some (task, execution) =>
    let host : TaskHost H :=
      { execution.host with request := task.request, registered := t.registered }
    let execution := advance S.forTask p 1 { execution with host }
    ({ t with
      tasks := t.tasks.modify i fun task =>
        { task with execution := some execution, request := execution.host.request }
      registered := execution.host.registered }, some execution.status)

/-- The outcome of a task whose execution has ended. -/
def outcomeOf : Status → TaskStatus
  | .completed => .completed
  | .exited => .exited
  | _ => .trapped

/-- The body of the dispatch loop of `vm_tasks_pump`. -/
def runTask (i : ℕ) : Session H :=
  match t.advanceTask S p i with
  | (t, none) => t
  | (t, some .waiting) => t.modify i fun task => { task with status := .waiting }
  | (t, some .yielded) => t
  | (t, some status) =>
    let t := t.finishBody i (outcomeOf status)
    let t := if outcomeOf status ≠ .completed then t.cancelBelow (i + 1) false else t
    t.settle

/-- The dispatch loop of `vm_tasks_pump`. -/
def dispatchTasks : (budget : ℕ) → Session H → Session H
  | 0, t => t
  | budget + 1, t =>
    match t.nextReady t.tasks.length with
    | (none, t) => t
    | (some i, t) => dispatchTasks budget (t.runTask S p i)

/-- `vm_tasks_pump`. -/
def pump (now budget : ℕ) : Bool × Session H :=
  if now < t.now then (false, t)
  else
    let t := { t with now }
    let t := t.deliverCompletions t.events.count
    (true, dispatchTasks S p budget (t.expire now).settle)

/-- `vm_tasks_spawn`. -/
def spawn (parent : TaskId) (function : Function) (arguments : List Value) (deadline : ℕ) :
    Except String TaskId × Session H :=
  let ancestor := (t.lookup parent).bind fun i => t.tasks[i]?
  let root := parent.session == 0 && parent.slot == 0
  let admitted := root || ancestor.any fun task => task.status == .ready || task.status == .waiting
  if t.tasks.length = t.capacity ∨ admitted = false then (.error "task admission rejected", t)
  else
    let request : Request := ⟨false, false, 0, none⟩
    let execution := create ⟨true, false, !function.isAsync, function.isAsync⟩ function arguments
      (⟨request, t.registered, t.template⟩ : TaskHost H)
    match execution.error with
    | some trap => (.error trap.error, t)
    | none =>
      (.ok ⟨t.identity, t.tasks.length + 1⟩, { t with
        tasks := t.tasks ++ [{
          execution := some execution
          parent := parent.slot
          deadline := (ancestor.elim deadline fun task => min task.deadline deadline)
          status := .ready
          outcome := .invalid
          result := none
          error := none
          exitStatus := 0
          request
          asyncRead := function.isAsync }] })

end Running

end Session

/-- The calls that change a session. -/
inductive TaskCall where
  | spawn (parent : TaskId) (function : Function) (arguments : List Value) (deadline : ℕ)
  | pump (now budget : ℕ)
  | complete (operation : OperationId) (error : Option String)
  | completeRead (operation : OperationId) (result : Option Value)
  | cancel (task : TaskId)

/-- What a call leaves of the session. -/
def Session.call (S : Services H) (p : Program) (t : Session H) : TaskCall → Session H
  | .spawn parent function arguments deadline => (t.spawn parent function arguments deadline).2
  | .pump now budget => (t.pump S p now budget).2
  | .complete operation error => (t.complete operation error none false).2
  | .completeRead operation result => (t.complete operation none result true).2
  | .cancel task => (t.cancel task).2

/-- A sequence of calls. -/
def Session.run (S : Services H) (p : Program) (t : Session H) (calls : List TaskCall) :
    Session H :=
  calls.foldl (Session.call S p) t

end Panackelty.Vm
