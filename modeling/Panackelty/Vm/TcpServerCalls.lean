import Panackelty.Library.Machine
import Panackelty.Vm.TcpServer

/-!
# `vm/tcp_server.c`: the calls of the TCP server

`poll` serves the sockets and `advance` the handlers.  Both look at the clock again and again, and
between two looks they do one thing for one client.  These are the steps of the server.

* `startHandler`, `runHandler`, `settleHandler`: a handler, from its start to its result.
* `poll`, `advance`, `stop`, `startMode`: the calls.
* `ServerStep`, `serverMachine`: the steps, and their runs.
-/

namespace Panackelty.Vm

open Execution Client

variable {B : Type}

/-- `vm_fake_read_result`. -/
def fakeReadResult (fail : Bool) : Value :=
  if fail then errorValue (textValue "fake I/O error")
  else okValue (.bytes (Str.asciiBytes "fake bytes"))

/-- The capabilities of the execution of a handler. -/
def Execution.equip (config : ServerConfig) (e : Execution (ServerHost B)) :
    Execution (ServerHost B) :=
  let e := if config.streaming && e.embedded && e.readWait then
    e.enable { e with serverReadEnabled := true } else e
  let e := if config.filesystemEnabled then e.enable { e with filesystemEnabled := true } else e
  let e := if config.consoleEnabled then e.enable { e with consoleEnabled := true } else e
  if config.outbound then e.enable { e with networkEnabled := true } else e

/-- The execution of a connection, if there is one, is attached to it. -/
def World.attachExecution (w : World) (connection : Option ℕ) (attached : Bool) : World :=
  connection.elim w fun a =>
    w.modifyConnection a fun connection => { connection with execution := attached }

namespace Server

variable (s : Server B)

/-- The state of a slot. -/
def stateOf (i : ℕ) : ClientState := (s.clients[i]?).elim .free state

/-! ## Handlers -/

section Handlers

variable (O : Os B) (S : Services B) (p : Program)

/-- The server handle of routed mode. -/
def handle : Option ℕ :=
  match s.config.context with
  | some (.httpState a) => some a
  | _ => none

/-- The connection of a handler with its writer, in routed mode. -/
def openConnection : Option ℕ × World :=
  if s.config.routed then
    (some s.world.connections.length, { s.world with
      writers := s.world.writers ++ [httpWriterCreate]
      connections := s.world.connections ++
        [⟨false, false, s.handle, false, s.world.writers.length, []⟩] })
  else (none, s.world)

/-- The value that a handler is called with. -/
def request (client : Client B) : Option ℕ → Value
  | some a => .httpConnection a
  | none => if s.config.streaming then s.config.context.getD .void else .bytes client.request

/-- The execution of a handler is there, and runs if it can read. -/
def equipHandler (i : ℕ) (connection : Option ℕ) (e : Execution (ServerHost B)) : Server B :=
  if s.config.streaming && !e.serverReadEnabled then
    (s.modifyClient i fun client =>
      { client with httpConnection := connection, request := [], execution := some e }).trap
      "VM trap: TCP server read capability setup failed"
  else s.modifyClient i fun client => setState .run
    { client with httpConnection := connection, request := [], execution := some e }

/-- `start_handler`. -/
def startHandler (i : ℕ) : Server B :=
  match s.clients[i]? with
  | none => s
  | some client =>
    let (connection, world) := s.openConnection
    let e := create ⟨true, false, false, true⟩ s.config.handler [s.request client connection]
      (⟨client.wait, connection, world, s.base⟩ : ServerHost B)
    let s := { s with world := world.attachExecution connection e.error.isNone }
    match e.error with
    | some error =>
      (s.modifyClient i fun client =>
        { client with httpConnection := connection, request := [] }).trap error.error
    | none => s.equipHandler i connection (e.equip s.config)

/-- The instruction of a handler in `tcp_server_advance`; a fake read is over before it. -/
def runHandler (i : ℕ) : Server B :=
  let s := match s.clients[i]? with
    | some client =>
      if client.wait.fakePending then
        (s.modifyClient i fun client =>
          { client with wait := { client.wait with fakePending := false } }).child i
          (completeRead (some (fakeReadResult client.wait.fakeFail)))
      else s
    | none => s
  s.child i (Vm.advance (S.forServer O) p 1)

/-- `handler_result`. -/
def handlerResult (i : ℕ) : Server B :=
  if s.config.routed then s.httpHandlerFinished O i false
  else
    match ((s.clients[i]?).bind execution).bind Execution.result with
    | some result =>
      if !fakeReadResultValid result then
        s.trap "VM trap: invalid TCP server handler result"
      else
        match result with
        | .variant name [payload] =>
          if name = Str.asciiBytes "Error" then
            if s.config.continuous then s.finishClient i (some "TCP handler returned an error")
            else (s.report i result).release i
          else
            match payload with
            | .bytes data =>
              if s.limits.responseLimit < data.length then
                s.finishClient i (some "TCP response limit exceeded")
              else s.modifyClient i fun client =>
                setState .write { client with response := some data, execution := none }
            | _ => s
        | _ => s
    | none => s.trap "VM trap: invalid TCP server handler result"

/-- The exit of a process that a routed handler asks for: the listeners stop. -/
def handlerExit (i exitStatus : ℕ) : Server B :=
  let s := { s with world := { s.world with
    runtime := { s.world.runtime with exitRequested := true, exitStatus } } }
  let completed := ((s.clients[i]?).bind s.writerOf).any fun found => found.2.completed
  let s := if completed then s.httpFinishExecution i else s.finishClient i (some "process exit")
  { s with world := httpRuntimeStop s.world }

/-- What `tcp_server_advance` makes of the status of a handler. -/
def settleHandler (i : ℕ) : Server B :=
  match (s.clients[i]?).bind fun client => client.execution.map fun e => (client, e) with
  | none => s
  | some (client, e) =>
    let failed := s.trap ((e.error.map Trap.error).getD "VM trap: TCP handler failed")
    if client.state ≠ .run then s
    else
      match e.status with
      | .yielded | .waiting => s
      | .completed => s.handlerResult O i
      | .exited =>
        if s.config.routed && s.world.runtime.available then s.handlerExit i e.exitStatus
          else failed
      | .trapped =>
        if s.config.routed && e.error.any fun error => error.fault == .request then
          s.httpHandlerFinished O i true
        else failed

/-! ## Readiness -/

/-- The host of the readiness callback, which has no client. -/
def readyHost : ServerHost B := ⟨⟨.free, 0, 0, false, false⟩, none, s.world, s.base⟩

/-- Works on the execution of the readiness callback. -/
def onReady (f : Execution (ServerHost B) → Execution (ServerHost B)) : Server B :=
  match s.ready.bind fun ready => ready.execution.map fun e => (ready, e) with
  | none => s
  | some (ready, e) =>
    let e := f { e with host := s.readyHost }
    { s with
      ready := some { ready with execution := some e }
      world := e.host.world
      base := e.host.base }

/-- `vm_execution_poll_network` of the readiness callback. -/
def pollReady : Server B :=
  let (polls, base) := O.network s.base
  onReady { s with base } (pollNetwork polls)

/-- The result of the readiness callback. -/
def readyResult (e : Execution (ServerHost B)) : Server B :=
  let invalid := "VM trap: invalid service readiness result"
  match e.result with
  | some (.variant name [payload]) =>
    match payload with
    | .str _ =>
      if name = Str.asciiBytes "Error" then closeAll { s with result := e.result, done := true }
      else s.trap invalid
    | .unit => if name = Str.asciiBytes "Ok" then { s with ready := none } else s.trap invalid
    | _ => s.trap invalid
  | _ => s.trap invalid

/-- The start of the readiness callback. -/
def startReady (ready : ServerReady B) : Server B :=
  let e := create ⟨true, false, false, false⟩ ready.handler [ready.context] s.readyHost
  match e.error with
  | some error => s.trap error.error
  | none =>
    let e := if ready.console then e.enable { e with consoleEnabled := true } else e
    { s with ready := some { ready with execution := some e } }

/-- `advance_ready`. -/
def advanceReady (budget : ℕ) : Server B :=
  match s.ready with
  | none => s
  | some ready =>
    let s := if ready.execution.isSome then s else s.startReady ready
    if s.done then s
    else
      let s := (s.pollReady O).onReady (Vm.advance (S.forServer O) p budget)
      match s.ready.bind ServerReady.execution with
      | none => s
      | some e =>
        match e.status with
        | .completed => s.readyResult e
        | .waiting | .yielded => s
        | _ => s.trap ((e.error.map Trap.error).getD "VM trap: readiness failed")

/-- `tcp_server_set_ready_handler`; the handler is a function of the program. -/
def setReadyHandler (handler : Function) (context : Value) (console : Bool) : Bool × Server B :=
  if s.done = true ∨ s.config.continuous = false ∨ s.admitted ≠ 0 ∨ s.readyHandler = true ∨
      handler.isAsync = false ∨ handler.pure = true ∨ handler.params.length ≠ 1 then (false, s)
  else (true, { s with ready := some ⟨handler, context, console, none⟩, readyHandler := true })

/-! ## Polling -/

/-- The loop of `tcp_server_poll` that fills the table, as far as it changes a client. -/
def survey (i : ℕ) : Server B :=
  if s.stateOf i = .free then s
  else
    let s := if s.config.routed then s.httpAttachResponse i else s
    if s.stateOf i = .run then
      let (polls, base) := O.network s.base
      (child { s with base } i (pollNetwork polls)).child i (Vm.advance (S.forServer O) p 0)
    else s

/-- The table for `poll`, when the first deadline is, and how long to wait. -/
structure PollTable where
  entries : List PollEntry
  expiry : ℕ
  wait : ℕ

/-- The same loop, as far as it fills the table. -/
def tabulate (i : ℕ) (table : PollTable) : PollTable :=
  match s.clients[i]? with
  | none => table
  | some client =>
    if client.state = .free then table
    else
      let table := { table with expiry := min table.expiry client.deadline }
      let respond := s.config.routed && client.response.isSome
      match client.state with
      | .start => { table with wait := 0 }
      | .run =>
        let waiting := client.execution.any fun e => e.status == .waiting
        let table := if !waiting || client.wait.fakePending then { table with wait := 0 } else table
        let table := if s.config.routed && client.fd.isSome then
          { table with entries := table.entries ++
              [⟨client.fd, false, respond, some i, client.outcome⟩] } else table
        if waiting && decide (1 < table.wait) then { table with wait := 1 } else table
      | state =>
        let reading := state == .read || state == .streamRead
        { table with entries := table.entries ++
            [⟨client.fd, reading, !reading || respond, some i, client.outcome⟩] }

/-- What is ready at a client; the write of a routed response comes first. -/
def serveClient (entry : PollEntry) (revents : Revents) (i fd : ℕ) (client : Client B) : Server B :=
  if client.fd ≠ entry.fd ∨ client.outcome ≠ entry.identity ∨ client.state = .free then s
  else
    let s := if s.config.routed && client.response.isSome && revents.output then
      s.writeClient O i fd else s
    if s.stateOf i = .free ∨ ((s.clients[i]?).bind Client.fd).isNone then s
    else if revents.invalid || (s.config.routed && revents.error) ||
        (s.config.routed && s.stateOf i == .run && revents.hangup) then
      s.finishClient i (some "TCP client socket failed")
    else
      match s.stateOf i with
      | .read => s.readClient O i fd
      | .streamRead => s.readStreamChunk O i fd
      | .interimWrite => s.writeInterim O i fd
      | .write => if s.config.routed then s else s.writeClient O i fd
      | _ => s

/-- The body of the loop of `tcp_server_poll` over what is ready; nothing is ready at a client
without a descriptor. -/
def serve (now : ℕ) (entry : PollEntry) (revents : Revents) : Server B :=
  if !revents.any then s
  else
    match entry.slot with
    | none =>
      if s.stopping then s
      else if revents.error || revents.hangup || revents.invalid then
        s.fail "TCP server listener failed"
      else s.acceptClient O now
    | some i =>
      match (s.clients[i]?).bind fun client => client.fd.map fun fd => (client, fd) with
      | none => s
      | some (client, fd) => s.serveClient O entry revents i fd client

/-- The end of `tcp_server_poll`. -/
def rotate : Server B := { s with nextIo := (s.nextIo + 1) % s.limits.concurrency }

/-- The loop of `tcp_server_poll` over what is ready. -/
def serveAll : List (PollEntry × Revents) → Server B → Server B
  | [], s => (s.rotate.deadlines O).2
  | (entry, revents) :: rest, s =>
    if s.done then (s.rotate.deadlines O).2
    else
      match s.deadlines O with
      | (none, s) => s
      | (some now, s) => serveAll rest (s.serve O now entry revents)

/-- The call of `poll`, and what follows from its failure. -/
def await (entries : List PollEntry) (wait : ℕ) : Option (List Revents) × Server B :=
  match O.poll entries wait s.base with
  | (.interrupted, base) => (none, { s with base })
  | (.failed, base) => (none, fail { s with base } "TCP server poll failed")
  | (.ready revents, base) => (some revents, { s with base })

/-- The table before any client has been looked at. -/
def emptyTable (maxWaitMs : ℕ) : PollTable where
  entries := if !s.stopping && (s.config.routed || decide (s.active < s.limits.concurrency)) then
    [⟨none, true, false, none, 0⟩] else []
  expiry := if s.stopping then s.drainDeadline
    else if s.config.continuous then sizeMax else s.admissionDeadline
  wait := min maxWaitMs (2 ^ 31 - 1)

/-- The order in which the clients are looked at. -/
def pollOrder : List ℕ :=
  (List.range s.limits.concurrency).map fun j => (s.nextIo + j) % s.limits.concurrency

/-- The clients, one after the other, with the table. -/
def fillTable (order : List ℕ) (table : PollTable) (s : Server B) : PollTable × Server B :=
  order.foldl (fun state i =>
    let s := state.2.survey O S p i
    (s.tabulate i state.1, s)) (table, s)

/-- `tcp_server_poll`. -/
def poll (maxWaitMs : ℕ) : Server B :=
  match s.deadlines O with
  | (none, s) => s
  | (some now, s) =>
    if s.ready.isSome then
      let s := s.pollReady O
      let s := if maxWaitMs = 0 then s else { s with base := (O.poll [] 1 s.base).2 }
      (s.deadlines O).2
    else
      let (table, s) := fillTable O S p s.pollOrder (s.emptyTable maxWaitMs) s
      match s.await O table.entries (min table.wait (table.expiry - now)) with
      | (none, s) => s
      | (some revents, s) =>
        match s.deadlines O with
        | (none, s) => s
        | (some _, s) =>
          if revents.all fun revents => !revents.any then s
          else serveAll O (table.entries.zip revents) s

/-! ## Advancing -/

/-- What a turn of the loop of `tcp_server_advance` comes to. -/
inductive Turn where
  | idle | ran (yielded : Bool) | over

/-- The body of the loop of `tcp_server_advance`. -/
def turn : Turn × Server B :=
  let i := s.nextHandler
  let s := { s with nextHandler := (s.nextHandler + 1) % s.limits.concurrency }
  let s := if s.stateOf i = .start then s.startHandler i else s
  if s.done then (.over, s)
  else if s.stateOf i ≠ .run then (.idle, s)
  else
    match (s.runHandler O S p i).deadlines O with
    | (none, s) => (.over, s)
    | (some _, s) =>
      let yielded := s.stateOf i == .run &&
        ((s.clients[i]?).bind execution).any fun e => e.status == .yielded
      (.ran yielded, s.settleHandler O i)

/-- The turns until a handler runs, for so many that may be idle. -/
def scan (again : ℕ → Server B → Server B) : ℕ → Server B → Server B
  | 0, s => (s.deadlines O).2
  | idle + 1, s =>
    match s.deadlines O with
    | (none, s) => s
    | (some _, s) =>
      match s.turn O S p with
      | (.idle, s) => scan again idle s
      | (.ran yielded, s) => again (if yielded then s.limits.concurrency else idle) s
      | (.over, s) => s

/-- The loop of `tcp_server_advance`. -/
def advanceLoop : (budget idle : ℕ) → Server B → Server B
  | 0, _, s => s
  | budget + 1, idle, s => scan O S p (advanceLoop budget) idle s

/-- `tcp_server_advance`. -/
def advance (budget : ℕ) : Server B :=
  match s.deadlines O with
  | (none, s) => s
  | (some _, s) =>
    if s.ready.isSome then if budget = 0 then s else s.advanceReady O S p budget
    else advanceLoop O S p budget s.limits.concurrency s

/-! ## Start and stop -/

/-- `tcp_server_stop`. -/
def stop : Server B :=
  match s.deadlines O with
  | (none, s) => s
  | (some now, s) => ((s.stopAt now).deadlines O).2

end Handlers

/-- A server that has just been made. -/
def fresh (config : ServerConfig) (world : World) (base : B) : Server B where
  config := config
  ready := none
  readyHandler := false
  succeeded := 0
  failed := 0
  clients := List.replicate serverConcurrency cleared
  outcomes := List.replicate serverClients none
  result := none
  admitted := 0
  active := 0
  nextIo := 0
  nextHandler := 0
  admissionDeadline := 0
  drainDeadline := 0
  listener := false
  stopping := false
  done := false
  error := none
  world := world
  base := base
  closed := []

/-- `tcp_server_start_mode`. -/
def startMode (O : Os B) (config : ServerConfig) (address : Value) (port : ℕ) (world : World)
    (base : B) : Server B :=
  match startCheck config.handler config.context address port config.limits config.streaming
    config.continuous with
  | .error (.trap error) => (fresh config world base).trap error
  | .error (.fail error) => (fresh config world base).fail error
  | .ok text =>
    match O.listen text port config.limits.concurrency base with
    | (.error error, base) => (fresh config world base).fail error
    | (.ok now, base) => { fresh config world base with
        listener := true, admissionDeadline := now + config.limits.admissionTimeoutMs }

end Server

/-! ## Runs -/

/-- What `poll`, `advance` and `stop` do between two looks at the clock, and the other calls. -/
inductive ServerStep (B : Type) where
  | deadlines
  | survey (i : ℕ)
  | await (entries : List PollEntry) (wait : ℕ)
  | serve (now : ℕ) (entry : PollEntry) (revents : Revents)
  | pollReady
  | advanceReady (budget : ℕ)
  | startHandler (i : ℕ)
  | runHandler (i : ℕ)
  | settleHandler (i : ℕ)
  | stopAt (now : ℕ)
  | setReadyHandler (handler : Function) (context : Value) (console : Bool)
  | enable (filesystem console : Bool)
  /-- The places that the next rounds start from. -/
  | cursors (nextIo nextHandler : ℕ)
  /-- Everything else goes on: other executions, other servers, the system. -/
  | others (world : World) (base : B)

/-- The steps that a server takes even when it is done. -/
def ServerStep.passive : ServerStep B → Bool
  | .cursors _ _ | .others _ _ => true
  | _ => false

section Runs

variable (O : Os B) (S : Services B) (p : Program)

/-- A step; a handler is started and run in its own state only. -/
def Server.apply (s : Server B) : ServerStep B → Server B
  | .deadlines => (s.deadlines O).2
  | .survey i => s.survey O S p i
  | .await entries wait => (s.await O entries wait).2
  | .serve now entry revents => s.serve O now entry revents
  | .pollReady => s.pollReady O
  | .advanceReady budget => s.advanceReady O S p budget
  | .startHandler i => if s.stateOf i = .start then s.startHandler i else s
  | .runHandler i => if s.stateOf i = .run then s.runHandler O S p i else s
  | .settleHandler i => s.settleHandler O i
  | .stopAt now => s.stopAt now
  | .setReadyHandler handler context console => (s.setReadyHandler handler context console).2
  | .enable filesystem console => { s with config := { s.config with
      filesystemEnabled := s.config.filesystemEnabled || filesystem
      consoleEnabled := s.config.consoleEnabled || console } }
  | .cursors nextIo nextHandler => { s with nextIo, nextHandler }
  | .others world base => { s with world, base }

/-- The runs of a server, from its start. -/
def serverMachine : Library.Machine (Server B) (ServerStep B) where
  initial s := ∃ config address port world base,
    s = Server.startMode O config address port world base
  step s step s' := (s.done = false ∨ step.passive = true) ∧ s' = s.apply O S p step

end Runs

end Panackelty.Vm
