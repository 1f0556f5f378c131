import Panackelty.Vm.HttpState

/-!
# `vm/tcp_server.c`: the TCP server

A server admits connections to a fixed table of clients, runs a handler for each of them as an
execution, and reports one outcome for each (finite servers) or counts them (continuous ones).  In
routed mode the handler answers HTTP through the writer of its connection, which is flushed while it
goes on.

The operating system is a parameter: every call of it takes and leaves a state, and may have any
result.  The table of clients and the counters are those of the source; what was sent on a
connection is recorded in `wire`, and in `closed` once it is closed.  Without memory nothing is
modelled.

* `Os`, `ServerHost`: what is outside; `Services.forServer`: the services of a handler.
* `Client`, `Server`: the state.
* `closeAll`, `trap`, `fail`, `finishClient`: the ends of clients.
* `deadlines`: the clock; `acceptClient`, `readClient`, `writeClient`, …: the sockets.
-/

namespace Panackelty.Vm

open Str

variable {B : Type}

/-- The limit on connections. -/
def serverClients : ℕ := 256

/-- The number of slots. -/
def serverConcurrency : ℕ := 32

/-- The limit on the bytes of a request or response. -/
def serverBytes : ℕ := 1024 * 1024

/-- The limit on the bytes of one read. -/
def serverReadChunkLimit : ℕ := 16384

/-- The time for a connection, in milliseconds. -/
def serverTimeout : ℕ := 60000

/-! ## Responses of the server itself -/

/-- `http_internal_error`. -/
def httpInternalError : Bytes := asciiBytes
  "HTTP/1.1 500 Internal Server Error\r\nContent-Length: 22\r\n" ++ asciiBytes
  "Connection: close\r\n\r\nInternal Server Error\n"

/-- `http_timeout_error`. -/
def httpTimeoutError : Bytes := asciiBytes
  "HTTP/1.1 504 Gateway Timeout\r\nContent-Length: 16\r\nConnection: close\r\n\r\nGateway Timeout\n"

/-- `busy` of `accept_client`. -/
def httpUnavailable : Bytes := asciiBytes
  "HTTP/1.1 503 Service Unavailable\r\nContent-Length: 20\r\n" ++ asciiBytes
  "Connection: close\r\n\r\nService Unavailable\n"

/-- `response` of `write_interim`. -/
def httpInterim : Bytes := asciiBytes "HTTP/1.1 100 Continue\r\n\r\n"

/-! ## The operating system -/

/-- The outcome of `accept`. -/
inductive AcceptResult where
  | accepted (fd : ℕ) | again | failed

/-- The result of `recv`; no bytes are the end of the stream. -/
inductive RecvResult where
  | received (data : Bytes) | again | failed

/-- The result of `send`: how many bytes were taken. -/
inductive SendResult where
  | sent (count : ℕ) | again | failed

/-- How many of the bytes were taken, unless the connection has failed. -/
def SendResult.count (data : Bytes) : SendResult → Option ℕ
  | .sent count => if min count data.length = 0 then none else some (min count data.length)
  | .again => some 0
  | .failed => none

/-- The bytes that were taken. -/
def SendResult.taken (data : Bytes) (result : SendResult) : Bytes :=
  data.take ((result.count data).getD 0)

/-- An entry of the table for `poll`; without a slot it is the listener. -/
structure PollEntry where
  fd : Option ℕ
  input : Bool
  output : Bool
  slot : Option ℕ
  /-- The sequence number of the connection. -/
  identity : ℕ

/-- `revents` of a poll. -/
structure Revents where
  input : Bool
  output : Bool
  error : Bool
  hangup : Bool
  invalid : Bool

/-- Something is reported. -/
def Revents.any (revents : Revents) : Bool :=
  revents.input || revents.output || revents.error || revents.hangup || revents.invalid

/-- The outcome of `poll`. -/
inductive PollResult where
  | ready (revents : List Revents) | interrupted | failed

/-- The system calls of the server. -/
structure Os (B : Type) where
  /-- `clock_ms`. -/
  clock : B → Option ℕ × B
  /-- The listener, from `inet_pton` to the last reading of the clock, which is its value. -/
  listen : Bytes → (port backlog : ℕ) → B → Except String ℕ × B
  accept : B → AcceptResult × B
  configure : ℕ → B → Bool × B
  recv : (fd limit : ℕ) → B → RecvResult × B
  send : (fd : ℕ) → Bytes → B → SendResult × B
  poll : List PollEntry → (wait : ℕ) → B → PollResult × B
  /-- What the operations of an execution have come to when `vm_execution_poll_network` asks. -/
  network : B → Execution.Polls × B
  /-- `http_log`. -/
  log : Bytes → B → B

/-! ## Clients as their executions see them -/

/-- The states of a slot. -/
inductive ClientState where
  | free | read | start | run | streamRead | interimWrite | write
  deriving DecidableEq, Repr

/-- What the callbacks of an execution change of its client. -/
structure ClientWait where
  state : ClientState
  interimSent : ℕ
  readLimit : ℕ
  fakePending : Bool
  fakeFail : Bool

/-- What the execution of a client has for a host. -/
structure ServerHost (B : Type) where
  client : ClientWait
  /-- The connection that the execution was made for. -/
  current : Option ℕ
  world : World
  base : B

namespace ServerHost

variable (h : ServerHost B)

/-- A service of the virtual machine. -/
def own {α : Type} (service : B → α × B) : α × ServerHost B :=
  ((service h.base).1, { h with base := (service h.base).2 })

/-- An operation on HTTP values. -/
def onWorld {α : Type} (operation : World → α × World) : α × ServerHost B :=
  ((operation h.world).1, { h with world := (operation h.world).2 })

/-- What `http_runtime_listen` sets before it knows whether the server has started. -/
def setContextual (a : ℕ) (contextual : Bool) : ServerHost B :=
  { h with world := h.world.modifyState a fun state => { state with contextual } }

end ServerHost

/-- A handle listens: its resource is the next one, and is pending. -/
def World.listen (w : World) (a : ℕ) (contextual : Bool) (resource : HttpResource) : World :=
  { w with
    states := w.states.modify a fun state => { state with
      contextual, phase := .listening, resource := some w.runtime.resources.length }
    runtime := { w.runtime with
      resources := w.runtime.resources ++ [resource]
      pending := w.runtime.resources.length :: w.runtime.pending } }

/-- `server_read_wait`. -/
def serverReadWait (value : Value) (h : ServerHost B) : Except Failure Unit × ServerHost B :=
  match value with
  | .bool boolean =>
    (.ok (), { h with client := { h.client with fakePending := true, fakeFail := boolean } })
  | value =>
    match valueIndex value with
    | some limit =>
      if limit = 0 ∨ serverReadChunkLimit < limit ∨ h.client.state ≠ .run then
        (.error (some (fatal "VM trap: invalid TCP server read limit")), h)
      else (.ok (), { h with client := { h.client with readLimit := limit, state := .streamRead } })
    | none => (.error (some (fatal "VM trap: invalid TCP server read limit")), h)

/-- `tcp_server_http_continue`. -/
def tcpServerHttpContinue (token : Value) (h : ServerHost B) : Except Failure Unit × ServerHost B :=
  match httpLiveConnection h.current token h.world with
  | .error trap => (.error (some trap), h)
  | .ok (_, connection, _) =>
    if connection.admitted = false ∨ h.client.state ≠ .run ∨ h.client.interimSent ≠ 0 then
      (.error (some (fatal "VM trap: invalid HTTP interim response state")), h)
    else (.ok (), { h with client := { h.client with state := .interimWrite } })

/-- `VMTcpServerLimits`. -/
structure ServerLimits where
  clients : ℕ
  concurrency : ℕ
  requestLimit : ℕ
  responseLimit : ℕ
  clientTimeoutMs : ℕ
  admissionTimeoutMs : ℕ
  drainMs : ℕ

/-- How `tcp_server_start_mode` ends a server that does not start. -/
inductive StartError where
  | trap (error : String) | fail (error : String)

/-- `tcp_server_start_mode` up to the listener; the handler is a function of the program.  The value
is the text of the address. -/
def startCheck (handler : Function) (context : Option Value) (address : Value) (port : ℕ)
    (limits : ServerLimits) (streaming continuous : Bool) : Except StartError Bytes :=
  if handler.isAsync = false ∨ handler.pure = true ∨ handler.params.length ≠ 1 ∨
      (streaming = true ∧ context.isNone = true) then
    .error (.trap "VM trap: invalid TCP server handler")
  else
    match address with
    | .str text =>
      if port = 0 ∨ 65535 < port ∨
          (continuous = false ∧ (limits.clients = 0 ∨ serverClients < limits.clients ∨
            limits.clients < limits.concurrency)) ∨
          limits.concurrency = 0 ∨ serverConcurrency < limits.concurrency ∨
          serverBytes < limits.requestLimit ∨ serverBytes < limits.responseLimit ∨
          limits.clientTimeoutMs = 0 ∨ serverTimeout < limits.clientTimeoutMs ∨
          (continuous = false ∧
            (limits.admissionTimeoutMs = 0 ∨ serverTimeout < limits.admissionTimeoutMs)) ∨
          serverTimeout < limits.drainMs then
        .error (.fail "invalid TCP server arguments")
      else if text = [] ∨ 16 ≤ text.length ∨ text.contains 0 = true then
        .error (.fail "invalid IPv4 address")
      else .ok text
    | _ => .error (.fail "invalid TCP server arguments")

/-- The limits of `tcp_server_start_http`. -/
def httpLimits : ServerLimits := ⟨16, 16, serverBytes, serverBytes, 10000, 10000, 1000⟩

/-- `http_runtime_listen`. -/
def httpRuntimeListen (O : Os B) (handle : Value) (worker : Function)
    (contextual outbound filesystem console : Bool) (h : ServerHost B) :
    Except Failure Value × ServerHost B :=
  if !h.world.runtime.available then
    (.ok (errorValue (textValue "HTTP resource runtime is unavailable")), h)
  else
    match handle with
    | .httpState a =>
      match h.world.states[a]? with
      | none => (.error (some (fatal "VM trap: invalid HTTP listener handle")), h)
      | some state =>
        if state.phase ≠ .created then
          (.ok (errorValue (textValue "HTTP server is no longer Created")), h)
        else
          match state.setupError, valueIndex state.port with
          | some error, _ => (.ok (errorValue (textValue error)), h)
          | none, none => (.error none, h.setContextual a contextual)
          | none, some port =>
            match startCheck worker (some handle) state.address port httpLimits true true with
            | .error (.trap error) => (.error (some (fatal error)), h.setContextual a contextual)
            | .error (.fail error) =>
              (.ok (errorValue (textValue error)), h.setContextual a contextual)
            | .ok text =>
              match O.listen text port httpLimits.concurrency h.base with
              | (.error error, base) =>
                (.ok (errorValue (textValue error)), { h.setContextual a contextual with base })
              | (.ok _, base) =>
                (.ok (okValue .unit), { h with
                  base
                  world := h.world.listen a contextual
                    ⟨a, false, false, worker, outbound, filesystem, console⟩ })
    | _ => (.error (some (fatal "VM trap: invalid HTTP listener handle")), h)

/-- The builtins of an execution: those on HTTP values work on the world. -/
def serverBuiltinCall (S : Services B) (b : BuiltinName) (arguments : List Value)
    (h : ServerHost B) :
    Except Failure Value × ServerHost B :=
  match (builtinRow b).map Builtin.call with
  | some .builtinsHttpStateCall => h.onWorld (httpStateCall b arguments)
  | some .builtinsHttpWriterCall => h.onWorld (httpWriterCall b arguments)
  | some .builtinsHttpConnectionCall => h.onWorld (httpConnectionCall h.current b arguments)
  | _ => h.own (S.builtinCall b arguments)

/-- The services of an execution under an HTTP runtime or in a server. -/
def Services.forServer (S : Services B) (O : Os B) : Services (ServerHost B) :=
  { S.within ServerHost.base (fun h service => h.own service) with
    builtinCall := serverBuiltinCall S
    readWait := serverReadWait
    httpContinue := tcpServerHttpContinue
    httpListen := httpRuntimeListen O
    httpRuntimeActive := fun h => h.world.active
    requestClose := fun v destroy h =>
      match v with
      | .httpState a => h.onWorld (httpRuntimeRequestClose a destroy)
      | _ => (false, h)
    resource := fun v h =>
      match v with
      | .httpState a => (h.world.states[a]?).any fun state => state.resource.isSome
      | _ => false
    liveConnection := fun v h => httpConnectionView h.current v h.world }

/-! ## Servers -/

/-- `ServerClient`. -/
structure Client (B : Type) where
  wait : ClientWait
  fd : Option ℕ
  outcome : ℕ
  sent : ℕ
  deadline : ℕ
  /-- What was received; for a stream, how much. -/
  request : Bytes
  received : ℕ
  response : Option Bytes
  httpConnection : Option ℕ
  execution : Option (Execution (ServerHost B))
  streamEof : Bool
  /-- What was sent on the connection. -/
  wire : Bytes

/-- The state of a slot. -/
def Client.state (client : Client B) : ClientState := client.wait.state

/-- A slot changes its state. -/
def Client.setState (state : ClientState) (client : Client B) : Client B :=
  { client with wait := { client.wait with state } }

/-- The client after `client_clear`. -/
def Client.cleared : Client B where
  wait := ⟨.free, 0, 0, false, false⟩
  fd := none
  outcome := 0
  sent := 0
  deadline := 0
  request := []
  received := 0
  response := none
  httpConnection := none
  execution := none
  streamEof := false
  wire := []

/-- The final response of the connection: the one of its handler, or the one for a deadline. -/
def Client.final (client : Client B) : Bytes := client.response.getD httpTimeoutError

/-- What was sent on a connection, and its final response. -/
structure Exchange where
  wire : Bytes
  final : Bytes

/-- What a server was started with. -/
structure ServerConfig where
  handler : Function
  context : Option Value
  limits : ServerLimits
  outbound : Bool
  streaming : Bool
  continuous : Bool
  routed : Bool
  filesystemEnabled : Bool
  consoleEnabled : Bool

/-- The readiness callback of a service. -/
structure ServerReady (B : Type) where
  handler : Function
  context : Value
  console : Bool
  execution : Option (Execution (ServerHost B))

/-- `VMTcpServer`, with the world and the system. -/
structure Server (B : Type) where
  config : ServerConfig
  /-- The readiness callback, while it is pending. -/
  ready : Option (ServerReady B)
  /-- Whether there has been one. -/
  readyHandler : Bool
  succeeded : ℕ
  failed : ℕ
  clients : List (Client B)
  outcomes : List (Option Value)
  result : Option Value
  admitted : ℕ
  active : ℕ
  nextIo : ℕ
  nextHandler : ℕ
  admissionDeadline : ℕ
  drainDeadline : ℕ
  listener : Bool
  stopping : Bool
  done : Bool
  error : Option String
  world : World
  base : B
  /-- The connections that are closed, the latest first. -/
  closed : List Exchange

namespace Server

variable (s : Server B)

/-- The limits of a server. -/
def limits : ServerLimits := s.config.limits

/-- A change of one slot. -/
def modifyClient (i : ℕ) (f : Client B → Client B) : Server B :=
  { s with clients := s.clients.modify i f }

/-- `client_clear`. -/
def clearClient (i : ℕ) : Server B :=
  match s.clients[i]? with
  | none => s
  | some client =>
    { s with
      world := client.httpConnection.elim s.world fun a => httpConnectionEnd a s.world
      clients := s.clients.set i Client.cleared
      closed := if client.state = .free then s.closed else ⟨client.wire, client.final⟩ :: s.closed }

/-- `close_all`. -/
def closeAll : Server B :=
  { (List.range serverConcurrency).foldl clearClient
    { s with ready := none, listener := false } with
    active := 0 }

/-- `trap`. -/
def trap (error : String) : Server B := closeAll { s with error := some error, done := true }

/-- `fail`. -/
def fail (error : String) : Server B :=
  closeAll { s with result := some (errorValue (textValue error)), done := true }

/-- The end of a client: its slot is free. -/
def release (i : ℕ) : Server B := { s.clearClient i with active := s.active - 1 }

/-- The outcome of a client, at its own index. -/
def report (i : ℕ) (outcome : Value) : Server B :=
  match s.clients[i]? with
  | none => s
  | some client => { s with outcomes := s.outcomes.set client.outcome (some outcome) }

/-- The counters of a continuous server. -/
def count (error : Option String) : Server B :=
  match error with
  | some _ => { s with failed := if s.failed < sizeMax then s.failed + 1 else s.failed }
  | none => { s with succeeded := if s.succeeded < sizeMax then s.succeeded + 1 else s.succeeded }

/-- `finish_client`. -/
def finishClient (i : ℕ) (error : Option String) : Server B :=
  if s.config.continuous then (s.count error).release i
  else (s.report i (clientOutcome error)).release i

/-! ### HTTP responses -/

/-- The writer of the connection of a client. -/
def writerOf (client : Client B) : Option (ℕ × HttpWriter) :=
  client.httpConnection.bind fun a => (s.world.connections[a]?).bind fun connection =>
    (s.world.writers[connection.writer]?).map fun writer => (connection.writer, writer)

/-- `http_attach_response`. -/
def httpAttachResponse (i : ℕ) : Server B :=
  match s.clients[i]? with
  | none => s
  | some client =>
    match client.response, s.writerOf client with
    | none, some (_, writer) =>
      if writer.completed
        then s.modifyClient i fun client => { client with response := writer.wire }
      else s
    | _, _ => s

section Calls

variable (O : Os B)

/-- `http_deadline_response`. -/
def httpDeadlineResponse (i : ℕ) : Server B :=
  match (s.clients[i]?).bind Client.fd with
  | none => s
  | some fd =>
    let s := s.httpAttachResponse i
    match s.clients[i]? with
    | none => s
    | some client =>
      let data := match client.response with
        | some response => response.drop client.sent
        | none => httpTimeoutError
      let (result, base) := O.send fd data s.base
      ({ s with base } : Server B).modifyClient i fun client =>
        { client with wire := client.wire ++ result.taken data }

/-- The execution of a client is taken from its connection, and its writer ends. -/
def detachExecution (i : ℕ) (client : Client B) : Server B :=
  let world := match client.httpConnection, s.writerOf client with
    | some a, some (k, _) =>
      (s.world.modifyWriter k fun writer => { writer with ended := true }).modifyConnection a
        fun connection => { connection with execution := false }
    | _, _ => s.world
  modifyClient { s with world } i fun client => { client with execution := none }

/-- `http_finish_execution`. -/
def httpFinishExecution (i : ℕ) : Server B :=
  let s := s.httpAttachResponse i
  match s.clients[i]? with
  | none => s
  | some client =>
    let s := s.detachExecution i client
    if client.response.elim 0 List.length = client.sent then s.finishClient i none
    else s.modifyClient i (Client.setState .write)

/-- The response of a handler that has not made one. -/
def completeWriter (i : ℕ) : Server B :=
  match (s.clients[i]?).bind s.writerOf with
  | some (k, writer) =>
    if writer.completed then s
    else { s with world := s.world.modifyWriter k fun writer =>
      { writer with wire := some httpInternalError, completed := true } }
  | none => s

/-- `http_log`. -/
def log (message : Bytes) : Server B := { s with base := O.log message s.base }

/-- `http_handler_finished`. -/
def httpHandlerFinished (i : ℕ) (trapped : Bool) : Server B :=
  match (s.clients[i]?).bind Client.execution with
  | none => s
  | some execution =>
    let invalid := "VM trap: invalid HTTP worker result"
    if trapped then
      (((s.log O (asciiBytes
        ((execution.error.map Trap.error).getD "HTTP request failed"))).completeWriter
        i).httpFinishExecution i)
    else
      match execution.result with
      | some (.variant name [payload]) =>
        match payload with
        | .str message =>
          if name = asciiBytes "Error" then
            ((s.log O message).completeWriter i).httpFinishExecution i
          else s.trap invalid
        | .unit =>
          if name = asciiBytes "Ok" then
            let missing := (((s.clients[i]?).bind s.writerOf).any fun found => !found.2.completed)
            let s := if missing then
              s.log O (asciiBytes "HTTP handler returned without sending a response") else s
            (s.completeWriter i).httpFinishExecution i
          else s.trap invalid
        | _ => s.trap invalid
      | _ => s.trap invalid

/-! ### Deadlines -/

/-- `stop_at`. -/
def stopAt (now : ℕ) : Server B :=
  if s.stopping then s
  else { s with stopping := true, drainDeadline := now + s.limits.drainMs, listener := false }

/-- The body of the loop of `deadlines`. -/
def expireClient (now i : ℕ) : Server B :=
  match s.clients[i]? with
  | none => s
  | some client =>
    if client.state = .free then s
    else if client.deadline ≤ now then
      let s := if s.config.routed then s.httpDeadlineResponse O i else s
      s.finishClient i (some "TCP client timed out")
    else if s.stopping = true ∧ s.drainDeadline ≤ now then
      s.finishClient i (some "TCP server drain cancelled client")
    else s

/-- The result of a server that has stopped. -/
def summary : Value :=
  if s.config.continuous then
    okValue (.record (asciiBytes "TcpServiceSummary")
      [Str.asciiBytes "accepted", asciiBytes "succeeded", asciiBytes "failed"]
      [valueSize s.admitted, valueSize s.succeeded, valueSize s.failed])
  else okValue (.array ((s.outcomes.take s.admitted).filterMap id))

/-- A server that has stopped and has no clients is done. -/
def conclude : Server B := { s with ready := none, result := some s.summary, done := true }

/-- The admission of a finite server ends at its deadline. -/
def expireAdmission (now : ℕ) : Server B :=
  if !s.config.continuous && !s.stopping && decide (s.admissionDeadline ≤ now) then
    s.stopAt s.admissionDeadline
  else s

/-- `deadlines`: the time, while the server goes on. -/
def deadlines : Option ℕ × Server B :=
  if s.done then (none, s)
  else
    match O.clock s.base with
    | (none, base) => (none, Server.fail { s with base } "TCP server clock failed")
    | (some now, base) =>
      let s := ({ s with base } : Server B).expireAdmission now
      let s := (List.range s.limits.concurrency).foldl (fun s i => s.expireClient O now i) s
      if s.stopping = true ∧ s.active = 0 then (none, s.conclude) else (some now, s)

/-! ### Sockets -/

/-- A client that was accepted, in its slot. -/
def admitAt (i fd now : ℕ) : Server B :=
  { s with
    clients := s.clients.set i { (Client.cleared : Client B) with
      wait := ⟨if s.config.streaming then .start else .read, 0, 0, false, false⟩
      fd := some fd
      outcome := s.admitted
      deadline := now + s.limits.clientTimeoutMs }
    admitted := s.admitted + 1
    active := s.active + 1 }

/-- The last connection of a finite server stops it. -/
def stopIfLast (now : ℕ) : Server B :=
  if !s.config.continuous && s.admitted == s.limits.clients then s.stopAt now else s

/-- The second half of `accept_client`; only without memory is the server done after it. -/
def admitConnection (i fd now : ℕ) (configured : Bool) : Server B :=
  let s := s.admitAt i fd now
  stopIfLast (if configured then s else s.finishClient i (some "TCP client socket failed")) now

/-- `accept_client`. -/
def acceptClient (now : ℕ) : Server B :=
  if s.stopping || (!s.config.routed && s.active == s.limits.concurrency) then s
  else if s.admitted = sizeMax then s.fail "TCP service connection sequence exhausted"
  else
    let slot := (s.clients.take s.limits.concurrency).findIdx fun client => client.state == .free
    match O.accept s.base with
    | (.again, base) => { s with base }
    | (.failed, base) => Server.fail { s with base } "TCP server accept failed"
    | (.accepted fd, base) =>
      let (configured, base) := O.configure fd base
      if s.limits.concurrency ≤ slot then
        let (result, base) := if configured then O.send fd httpUnavailable base else (.failed, base)
        { s with
          base
          closed := ⟨result.taken httpUnavailable, httpUnavailable⟩ :: s.closed }
      else admitConnection { s with base } slot fd now configured

/-- `read_client`. -/
def readClient (i fd : ℕ) : Server B :=
  match O.recv fd serverReadChunkLimit s.base with
  | (.again, base) => { s with base }
  | (.failed, base) => finishClient { s with base } i (some "TCP client read failed")
  | (.received [], base) => modifyClient { s with base } i (Client.setState .start)
  | (.received data, base) =>
    let s := { s with base }
    if (s.clients[i]?).any fun client => s.limits.requestLimit - client.received < data.length then
      s.finishClient i (some "TCP request limit exceeded")
    else s.modifyClient i fun client =>
      { client with request := client.request ++ data, received := client.received + data.length }

/-- Works on the execution of a client. -/
def child (i : ℕ) (f : Execution (ServerHost B) → Execution (ServerHost B)) : Server B :=
  match (s.clients[i]?).bind fun client => client.execution.map fun e => (client, e) with
  | none => s
  | some (client, e) =>
    let e := f { e with host := ⟨client.wait, client.httpConnection, s.world, s.base⟩ }
    { s with
      clients := s.clients.modify i fun client =>
        { client with execution := some e, wait := e.host.client }
      world := e.host.world
      base := e.host.base }

/-- `complete_stream_read`; an execution that does not wait for a read does not take it. -/
def completeStreamRead (i : ℕ) (result : Value) : Server B :=
  let s := s.modifyClient i fun client =>
    { client with wait := { client.wait with state := .run, readLimit := 0 } }
  let takes := ((s.clients[i]?).bind Client.execution).any fun e =>
    e.status == .waiting && e.waitingRead && !e.tcp && !e.http
  if takes then s.child i (Execution.completeRead (some result))
  else s.trap "VM trap: invalid TCP server read completion"

/-- `read_stream_chunk`. -/
def readStreamChunk (i fd : ℕ) : Server B :=
  match s.clients[i]? with
  | none => s
  | some client =>
    if client.streamEof then s.completeStreamRead i (okValue (.bytes []))
    else
      match O.recv fd client.wait.readLimit s.base with
      | (.again, base) => { s with base }
      | (.failed, base) =>
        completeStreamRead { s with base } i (errorValue (textValue "TCP client read failed"))
      | (.received [], base) =>
        (modifyClient { s with base } i fun client =>
          { client with streamEof := true }).completeStreamRead i (okValue (.bytes []))
      | (.received data, base) =>
        let s := { s with base }
        if !s.config.routed && decide (s.limits.requestLimit - client.received < data.length) then
          (s.modifyClient i fun client => { client with streamEof := true }).completeStreamRead i
            (errorValue (textValue "TCP request limit exceeded"))
        else
          let s := if s.config.routed then s else
            s.modifyClient i fun client => { client with received := client.received + data.length }
          s.completeStreamRead i (okValue (.bytes data))

/-- `write_interim`. -/
def writeInterim (i fd : ℕ) : Server B :=
  match s.clients[i]? with
  | none => s
  | some client =>
    let data := httpInterim.drop client.wait.interimSent
    let (result, base) := O.send fd data s.base
    let s := { s with base }
    match result.count data with
    | none => s.finishClient i (some "HTTP interim write failed")
    | some n =>
      let s := s.modifyClient i fun client =>
        { client with
          wait := { client.wait with interimSent := client.wait.interimSent + n }
          wire := client.wire ++ data.take n }
      if client.wait.interimSent + n = httpInterim.length then
        s.completeStreamRead i (okValue (.bytes []))
      else s

/-- The end of `write_client`: all of the response was sent. -/
def flushed (i : ℕ) : Server B :=
  if s.config.routed && ((s.clients[i]?).bind Client.execution).isSome then
    s.modifyClient i fun client => { client with fd := none }
  else s.finishClient i none

/-- `write_client`. -/
def writeClient (i fd : ℕ) : Server B :=
  match (s.clients[i]?).bind fun client => client.response.map fun response => (client,
    response) with
  | none => s
  | some (client, response) =>
    let data := (response.drop client.sent).take serverReadChunkLimit
    if data = [] then s.flushed i
    else
      let (result, base) := O.send fd data s.base
      let s := { s with base }
      match result.count data with
      | none => s.finishClient i (some "TCP client write failed")
      | some n =>
        let s := s.modifyClient i fun client =>
          { client with sent := client.sent + n, wire := client.wire ++ data.take n }
        if client.sent + n = response.length then s.flushed i else s

end Calls

end Server

end Panackelty.Vm
