import Panackelty.Vm.Operations
import Panackelty.Vm.Verify

/-!
# `vm/execute.c`: resumable execution

An execution is a stack of frames with the services it waits for.  What lies outside of the stack
machine is a parameter: the builtins that compute a value, the callbacks of the embedder, sockets,
files, the HTTP runtime.  They read and change a host state and cannot reach the frames.  A callback
that reenters its execution is turned away with `VM_BUSY`, so calls do not overlap here.

For the statements about whole runs an execution keeps a record of the builtins it has executed.

* `Services`, `Execution`: the host, and the state of an execution.
* `executionBuiltin`, `dispatch`, `advance`: the interpreter.
* `Input`, `run`: every entry point an embedder has, in any order.
-/

namespace Panackelty.Vm

variable {H : Type}

/-! ## State -/

/-- `VMExecutionStatus`. -/
inductive Status where
  | yielded | completed | trapped | exited | waiting
  deriving DecidableEq

/-- A builtin that was executed: the frames at that time, the innermost first, and whether the
execution was left waiting. -/
structure Call where
  builtin : BuiltinName
  entry : Builtin
  frames : List Frame
  waits : Bool

/-- `VMExecution`, with the error of its `VM`.  A service or callback that is a pointer in the
source is a flag here: whether it is there. -/
structure Execution (H : Type) where
  /-- The innermost frame first. -/
  frames : List Frame
  status : Status
  result : Option Value
  exitStatus : ℕ
  embedded : Bool
  hostCall : Bool
  printWait : Bool
  readWait : Bool
  waitingRead : Bool
  fakeFail : Bool
  networkEnabled : Bool
  serverReadEnabled : Bool
  tcp : Bool
  http : Bool
  server : Bool
  rootRead : Bool
  consoleWrite : Bool
  consoleEnabled : Bool
  yieldRequested : Bool
  httpWaiting : Option Value
  filesystemEnabled : Bool
  serverEnabled : Bool
  error : Option Trap
  heap : Heap
  host : H
  /-- The latest call first. -/
  calls : List Call

/-- What `http_connection_handler` reads of a live connection; the context is there for a contextual
server. -/
structure Connection where
  admitted : Bool
  fallback : Option Value
  routes : List Value
  context : Option Value

/-- The failure of a service; it may leave the error unset. -/
abbrev Failure := Option Trap

/-- What lies outside of the stack machine. -/
structure Services (H : Type) where
  /-- `render`. -/
  render : Value → Bytes
  /-- `builtin_call`. -/
  builtinCall : BuiltinName → List Value → H → Except Failure Value × H
  /-- The callback `host_call`. -/
  hostCall : BuiltinName → List Value → H → Except Failure Value × H
  /-- The callback `read_wait`. -/
  readWait : Value → H → Except Failure Unit × H
  /-- The callback `print_wait`. -/
  printWait : Value → H → Except Failure Unit × H
  /-- `tcp_server_http_continue`. -/
  httpContinue : Value → H → Except Failure Unit × H
  /-- `http_runtime_listen`, for a worker that is contextual or not, with the network, the
  filesystem and the console or without. -/
  httpListen : Value → Function → (contextual network filesystem console : Bool) → H →
    Except Failure Value × H
  /-- Whether the stop signals are installed, or an active HTTP runtime does not ask for it. -/
  stopSignals : H → Bool × H
  /-- `http_runtime_active`. -/
  httpRuntimeActive : H → Bool
  /-- `http_runtime_request_close`. -/
  requestClose : Value → (destroy : Bool) → H → Bool × H
  /-- Whether an HTTP state has its resource. -/
  resource : Value → H → Bool
  /-- `http_live_connection`. -/
  liveConnection : Value → H → Except Trap Connection
  /-- `tcp_server_start_service`: handler, context, address, port, limits, network. -/
  serviceStart : Option Function → Value → Value → ℕ → List ℕ → Bool → H → Bool × H
  /-- `tcp_server_set_ready_handler` and, for the command line, the stop signals. -/
  serviceReady : Function → Value → (console signals : Bool) → H → Bool × H
  /-- `tcp_server_start` and, with a context, `tcp_server_start_stream`. -/
  serverStart : Option Function → Option Value → Value → ℕ → List ℕ → Bool → H → Bool × H
  /-- `tcp_server_enable_filesystem` and `tcp_server_enable_console`. -/
  serverEnable : (filesystem console : Bool) → H → H
  /-- `tcp_server_done`. -/
  serverDone : H → Bool
  /-- `console_write_start`. -/
  consoleWriteStart : Value → (stderr : Bool) → H → Except Failure Unit × H
  /-- `root_read_start`. -/
  rootReadStart : List Value → (identity : Bool) → H → Except Failure Unit × H
  /-- `tcp_exchange_start`. -/
  tcpExchangeStart : List Value → H → Bool × H
  /-- `http_transport_start`. -/
  httpTransportStart : List Value → H → Bool × H

/-- The services of a state that holds another one: `own` lets a service of the inner state act. -/
def Services.within {B : Type} (S : Services B) (base : H → B)
    (own : ∀ {α : Type}, H → (B → α × B) → α × H) : Services H where
  render := S.render
  builtinCall b arguments h := own h (S.builtinCall b arguments)
  hostCall b arguments h := own h (S.hostCall b arguments)
  readWait v h := own h (S.readWait v)
  printWait v h := own h (S.printWait v)
  httpContinue v h := own h (S.httpContinue v)
  httpListen v f contextual network filesystem console h :=
    own h (S.httpListen v f contextual network filesystem console)
  stopSignals h := own h S.stopSignals
  httpRuntimeActive h := S.httpRuntimeActive (base h)
  requestClose v destroy h := own h (S.requestClose v destroy)
  resource v h := S.resource v (base h)
  liveConnection v h := S.liveConnection v (base h)
  serviceStart f context address port limits network h :=
    own h (S.serviceStart f context address port limits network)
  serviceReady f context console signals h := own h (S.serviceReady f context console signals)
  serverStart f context address port limits network h :=
    own h (S.serverStart f context address port limits network)
  serverEnable filesystem console h :=
    (own h fun inner => ((), S.serverEnable filesystem console inner)).2
  serverDone h := S.serverDone (base h)
  consoleWriteStart v stderr h := own h (S.consoleWriteStart v stderr)
  rootReadStart arguments identity h := own h (S.rootReadStart arguments identity)
  tcpExchangeStart arguments h := own h (S.tcpExchangeStart arguments)
  httpTransportStart arguments h := own h (S.httpTransportStart arguments)

namespace Execution

/-- Records a trap; a service that failed without an error has run out of memory. -/
def fail (s : Execution H) (failure : Failure) : Execution H :=
  { s with error := some (failure.getD outOfMemory) }

/-- Records a fatal trap. -/
def trap (s : Execution H) (error : String) : Execution H := s.fail (some (fatal error))

/-- The registers of the innermost frame. -/
def setRegisters (s : Execution H) (registers : Registers) : Execution H :=
  match s.frames with
  | [] => s
  | frame :: frames => { s with frames := { frame with registers } :: frames }

/-- `stack_push` on the innermost frame. -/
def push (s : Execution H) (v : Value) : Execution H :=
  match s.frames with
  | [] => s
  | frame :: _ => s.setRegisters (frame.registers.push v)

/-- `frame_push`. -/
def framePush (s : Execution H) (function : Function) (arguments : List Value) : Execution H :=
  if function.params ≠ [] ∧ arguments = [] then s.trap "VM trap: invalid function invocation"
  else
    let locals := (function.params.zip arguments).foldl
      (fun locals entry => localPut entry.1 entry.2 locals) []
    let s := { s with frames := ⟨function, ⟨0, [], locals⟩⟩ :: s.frames }
    if arguments.length < function.params.length then s.trap "VM trap: invalid function argument"
    else s

section Fields

variable (s : Execution H)

@[simp] theorem setRegisters_calls (regs : Registers) : (s.setRegisters regs).calls = s.calls := by
  unfold setRegisters
  split <;> rfl

@[simp] theorem setRegisters_status (regs : Registers) :
    (s.setRegisters regs).status = s.status := by
  unfold setRegisters
  split <;> rfl

theorem setRegisters_frames {frame : Frame} {frames : List Frame} (h : s.frames = frame :: frames)
    (registers : Registers) :
    (s.setRegisters registers).frames = { frame with registers } :: frames := by
  simp only [setRegisters, h]

@[simp] theorem push_calls (v : Value) : (s.push v).calls = s.calls := by
  unfold push
  split
  · rfl
  · exact s.setRegisters_calls _

@[simp] theorem push_status (v : Value) : (s.push v).status = s.status := by
  unfold push
  split
  · rfl
  · exact s.setRegisters_status _

@[simp] theorem framePush_calls (fn : Function) (args : List Value) :
    (s.framePush fn args).calls = s.calls := by
  unfold framePush
  split_ifs
  · rfl
  · rfl
  · rfl

@[simp] theorem framePush_status (fn : Function) (args : List Value) :
    (s.framePush fn args).status = s.status := by
  unfold framePush
  split_ifs
  · rfl
  · rfl
  · rfl

theorem framePush_frames (fn : Function) (args : List Value) :
    (s.framePush fn args).frames = s.frames ∨ ∃ frame, frame.function = fn ∧
        (s.framePush fn args).frames = frame :: s.frames := by
  unfold framePush
  split_ifs
  · exact .inl rfl
  · exact .inr ⟨_, rfl, rfl⟩
  · exact .inr ⟨_, rfl, rfl⟩

end Fields

end Execution

/-! ## Builtins -/

/-- `builtin`, with the name that the entry has. -/
def builtinEntry (name : CString) : Option (BuiltinName × Builtin) :=
  (BuiltinName.find name.bytes).bind fun b => (builtinRow b).map fun row => (b, row)

/-- The bytes of a string value equal the name of a function. -/
def Function.namedBy (f : Function) (data : Bytes) : Bool := f.name.bytes == data

/-- `execution_handler`. -/
def executionHandler (p : Program) : Value → Option Function
  | .str data => p.functions.find? fun f => (builtin f.name).isNone && f.namedBy data
  | _ => none

/-- The handler of `server_call_mode`: its loop goes on after a match. -/
def serverHandler (p : Program) : Value → Option Function
  | .str data => (p.functions.filter fun f => (builtin f.name).isNone && f.namedBy data).getLast?
  | _ => none

/-- `http_worker_function`. -/
def httpWorkerFunction (p : Program) : Value → Option Function
  | .str data => p.functions.find? fun f =>
    f.namedBy data && f.isAsync && !f.pure && f.params.length == 1
  | _ => none

/-- The fields of a record of limits, which are in order and all `Nat`. -/
def readLimits : List String → List Bytes → List Value → Option (List ℕ)
  | [], _, _ => some []
  | field :: fields, name :: names, value :: values =>
    if name ≠ Str.asciiBytes field then none
    else (valueIndex value).bind fun limit => (readLimits fields names values).map (limit :: ·)
  | _, _, _ => none

/-- An argument; the arity of the call has been checked. -/
def argument (arguments : List Value) (k : ℕ) : Value := arguments.getD k .void

/-- The argument checks that the server calls share: address, port and limits. -/
def serverArguments (arguments : List Value) (record : Value) (name : String) (fields : List String)
    (invalidArguments invalidLimits : String) : Except String (ℕ × List ℕ) :=
  match argument arguments 0, valueIndex (argument arguments 1), record with
  | .str _, some port, .record recordName names values =>
    if recordName ≠ Str.asciiBytes name ∨ values.length ≠ fields.length then .error invalidArguments
    else
      match readLimits fields names values with
      | none => .error invalidLimits
      | some limits => .ok (port, limits)
  | _, _, _ => .error invalidArguments

section Builtins

variable (S : Services H) (p : Program)

/-- `http_connection_handler`: the handler and the arguments of its call. -/
def httpConnectionHandler (arguments : List Value) (host : H) :
    Except Trap (Function × List Value) :=
  match S.liveConnection (argument arguments 0) host with
  | .error trap => .error trap
  | .ok connection =>
    if !connection.admitted then
      .error (fatal "VM trap: HTTP handler invoked without admission")
    else
      let selected : Except Trap (Option Value) := match argument arguments 1 with
        | .variant name values =>
          if name = Str.asciiBytes "None" ∧ values = [] then .ok connection.fallback
          else if name = Str.asciiBytes "Some" ∧ values.length = 1 then
            match (valueIndex (argument values 0)).bind fun k => connection.routes[k]? with
            | some handler => .ok (some handler)
            | none => .error (fatal "VM trap: invalid HTTP route index")
          else .ok none
        | _ => .error (fatal "VM trap: invalid HTTP route selection")
      match selected with
      | .error trap => .error trap
      | .ok (some (.str data)) =>
        let rest := [argument arguments 2, argument arguments 3]
        let call := match connection.context with
          | some context => context :: rest
          | none => rest
        match p.functions.find? fun f => f.namedBy data with
        | some target =>
          if target.isAsync && !target.pure && target.params.length == call.length then
            .ok (target, call)
          else .error (fatal "VM trap: invalid HTTP handler effect or arity")
        | none => .error (fatal "VM trap: invalid HTTP handler effect or arity")
      | .ok _ => .error (fatal "VM trap: missing HTTP handler")

/-- What a builtin leaves: its value, unless it traps, waits or has called a function. -/
structure Invoked (H : Type) where
  execution : Execution H
  value : Option Value
  called : Bool

/-- No value. -/
def Execution.novalue (s : Execution H) : Invoked H := ⟨s, none, false⟩

/-- The value of a service. -/
def Execution.finishCall (s : Execution H) : Except Failure Value × H → Invoked H
  | (.ok v, host) => ⟨{ s with host }, some v, false⟩
  | (.error failure, host) => ({ s with host, error := failure } : Execution H).novalue

/-- A wait that a service has registered or refused. -/
def Execution.finishWait (s : Execution H) (refused : String)
    (waiting : Execution H → Execution H) :
    Except Failure Unit × H → Execution H
  | (.ok _, host) => { waiting { s with host } with status := .waiting }
  | (.error none, host) => ({ s with host } : Execution H).trap refused
  | (.error (some trap), host) => ({ s with host } : Execution H).fail (some trap)

/-- A wait for a service that fails only without memory. -/
def Execution.finishStart (s : Execution H) (waiting : Execution H → Execution H) :
    Bool × H → Execution H
  | (true, host) => { waiting { s with host } with status := .waiting }
  | (false, host) => ({ s with host } : Execution H).fail none

/-- `service_call`. -/
def serviceCall (arguments : List Value) (s : Execution H) : Execution H :=
  if s.embedded && !s.serverEnabled then
    s.trap "VM trap: TCP service is unavailable in this execution"
  else
    match serverArguments arguments (argument arguments 4) "TcpServiceLimits"
      ["concurrency", "request_limit", "response_limit", "client_timeout_ms", "drain_ms"]
      "VM trap: invalid TCP service arguments" "VM trap: invalid TCP service limits" with
    | .error error => s.trap error
    | .ok (port, limits) =>
      match executionHandler p (argument arguments 5) with
      | none => s.trap "VM trap: invalid service readiness callback"
      | some ready =>
        if !ready.isAsync || ready.pure || ready.params.length != 1 then
          s.trap "VM trap: invalid service readiness callback"
        else
          match S.serviceStart (executionHandler p (argument arguments 2)) (argument arguments 3)
            (argument arguments 0) port limits (!s.embedded || s.networkEnabled) s.host with
          | (false, host) => ({ s with host, server := false } : Execution H).fail none
          | (true, host) =>
            let console := !s.embedded || s.consoleEnabled
            let host := S.serverEnable (!s.embedded || s.filesystemEnabled) console host
            if S.serverDone host then { s with host, server := true, status := .waiting }
            else
              let context := Value.record (Str.asciiBytes "TcpServiceReady")
                [Str.asciiBytes "address", Str.asciiBytes "port"]
                [argument arguments 0, argument arguments 1]
              match S.serviceReady ready context console (!s.embedded) host with
              | (true, host) => { s with host, server := true, status := .waiting }
              | (false, host) => ({ s with host, server := false } : Execution H).trap
                "VM trap: service readiness setup failed"

/-- `server_call_mode`. -/
def serverCallMode (arguments : List Value) (streaming : Bool) (s : Execution H) : Execution H :=
  if s.embedded && !s.serverEnabled then
    s.trap "VM trap: TCP server is unavailable in this execution"
  else
    match serverArguments arguments (argument arguments (if streaming then 4 else 3))
      "TcpServerLimits" ["clients", "concurrency", "request_limit", "response_limit",
        "client_timeout_ms", "admission_timeout_ms", "drain_ms"]
      "VM trap: invalid TCP server arguments" "VM trap: invalid TCP server limits" with
    | .error error => s.trap error
    | .ok (port, limits) =>
      match S.serverStart (serverHandler p (argument arguments 2))
        (if streaming then some (argument arguments 3) else none) (argument arguments 0) port limits
        (!s.embedded || s.networkEnabled) s.host with
      | (false, host) => ({ s with host, server := false } : Execution H).fail none
      | (true, host) =>
        let host := S.serverEnable (!s.embedded || s.filesystemEnabled)
          (!s.embedded || s.consoleEnabled) host
        { s with host, server := true, status := .waiting }

/-- `http_unit_result`. -/
def httpUnitResult : Value := .variant (Str.asciiBytes "Ok") [.unit]

/-- `http_listen_ordinary` and `http_listen_contextual`. -/
def httpListen (arguments : List Value) (contextual : Bool) (s : Execution H) : Invoked H :=
  match httpWorkerFunction p (argument arguments 1) with
  | none => (s.trap "VM trap: invalid HTTP worker").novalue
  | some worker =>
    if s.embedded && !s.serverEnabled then
      (s.trap "VM trap: listener capability is unavailable").novalue
    else
      let (result, host) := S.httpListen (argument arguments 0) worker contextual
        (!s.embedded || s.networkEnabled) (!s.embedded || s.filesystemEnabled)
        (!s.embedded || s.consoleEnabled) s.host
      match S.stopSignals host with
      | (false, host) => (({ s with host } : Execution H).trap "HTTP signal setup failed").novalue
      | (true, host) =>
        ({ s with yieldRequested := true } : Execution H).finishCall (result, host)

/-- `http_close` and `http_destroy`. -/
def httpShutdown (arguments : List Value) (destroy : Bool) (s : Execution H) : Invoked H :=
  let handle := argument arguments 0
  match handle.kind, S.requestClose handle destroy s.host with
  | .httpState, (true, host) =>
    if S.resource handle host then
      ({ s with host, httpWaiting := some handle, status := .waiting } : Execution H).novalue
    else ⟨{ s with host }, some httpUnitResult, false⟩
  | .httpState, (false, host) =>
    (({ s with host } : Execution H).trap "VM trap: invalid HTTP shutdown handle").novalue
  | _, _ => (s.trap "VM trap: invalid HTTP shutdown handle").novalue

/-- `http_connection_invoke`. -/
def httpConnectionInvoke (arguments : List Value) (s : Execution H) : Invoked H :=
  match httpConnectionHandler S p arguments s.host with
  | .error trap => (s.fail (some trap)).novalue
  | .ok (handler, call) => ⟨s.framePush handler call, none, true⟩

/-- `process_exit` and, for statuses up to a limit, `host_exit_async`. -/
def processExit (arguments : List Value) (limit : ℕ) (s : Execution H) : Execution H :=
  match valueIndex (argument arguments 0) with
  | none => s.trap "VM trap: invalid process status"
  | some status =>
    if limit < status then
      ({ s with exitStatus := status } : Execution H).trap "VM trap: invalid process status"
    else { s with exitStatus := status, status := .exited }

/-- `$tcp_server_read_chunk`. -/
def serverReadChunk (arguments : List Value) (s : Execution H) : Execution H :=
  match valueIndex (argument arguments 0) with
  | none => s.trap "VM trap: TCP server read is unavailable in this execution"
  | some limit =>
    if limit = 0 ∨ 16384 < limit ∨ !s.embedded ∨ !s.readWait ∨ !s.serverReadEnabled then
      s.trap "VM trap: TCP server read is unavailable in this execution"
    else
      s.finishWait "VM trap: TCP server read registration failed"
        (fun s => { s with waitingRead := true }) (S.readWait (argument arguments 0) s.host)

/-- `async_fake_read`. -/
def asyncFakeRead (arguments : List Value) (s : Execution H) : Execution H :=
  match argument arguments 0 with
  | .bool boolean =>
    let wait := fun s : Execution H => { s with waitingRead := true, fakeFail := boolean }
    if !s.embedded then { wait s with status := .waiting }
    else if !s.readWait then s.trap "VM trap: async service is unavailable"
    else s.finishWait "VM trap: async service is unavailable" wait
      (S.readWait (.bool boolean) s.host)
  | _ => s.trap "VM trap: fake read requires Bool"

/-- A service that an embedded execution has only when it is enabled. -/
def Execution.guarded (s : Execution H) (enabled : Bool) (unavailable : String)
    (service : Execution H → Execution H) : Execution H :=
  if s.embedded && !enabled then s.trap unavailable else service s

/-- `host_stdout_async` and `host_stderr_async`. -/
def consoleWrite (arguments : List Value) (stderr : Bool) (s : Execution H) : Execution H :=
  ({ s with consoleWrite := false } : Execution H).finishWait outOfMemory.error
    (fun s => { s with consoleWrite := true })
    (S.consoleWriteStart (argument arguments 0) stderr s.host)

/-- `fs_read_beneath_async` and `fs_root_identity_async`. -/
def rootRead (arguments : List Value) (identity : Bool) (s : Execution H) : Execution H :=
  ({ s with rootRead := false } : Execution H).finishWait outOfMemory.error
    (fun s => { s with rootRead := true }) (S.rootReadStart arguments identity s.host)

/-- `$tcp_exchange`. -/
def tcpExchange (arguments : List Value) (s : Execution H) : Execution H :=
  ({ s with tcp := false } : Execution H).finishStart
    (fun s => { s with tcp := true, waitingRead := true }) (S.tcpExchangeStart arguments s.host)

/-- `$http_transport_exchange`. -/
def httpTransportExchange (arguments : List Value) (s : Execution H) : Execution H :=
  ({ s with http := false } : Execution H).finishStart
    (fun s => { s with http := true, waitingRead := true }) (S.httpTransportStart arguments s.host)

/-- The builtins without a branch of their own. -/
def ordinaryBuiltin (b : BuiltinName) (entry : Builtin) (arguments : List Value)
    (s : Execution H) : Invoked H :=
  if !s.embedded || entry.pure || builtinIsLocalState (some entry) then
    s.finishCall (S.builtinCall b arguments s.host)
  else if b = .runBytecode ∨ b = .runBytecodeArgs then
    (s.trap "VM trap: nested execution is unavailable in resumable mode").novalue
  else if s.printWait = true ∧ b = .print then
    (s.finishWait "VM trap: pending print registration failed" id
      (S.printWait (argument arguments 0) s.host)).novalue
  else if !s.hostCall then
    (s.trap "VM trap: host service is unavailable in resumable mode").novalue
  else s.finishCall (S.hostCall b arguments s.host)

/-- `execution_builtin`. -/
def executionBuiltin (b : BuiltinName) (entry : Builtin) (arguments : List Value)
    (s : Execution H) : Invoked H :=
  match b with
  | .httpConnectionContinue =>
    match S.httpContinue (argument arguments 0) s.host with
    | (.ok _, host) =>
      ({ s with host, waitingRead := true, status := .waiting } : Execution H).novalue
    | (.error failure, host) => ({ s with host, error := failure } : Execution H).novalue
  | .httpListenOrdinary => httpListen S p arguments false s
  | .httpListenContextual => httpListen S p arguments true s
  | .httpClose => httpShutdown S arguments false s
  | .httpDestroy => httpShutdown S arguments true s
  | .httpConnectionInvoke => httpConnectionInvoke S p arguments s
  | .tcpService => (serviceCall S p arguments s).novalue
  | .hostArgumentsAsync =>
    if s.embedded && !s.consoleEnabled then
      (s.trap "VM trap: invocation service is unavailable in this execution").novalue
    else s.finishCall (S.builtinCall .commandArgs [] s.host)
  | .hostExitAsync =>
    if s.embedded || S.httpRuntimeActive s.host then (processExit arguments 255 s).novalue
    else
      match valueIndex (argument arguments 0) with
      | none => (s.trap "VM trap: invalid process status").novalue
      | some status =>
        let s := { s with exitStatus := status }
        if 255 < status then (s.trap "VM trap: invalid process status").novalue
        else s.finishCall (S.builtinCall .processExit arguments s.host)
  | .hostStdoutAsync =>
    (s.guarded s.consoleEnabled "VM trap: console service is unavailable in this execution"
      (consoleWrite S arguments false)).novalue
  | .hostStderrAsync =>
    (s.guarded s.consoleEnabled "VM trap: console service is unavailable in this execution"
      (consoleWrite S arguments true)).novalue
  | .fsReadBeneathAsync =>
    (s.guarded s.filesystemEnabled "VM trap: filesystem service is unavailable in this execution"
      (rootRead S arguments false)).novalue
  | .fsRootIdentityAsync =>
    (s.guarded s.filesystemEnabled "VM trap: filesystem service is unavailable in this execution"
      (rootRead S arguments true)).novalue
  | .dollarTcpServe => (serverCallMode S p arguments false s).novalue
  | .dollarTcpServeStream => (serverCallMode S p arguments true s).novalue
  | .dollarTcpServerReadChunk => (serverReadChunk S arguments s).novalue
  | .dollarTcpExchange =>
    (s.guarded s.networkEnabled "VM trap: TCP service is unavailable in this execution"
      (tcpExchange S arguments)).novalue
  | .dollarHttpTransportExchange =>
    (s.guarded s.networkEnabled "VM trap: HTTP transport is unavailable in this execution"
      (httpTransportExchange S arguments)).novalue
  | .asyncFakeRead => (asyncFakeRead S arguments s).novalue
  | .processExit =>
    if s.embedded || S.httpRuntimeActive s.host then (processExit arguments sizeMax s).novalue
    else ordinaryBuiltin S .processExit entry arguments s
  | b => ordinaryBuiltin S b entry arguments s

/-- Executes a builtin, and records it. -/
def invoke (b : BuiltinName) (entry : Builtin) (arguments : List Value) (s : Execution H) :
    Invoked H :=
  let invoked := executionBuiltin S p b entry arguments s
  { invoked with execution := { invoked.execution with
      calls := ⟨b, entry, s.frames, invoked.execution.status == .waiting⟩ ::
        invoked.execution.calls } }

/-- The value of a builtin goes on the stack of its caller. -/
def Invoked.pushValue (invoked : Invoked H) : Execution H :=
  if !invoked.called && invoked.execution.status == .yielded then
    match invoked.value with
    | some v => invoked.execution.push v
    | none => if invoked.execution.error.isNone then invoked.execution.fail none
      else invoked.execution
  else invoked.execution

end Builtins

/-! ## Dispatch -/

section Dispatch

variable (S : Services H) (p : Program)

/-- `OP_CALL` and `OP_AWAIT_CALL`, in the frame of the caller. -/
def call (name : CString) (arity : ℕ) (awaited : Bool) (caller : Frame) (s : Execution H) :
    Execution H :=
  match caller.registers.popMany arity with
  | .error trap => s.fail (some trap)
  | .ok (arguments, registers) =>
    let s := s.setRegisters registers
    let error := "VM trap: invalid async call effect or signature"
    match builtinEntry name with
    | some (b, entry) =>
      if arity = entry.arity ∧ verifyCallEdge caller.function none entry.pure
          (builtinIsAsync (some entry)) (builtinIsLocalState (some entry)) awaited = true then
        (invoke S p b entry arguments s).pushValue
      else s.trap error
    | none =>
      match functionOf p name with
      | some called =>
        if arity = called.params.length ∧
            verifyCallEdge caller.function (some called) false false false awaited = true then
          s.framePush called arguments
        else s.trap error
      | none => s.trap error

/-- `OP_CALL_VALUE` and `OP_AWAIT_VALUE`, in the frame of the caller. -/
def callValue (arity : ℕ) (awaited : Bool) (caller : Frame) (s : Execution H) : Execution H :=
  match caller.registers.popMany arity with
  | .error trap => s.fail (some trap)
  | .ok (arguments, registers) =>
    match registers.pop with
    | .error trap => s.fail (some trap)
    | .ok (.str data, registers) =>
      let s := s.setRegisters registers
      let callee := CString.ofBytes data
      -- a name with a zero byte is looked up as far as that byte, and then turned away
      let whole := !data.contains 0
      let effect := if caller.function.pure then "VM trap: pure function invokes impure callable"
        else "VM trap: invalid async callable effect"
      match builtinEntry callee with
      | some (b, entry) =>
        if arity ≠ entry.arity then s.trap "VM trap: indirect call arity mismatch"
        else if whole && verifyCallEdge caller.function none entry.pure
            (builtinIsAsync (some entry)) (builtinIsLocalState (some entry)) awaited then
          (invoke S p b entry arguments s).pushValue
        else s.trap effect
      | none =>
        match functionOf p callee with
        | some called =>
          if arity ≠ called.params.length then s.trap "VM trap: indirect call arity mismatch"
          else if whole && verifyCallEdge caller.function
            (some called) false false false awaited then
            s.framePush called arguments
          else s.trap effect
        | none => s.trap "VM trap: indirect call target was not found"
    | .ok _ => s.trap "VM trap: indirect call requires a callable"

/-- `OP_RETURN`, in the frame that returns. -/
def returnFrom (frame : Frame) (s : Execution H) : Execution H :=
  match frame.registers.pop with
  | .error trap => s.fail (some trap)
  | .ok (v, _) =>
    if frame.function.isAsync && frame.function.name == CString.ascii "main" && v.kind != .unit then
      s.trap "VM trap: async main must return Unit"
    else
      let s := { s with frames := s.frames.tail }
      match s.frames with
      | [] => { s with result := some v, status := .completed }
      | _ :: _ => s.push v

/-- An instruction that is neither a call nor a return. -/
def operated (instruction : Instruction) (registers : Registers) (s : Execution H) : Execution H :=
  match operate S.render instruction registers s.heap with
  | .error trap => s.fail (some trap)
  | .ok (registers, heap) => { s.setRegisters registers with heap }

/-- One instruction, in its frame; the program counter is already past it. -/
def perform (instruction : Instruction) (frame : Frame) (s : Execution H) : Execution H :=
  match instruction with
  | .call name arity => call S p name arity false frame s
  | .awaitCall name arity => call S p name arity true frame s
  | .callValue arity => callValue S p arity false frame s
  | .awaitValue arity => callValue S p arity true frame s
  | .ret => returnFrom frame s
  | instruction => operated S instruction frame.registers s

/-- The body of the loop of `vm_execution_advance`. -/
def dispatch (s : Execution H) : Execution H :=
  match s.frames with
  | [] => s
  | frame :: frames =>
    match frame.function.ins[frame.registers.pc]? with
    | none => s.trap "VM trap: function did not return"
    | some instruction =>
      let frame := { frame with registers := { frame.registers with pc := frame.registers.pc + 1 } }
      perform S p instruction frame { s with frames := frame :: frames }

/-- The loop of `vm_execution_advance`. -/
def dispatchLoop : (budget : ℕ) → Execution H → Execution H
  | 0, s => s
  | budget + 1, s =>
    if s.error.isSome ∨ s.status ≠ .yielded then s
    else
      let s := dispatch S p s
      if s.yieldRequested then { s with yieldRequested := false } else dispatchLoop budget s

/-- The end of `vm_execution_advance`: an error traps, and an execution that has ended has no
frames. -/
def Execution.finish (s : Execution H) : Execution H :=
  let s := if s.error.isSome then { s with status := .trapped } else s
  if s.status = .yielded ∨ s.status = .waiting then s else { s with frames := [] }

/-- The start of `vm_execution_advance`: a shutdown has come to its end. -/
def Execution.resumeShutdown (s : Execution H) : Execution H :=
  match s.status, s.httpWaiting with
  | .waiting, some handle =>
    if S.resource handle s.host then s
    else { s.push httpUnitResult with status := .yielded, httpWaiting := none }
  | _, _ => s

/-- `vm_execution_advance`. -/
def advance (budget : ℕ) (s : Execution H) : Execution H :=
  let s := s.resumeShutdown S
  if s.status ≠ .yielded then s else (dispatchLoop S p budget s).finish

end Dispatch

/-! ## Entry points -/

/-- The services that an execution is created with. -/
structure Mode where
  embedded : Bool
  hostCall : Bool
  printWait : Bool
  readWait : Bool

/-- `vm_execution_create` and its variants, and the start of `execute`. -/
def create (mode : Mode) (function : Function) (arguments : List Value) (host : H) : Execution H :=
  Execution.framePush
    { frames := [], status := .yielded, result := none, exitStatus := 0, embedded := mode.embedded
      hostCall := mode.hostCall, printWait := mode.printWait, readWait := mode.readWait
      waitingRead := false, fakeFail := false, networkEnabled := false, serverReadEnabled := false
      tcp := false, http := false, server := false, rootRead := false, consoleWrite := false
      consoleEnabled := false, yieldRequested := false, httpWaiting := none
      filesystemEnabled := false, serverEnabled := false, error := none, heap := ⟨0, []⟩, host
      calls := [] }
    function arguments

namespace Execution

/-- The end of every completion: the result goes on the stack, or the execution traps. -/
def settle (s : Execution H) (error : Option Trap) (result : Option Value) : Execution H :=
  match error, result with
  | none, some v => { s.push v with error := none, status := .yielded }
  | none, none => { s with error := some outOfMemory, status := .trapped, frames := [] }
  | some trap, _ => { s with error := some trap, status := .trapped, frames := [] }

/-- `vm_execution_complete_print`. -/
def completePrint (error : Option String) (s : Execution H) : Execution H :=
  if s.status ≠ .waiting ∨ s.waitingRead ∨ s.server ∨ s.httpWaiting.isSome then s
  else s.settle (error.map fatal) (some .void)

/-- `vm_fake_read_result_valid`. -/
def fakeReadResultValid : Value → Bool
  | .variant name [.bytes _] => name == Str.asciiBytes "Ok"
  | .variant name [.str _] => name == Str.asciiBytes "Error"
  | _ => false

/-- `vm_execution_complete_read`. -/
def completeRead (result : Option Value) (s : Execution H) : Execution H :=
  if s.status ≠ .waiting ∨ !s.waitingRead ∨ s.tcp ∨ s.http then s
  else
    let s := { s with waitingRead := false }
    match result with
    | none => s.settle none none
    | some v =>
      if fakeReadResultValid v then s.settle s.error (some v)
      else s.settle (some (fatal "VM trap: invalid async completion type")) (some v)

/-- A poll of a service that is there; it may not have come to its end. -/
def poll {α : Type} (s : Execution H) (service : Bool) (complete : α → Execution H) :
    Option α → Execution H
  | some result => if s.status = .waiting ∧ service = true then complete result else s
  | none => s

/-- `vm_execution_poll_tcp`. -/
def pollTcp (outcome : Option (Option Value)) (s : Execution H) : Execution H :=
  s.poll s.tcp (fun result => completeRead result { s with tcp := false }) outcome

/-- `vm_execution_poll_http`. -/
def pollHttp (outcome : Option (Option Value)) (s : Execution H) : Execution H :=
  s.poll s.http (fun result => completeRead result { s with http := false }) outcome

/-- `vm_execution_poll_console`. -/
def pollConsole (outcome : Option (Option Value)) (s : Execution H) : Execution H :=
  s.poll s.consoleWrite (fun result => settle { s with consoleWrite := false } s.error result)
    outcome

/-- `vm_execution_poll_filesystem`; the outcome may have an error. -/
def pollFilesystem (outcome : Option (Option Trap × Option Value)) (s : Execution H) :
    Execution H :=
  s.poll s.rootRead (fun result => settle { s with rootRead := false } result.1 result.2) outcome

/-- `vm_execution_pump_server`. -/
def pumpServer (outcome : Option (Option Trap × Option Value)) (s : Execution H) : Execution H :=
  s.poll s.server (fun result => settle { s with server := false } result.1 result.2) outcome

/-- What each of the services has when `vm_execution_poll_network` asks for one of them. -/
structure Polls where
  console : Option (Option Value)
  filesystem : Option (Option Trap × Option Value)
  tcp : Option (Option Value)
  http : Option (Option Value)

/-- `vm_execution_poll_network`. -/
def pollNetwork (polls : Polls) (s : Execution H) : Execution H :=
  if s.consoleWrite then s.pollConsole polls.console
  else if s.rootRead then s.pollFilesystem polls.filesystem
  else if s.tcp then s.pollTcp polls.tcp
  else if s.http then s.pollHttp polls.http
  else s

/-- The `vm_execution_enable_` functions, which are for an execution that has not started to wait.
-/
def enable (s : Execution H) (enabled : Execution H) : Execution H :=
  if s.status = .yielded then enabled else s

end Execution

/-- What an embedder can do with an execution.  `execute`, the command line, is one order of these.
-/
inductive Input (H : Type) where
  | advance (budget : ℕ)
  | completePrint (error : Option String)
  | completeRead (result : Option Value)
  | pollTcp (outcome : Option (Option Value))
  | pollHttp (outcome : Option (Option Value))
  | pollConsole (outcome : Option (Option Value))
  | pollFilesystem (outcome : Option (Option Trap × Option Value))
  | pollNetwork (polls : Execution.Polls)
  | pumpServer (outcome : Option (Option Trap × Option Value))
  | enableServerReads
  | enableTcp
  | enableConsole
  | enableFilesystem
  | enableServer
  /-- The host goes on by itself: `vm_execution_stop_server`, the HTTP runtime, other executions. -/
  | host (state : H)

section Run

variable (S : Services H) (p : Program)

/-- `vm_execution_enable_server_reads`. -/
def respond (s : Execution H) : Input H → Execution H
  | .advance budget => advance S p budget s
  | .completePrint error => s.completePrint error
  | .completeRead result => s.completeRead result
  | .pollTcp outcome => s.pollTcp outcome
  | .pollHttp outcome => s.pollHttp outcome
  | .pollConsole outcome => s.pollConsole outcome
  | .pollFilesystem outcome => s.pollFilesystem outcome
  | .pollNetwork polls => s.pollNetwork polls
  | .pumpServer outcome => s.pumpServer outcome
  | .enableServerReads =>
    if s.embedded && s.readWait then s.enable { s with serverReadEnabled := true } else s
  | .enableTcp => s.enable { s with networkEnabled := true }
  | .enableConsole => s.enable { s with consoleEnabled := true }
  | .enableFilesystem => s.enable { s with filesystemEnabled := true }
  | .enableServer => s.enable { s with serverEnabled := true }
  | .host state => { s with host := state }

/-- A whole run. -/
def run (inputs : List (Input H)) (s : Execution H) : Execution H := inputs.foldl (respond S p) s

end Run

end Panackelty.Vm
