import Panackelty.Vm.Execute

/-!
# `vm/http_state.c`, `vm/builtins_http_state.c`: the state behind HTTP values

HTTP values are references: to a server handle, to a connection and to the writer of its response.
What they refer to is kept by address in a world, and addresses are never used again.  A connection
is made for one execution, which goes by the address of the connection.

* `HttpState`, `HttpWriter`, `HttpConnection`, `World`: what the values refer to.
* `httpStateCall`, `httpWriterCall`, `httpConnectionCall`: the builtins.
* `httpConnectionEnd`: the end of a connection.
-/

namespace Panackelty.Vm

/-- `VMHttpPhase`. -/
inductive HttpPhase where
  | created | listening | closing | closed | destroyed
  deriving DecidableEq, Repr

/-- `VMHttpRoute`. -/
structure HttpRoute where
  method : Value
  path : Value
  handler : Value

/-- `VMHttpState`. -/
structure HttpState where
  phase : HttpPhase
  contextual : Bool
  address : Value
  port : Value
  context : Value
  fallback : Option Value
  routes : List HttpRoute
  admitted : ℕ
  setupError : Option String
  /-- The resource that listens for it. -/
  resource : Option ℕ

/-- `VMHttpWriter`. -/
structure HttpWriter where
  ended : Bool
  completed : Bool
  status : ℕ
  headers : Value
  wire : Option Bytes

/-- `VMHttpConnection`; its client is there until it has ended. -/
structure HttpConnection where
  ended : Bool
  admitted : Bool
  /-- The address of the server handle. -/
  server : Option ℕ
  /-- Whether its execution is still attached. -/
  execution : Bool
  /-- The address of the writer. -/
  writer : ℕ
  body : Bytes

/-- `VMHttpResource`, as far as executions see it. -/
structure HttpResource where
  /-- The address of the server handle. -/
  handle : ℕ
  closeRequested : Bool
  destroyRequested : Bool
  worker : Function
  outbound : Bool
  filesystem : Bool
  console : Bool

/-- The lists of `VMHttpRuntime`, by place in the table of all resources. -/
structure HttpLists where
  /-- Whether there is a runtime. -/
  available : Bool
  resources : List HttpResource
  active : List ℕ
  pending : List ℕ
  exitRequested : Bool
  exitStatus : ℕ

/-- All that values point to. -/
structure World where
  states : List HttpState
  writers : List HttpWriter
  connections : List HttpConnection
  runtime : HttpLists

namespace World

variable (w : World)

/-- A change of one server. -/
def modifyState (a : ℕ) (f : HttpState → HttpState) : World :=
  { w with states := w.states.modify a f }

/-- A change of one writer. -/
def modifyWriter (a : ℕ) (f : HttpWriter → HttpWriter) : World :=
  { w with writers := w.writers.modify a f }

/-- A change of one connection. -/
def modifyConnection (a : ℕ) (f : HttpConnection → HttpConnection) : World :=
  { w with connections := w.connections.modify a f }

end World

/-! ## Server handles -/

/-- One octet of `valid_address`: its digits, and what follows. -/
def addressOctet (text : Bytes) : Option Bytes :=
  let digits := text.takeWhile fun c => 48 ≤ c && c ≤ 57
  let number := digits.foldl (fun n c => n * 10 + (c.toNat - 48)) 0
  if digits.isEmpty || 3 < digits.length || 255 < number ||
      (1 < digits.length && digits.head? == some 48) then none
  else some (text.drop digits.length)

/-- `valid_address`, for so many octets. -/
def addressOctets : ℕ → Bytes → Bool
  | 0, _ => false
  | 1, text => addressOctet text == some []
  | octets + 1, text =>
    match addressOctet text with
    | some (46 :: rest) => addressOctets octets rest
    | _ => false

/-- `valid_address`. -/
def validAddress : Value → Bool
  | .str text => addressOctets 4 text
  | _ => false

/-- `http_state_set_error`. -/
def HttpState.setError (error : String) (state : HttpState) : HttpState :=
  { state with setupError := some (state.setupError.getD error) }

/-- `create_bound_server`. -/
def httpStateCreate (address port context : Value) : HttpState :=
  let state : HttpState :=
    { phase := .created, contextual := false, address, port, context, fallback := none, routes := []
      admitted := 0, setupError := none, resource := none }
  let state := if validAddress address then state else state.setError "invalid IPv4 bind address"
  match valueIndex port with
  | some number => if number = 0 ∨ 65535 < number then state.setError "port must be in 1..65535"
      else state
  | none => state.setError "port must be in 1..65535"

/-- `http_state_register`; the method is empty for the fallback. -/
def httpStateRegister (method path handler : Bytes) (state : HttpState) : HttpState :=
  if method.isEmpty then
    match state.fallback with
    | some _ => state.setError "duplicate fallback"
    | none => { state with fallback := some (.str handler) }
  else if state.routes.any fun route =>
      valueEqual (.str method) route.method && valueEqual (.str path) route.path then
    state.setError "duplicate method and path"
  else { state with routes := state.routes ++ [⟨.str method, .str path, .str handler⟩] }

/-- The operations on a server handle, apart from its creation. -/
def httpStateOperation (b : BuiltinName) (arguments : List Value) (a : ℕ) (state : HttpState)
    (w : World) : Except Failure Value × World :=
  match b with
  | .httpStateContext => (.ok state.context, w)
  | .httpStateSetupError =>
    (.ok (match state.setupError with
      | some error => .variant (Str.asciiBytes "Some") [.str (Str.asciiBytes error)]
      | none => .variant (Str.asciiBytes "None") []), w)
  | _ =>
    if state.phase ≠ .created then
      (.error (some (request "VM trap: HTTP registration requires a Created server")), w)
    else
      match b, argument arguments 1, argument arguments 2, argument arguments 3 with
      | .httpStateFailSetup, _, _, _ =>
        (.ok .unit, w.modifyState a (HttpState.setError "invalid route URI reference"))
      | .httpStateRegister, .str method, .str path, .str handler =>
        (.ok .unit, w.modifyState a (httpStateRegister method path handler))
      | .httpStateRegister, _, _, _ =>
        (.error (some (fatal "VM trap: invalid HTTP registration operands")), w)
      | _, _, _, _ => (.error (some (fatal "VM trap: unknown HTTP state operation")), w)

/-- `builtins_http_state_call`. -/
def httpStateCall (b : BuiltinName) (arguments : List Value) (w : World) :
    Except Failure Value × World :=
  match b, argument arguments 0, argument arguments 1 with
  | .httpStateCreate, .str address, .nat port =>
    (.ok (.httpState w.states.length), { w with
      states := w.states ++ [httpStateCreate (.str address) (.nat port) (argument arguments 2)] })
  | .httpStateCreate, _, _ =>
    (.error (some (fatal "VM trap: invalid HTTP state constructor operands")), w)
  | b, .httpState a, _ =>
    match w.states[a]? with
    | some state => httpStateOperation b arguments a state w
    | none => (.error (some (fatal "VM trap: invalid HTTP server handle")), w)
  | _, _, _ => (.error (some (fatal "VM trap: invalid HTTP server handle")), w)

/-! ## Writers -/

/-- `http_writer_create`. -/
def httpWriterCreate : HttpWriter := ⟨false, false, 200, .array [], none⟩

/-- A pair of `http_writer_headers`. -/
def isHeaderPair : Value → Bool
  | .array [.str _, .str _] => true
  | _ => false

/-- The operations on a writer that is open. -/
def httpWriterOperation (b : BuiltinName) (operand : Value) (a : ℕ) (w : World) :
    Except Failure Value × World :=
  match b, operand with
  | .httpWriterReject, _ => (.error (some (request "VM trap: invalid HTTP response")), w)
  | .httpWriterStatus, .nat n =>
    match valueIndex (.nat n) with
    | some status =>
      if status < 200 ∨ 599 < status then
        (.error (some (request "VM trap: HTTP status must be in 200..599")), w)
      else (.ok .unit, w.modifyWriter a fun writer => { writer with status })
    | none => (.error (some (request "VM trap: HTTP status must be in 200..599")), w)
  | .httpWriterStatus, _ => (.error (some (fatal "VM trap: invalid HTTP status operand")), w)
  | .httpWriterHeaders, .array items =>
    if items.all isHeaderPair then
      (.ok .unit, w.modifyWriter a fun writer => { writer with headers := .array items })
    else (.error (some (fatal "VM trap: invalid HTTP header pair")), w)
  | .httpWriterHeaders, _ => (.error (some (fatal "VM trap: invalid HTTP headers operand")), w)
  | .httpWriterCommit, .bytes data =>
    (.ok .unit, w.modifyWriter a fun writer => { writer with wire := some data, completed := true })
  | .httpWriterCommit, _ => (.error (some (fatal "VM trap: invalid HTTP wire operand")), w)
  | _, _ => (.error (some (fatal "VM trap: unknown HTTP writer operation")), w)

/-- `builtins_http_writer_call`. -/
def httpWriterCall (b : BuiltinName) (arguments : List Value) (w : World) :
    Except Failure Value × World :=
  match argument arguments 0 with
  | .httpWriter a =>
    match w.writers[a]? with
    | none => (.error (some (fatal "VM trap: invalid HTTP response writer")), w)
    | some writer =>
      if writer.ended then
        (.error (some (request "VM trap: HTTP response writer has expired")), w)
      else if b = .httpWriterGetStatus then (.ok (valueSize writer.status), w)
      else if b = .httpWriterGetHeaders then (.ok writer.headers, w)
      else if writer.completed then
        (.error (some (request "VM trap: HTTP response already completed")), w)
      else httpWriterOperation b (argument arguments 1) a w
  | _ => (.error (some (fatal "VM trap: invalid HTTP response writer")), w)

/-! ## Connections -/

/-- `http_live_connection`: the address of the connection, for the execution that it was made for.
-/
def httpLiveConnection (current : Option ℕ) (value : Value) (w : World) :
    Except Trap (ℕ × HttpConnection × ℕ) :=
  match value with
  | .httpConnection a =>
    match w.connections[a]? with
    | none => .error (fatal "VM trap: invalid HTTP connection handle")
    | some connection =>
      match connection.server with
      | some server =>
        if connection.ended ∨ ¬(current = some a ∧ connection.execution = true) then
          .error (request "VM trap: HTTP connection has expired or belongs to another request")
        else .ok (a, connection, server)
      | none =>
        .error (request "VM trap: HTTP connection has expired or belongs to another request")
  | _ => .error (fatal "VM trap: invalid HTTP connection handle")

/-- `http_bytes_slice`. -/
def httpBytesSlice (arguments : List Value) : Except Failure Value :=
  match argument arguments 0, argument arguments 1, argument arguments 2 with
  | .bytes data, .nat start, .nat stop =>
    match valueIndex (.nat start), valueIndex (.nat stop) with
    | some start, some stop =>
      if stop < start ∨ data.length < stop
        then .error (some (request "VM trap: invalid HTTP byte slice"))
      else .ok (.bytes ((data.drop start).take (stop - start)))
    | _, _ => .error (some (request "VM trap: invalid HTTP byte slice"))
  | _, _, _ => .error (some (fatal "VM trap: invalid HTTP byte slice operands"))

/-- `http_body_append`. -/
def httpBodyAppend (arguments : List Value) (a : ℕ) (connection : HttpConnection) (w : World) :
    Except Failure Value × World :=
  match connection.admitted, argument arguments 1, argument arguments 2, argument arguments 3 with
  | true, .bytes data, .nat start, .nat stop =>
    match valueIndex (.nat start), valueIndex (.nat stop) with
    | some start, some stop =>
      if stop < start ∨ data.length < stop then
        (.error (some (fatal "VM trap: invalid HTTP body range")), w)
      else if 1048576 - connection.body.length < stop - start then (.ok (.bool false), w)
      else (.ok (.bool true), w.modifyConnection a fun connection =>
        { connection with body := connection.body ++ (data.drop start).take (stop - start) })
    | _, _ => (.error (some (fatal "VM trap: invalid HTTP body range")), w)
  | _, _, _, _ => (.error (some (fatal "VM trap: invalid HTTP body append operands")), w)

/-- `http_connection_admit`. -/
def httpConnectionAdmit (a : ℕ) (connection : HttpConnection) (server : ℕ) (state : HttpState)
    (w : World) : Bool × World :=
  if connection.admitted then (true, w)
  else if state.admitted = 4 then (false, w)
  else (true, (w.modifyConnection a fun connection =>
    { connection with admitted := true }).modifyState
    server fun state => { state with admitted := state.admitted + 1 })

/-- `builtins_http_connection_call`. -/
def httpConnectionCall (current : Option ℕ) (b : BuiltinName) (arguments : List Value) (w : World) :
    Except Failure Value × World :=
  if b = .httpBytesSlice then (httpBytesSlice arguments, w)
  else
    match httpLiveConnection current (argument arguments 0) w with
    | .error trap => (.error (some trap), w)
    | .ok (a, connection, server) =>
      match w.states[server]? with
      | none => (.error none, w)
      | some state =>
        match b with
        | .httpBodySize => (.ok (valueSize connection.body.length), w)
        | .httpBody => (.ok (.bytes connection.body), w)
        | .httpBodyAppend => httpBodyAppend arguments a connection w
        | .httpConnectionWriter => (.ok (.httpWriter connection.writer), w)
        | .httpConnectionFallback => (.ok (.bool state.fallback.isSome), w)
        | .httpConnectionAdmit =>
          let (admitted, w) := httpConnectionAdmit a connection server state w
          (.ok (.bool admitted), w)
        | .httpConnectionRoutes =>
          (.ok (.array (state.routes.map fun route => .array [route.method, route.path])), w)
        | _ => (.error (some (fatal "VM trap: unknown HTTP connection operation")), w)

/-- What `http_connection_handler` reads. -/
def httpConnectionView (current : Option ℕ) (value : Value) (w : World) : Except Trap Connection :=
  match httpLiveConnection current value w with
  | .error trap => .error trap
  | .ok (_, connection, server) =>
    match w.states[server]? with
    | none => .error (fatal "VM trap: missing HTTP handler")
    | some state => .ok ⟨connection.admitted, state.fallback, state.routes.map HttpRoute.handler,
        if state.contextual then some state.context else none⟩

/-- `http_connection_end`. -/
def httpConnectionEnd (a : ℕ) (w : World) : World :=
  match w.connections[a]? with
  | none => w
  | some connection =>
    let w := match connection.admitted, connection.server with
      | true, some server =>
        w.modifyState server fun state => { state with admitted := state.admitted - 1 }
      | _, _ => w
    (w.modifyConnection a fun connection =>
      { connection with
        admitted := connection.admitted && connection.server.isNone
        ended := true, server := none, execution := false }).modifyWriter connection.writer
      fun writer => { writer with ended := true }

/-! ## Shutdown -/

/-- `http_runtime_active`. -/
def World.active (w : World) : Bool := !(w.runtime.active.isEmpty && w.runtime.pending.isEmpty)

/-- The place of the first listed resource of a handle. -/
def World.listed (w : World) (handle : ℕ) : Option ℕ :=
  (w.runtime.active ++ w.runtime.pending).find? fun r =>
    (w.runtime.resources[r]?).any fun resource => resource.handle == handle

/-- `http_runtime_request_close`. -/
def httpRuntimeRequestClose (handle : ℕ) (destroy : Bool) (w : World) : Bool × World :=
  match w.states[handle]? with
  | none => (false, w)
  | some state =>
    match state.resource with
    | none =>
      (true, w.modifyState handle fun state =>
        if destroy then { state with phase := .destroyed }
        else if state.phase = .created then { state with phase := .closed } else state)
    | some _ =>
      match if w.runtime.available then w.listed handle else none with
      | none => (false, w)
      | some r =>
        let requested := (w.runtime.resources[r]?).any HttpResource.destroyRequested || destroy
        (true, { w with
          runtime := { w.runtime with resources := w.runtime.resources.modify r fun resource =>
            { resource with closeRequested := true, destroyRequested := requested } }
          states := w.states.modify handle fun state =>
            { state with phase := if requested then .destroyed else .closing } })

/-- The body of the loop of `http_runtime_stop`. -/
def World.stopResource (w : World) (r : ℕ) : World :=
  match w.runtime.resources[r]? with
  | none => w
  | some resource =>
    { w with
      runtime := { w.runtime with resources := w.runtime.resources.modify r fun resource =>
        { resource with closeRequested := true } }
      states := w.states.modify resource.handle fun state =>
        if state.phase = .destroyed then state else { state with phase := .closing } }

/-- `http_runtime_stop`. -/
def httpRuntimeStop (w : World) : World :=
  (w.runtime.active ++ w.runtime.pending).foldl World.stopResource w

end Panackelty.Vm
