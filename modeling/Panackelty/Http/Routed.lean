import Panackelty.Http.Stream

/-!
# Serving a routed connection

`packages/http/src/routed_connection.panack` with `routing.panack`, `request.panack` and the error
statuses of `response_policy.panack`: a connection is read until its head is there, the head is
routed, the body is read, and the request goes to a handler or is rejected.

The connection is given by its routes and by what the runtime answers: whether the request is
admitted, and whether the interim response can be sent.  `Decision` is what `serve_connection` does.

* `dispatch`, `fromTransport`, `routeHead`: the head.
* `fixedBody`, `chunkedStep`, `chunkedBody`: the two kinds of bodies.
* `serveConnection`: the whole.
-/

namespace Panackelty.Http

open Str

/-! ## Heads -/

/-- `RouteKey`. -/
structure RouteKey where
  method : Str
  path : Str
  deriving DecidableEq

/-- `RouteDecision`. -/
inductive RouteDecision where
  | handler (index : ℕ)
  | fallback
  | notFound
  | methodNotAllowed (methods : Str)
  deriving DecidableEq

/-- `supported_method`. -/
def supportedMethod (method : Str) : Bool :=
  [Str.ascii "GET", ascii "POST", ascii "PUT", ascii "DELETE"].contains method

/-- What the loops of `dispatch` have found. -/
structure RouteScan where
  selected : Option ℕ
  pathFound : Bool
  allow : Str

/-- The loop over the routes for one method. -/
def scanMethod (routes : List RouteKey) (method path : Str) (scan : RouteScan) (candidate : Str) :
    RouteScan :=
  let hits := routes.zipIdx.filter fun route =>
    route.1.path == path && route.1.method == candidate
  match hits.getLast? with
  | none => scan
  | some (_, index) =>
    { selected := if method = candidate then some index else scan.selected
      pathFound := true
      allow :=
        if scan.allow = empty then candidate
        else scan.allow ++ ascii ", " ++ candidate }

/-- `dispatch`. -/
def dispatch (routes : List RouteKey) (hasFallback : Bool) (method path : Str) : RouteDecision :=
  let scan := [Str.ascii "GET", ascii "POST", ascii "PUT", ascii "DELETE"].foldl
    (scanMethod routes method path) ⟨none, false, empty⟩
  match scan.selected with
  | some index => .handler index
  | none =>
    if scan.pathFound then .methodNotAllowed scan.allow
    else if !supportedMethod method then .methodNotAllowed (ascii "GET, POST, PUT, DELETE")
    else if hasFallback then .fallback
    else .notFound

/-- The routed view of a request. -/
structure RoutedRequest where
  method : Str
  path : Str
  query : Str
  headers : List Header
  body : Bytes
  deriving DecidableEq

/-- `from_transport`: the target is cut at its first question mark. -/
def fromTransport (method target : Str) (headers : List Header) (body : Bytes) : RoutedRequest :=
  let path := target.bytes.takeWhile fun b => b != 63
  ⟨method, if path.isEmpty then ascii "/" else decodeUtf8 path,
    decodeUtf8 (target.bytes.drop (path.length + 1)), headers, body⟩

/-- `header_values`, whose names match without regard to case. -/
def headerValues (headers : List Header) (name : Str) : List Str :=
  (headers.filter fun field => field.name.bytes.map lowerByte == name.bytes.map lowerByte).map
    Header.value

/-- `error_status`. -/
def errorStatus : HttpError → ℕ
  | .unsupportedMethod _ => 405
  | .unsupportedVersion _ => 505
  | .unsupportedTransferEncoding => 501
  | .limitExceeded limit =>
    if limit = "request headers" ∨ limit = "request headers and trailers" then 431 else 413
  | .protocolError _ | .invalidRequest => 400
  | _ => 500

/-- The routes of the server, and what the runtime answers for the connection. -/
structure Connection where
  routes : List RouteKey
  fallback : Bool
  /-- The answer of `connection_admit`. -/
  admits : Bool
  /-- `connection_continue` can send the interim response. -/
  continues : Bool

/-- `reject`. -/
inductive Decision where
  | reject (status : ℕ) (allow : Str) (headOnly : Bool)
  | invoke (selected : Option ℕ) (request : RoutedRequest)
  deriving DecidableEq

/-- The interim response is asked for; `none` where the expectation is not known. -/
def expectation (headers : List Header) : Option Bool :=
  match headerValues headers (ascii "Expect") with
  | [] => some false
  | [value] => if lowerAscii value = ascii "100-continue" then some true else none
  | _ => none

/-- What `serve_connection` decides from the head alone: a status with the allowed methods, or the
handler and whether the client expects an interim response. -/
def routeHead (connection : Connection) (head : RequestHead) (received : ℕ) :
    Except (ℕ × Str) (Option ℕ × Bool) :=
  let view := fromTransport head.method head.target head.headers []
  match expectation view.headers with
  | none => .error (417, empty)
  | some expect =>
    let routed : Except (ℕ × Str) (Option ℕ) :=
      match dispatch connection.routes connection.fallback view.method view.path with
      | .handler index => .ok (some index)
      | .fallback => .ok none
      | .notFound => .error (404, empty)
      | .methodNotAllowed methods => .error (405, methods)
    match routed with
    | .error rejection => .error rejection
    | .ok selected =>
      if head.contentLength = none ∧ head.chunked = false ∧ received ≠ head.bodyStart then
        .error (400, empty)
      else if !connection.admits then .error (503, empty)
      else .ok (selected, expect)

/-! ## Bodies -/

/-- `body_append`: the body of a connection has at most 1 MiB. -/
def bodyAppend (body bytes : Bytes) : Option Bytes :=
  if bytes.length > 1048576 - body.length then none else some (body ++ bytes)

/-- `more`: the next read, after the interim response where it is still to be sent. -/
def nextRead (connection : Connection) (expect continued : Bool) (reads : Transport) :
    Except ℕ (Bytes × Transport) :=
  if expect && !continued && !connection.continues then .error 400
  else
    match reads with
    | [] | .error _ :: _ => .error 400
    | .ok bytes :: rest => if bytes.isEmpty then .error 400 else .ok (bytes, rest)

/-- The loop of `fixed_body`, which reads once in each round. -/
def fixedLoop (connection : Connection) (length : ℕ) (expect : Bool) :
    ℕ → Bool → Transport → Bytes → Except ℕ Bytes
  | 0, _, _, _ => .error 400
  | fuel + 1, continued, reads, body =>
    if body.length < length then
      match nextRead connection expect continued reads with
      | .error status => .error status
      | .ok (bytes, rest) =>
        if body.length + bytes.length > length then .error 400
        else
          match bodyAppend body bytes with
          | none => .error 413
          | some body => fixedLoop connection length expect fuel true rest body
    else .ok body

/-- `fixed_body`. -/
def fixedBody (connection : Connection) (initial : Bytes) (length : ℕ) (expect : Bool)
    (reads : Transport) : Except ℕ Bytes :=
  if initial.length > length then .error 400
  else
    match bodyAppend [] initial with
    | none => .error 413
    | some body => fixedLoop connection length expect (reads.length + 2) false reads body

/-- What `chunked_body` reads next: a size line, data, the line end after data, a trailer. -/
inductive Phase where
  | size
  | data
  | ending
  | trailers
  deriving DecidableEq

/-- The state of the loop of `chunked_body`, with the body of its connection. -/
structure ChunkState where
  reads : Transport
  buffer : Bytes
  cursor : ℕ
  phase : Phase
  remaining : ℕ
  trailerBytes : ℕ
  continued : Bool
  body : Bytes

namespace ChunkState

/-- The bytes of the buffer that are not used yet. -/
def available (state : ChunkState) : ℕ := state.buffer.length - state.cursor

end ChunkState

/-- What a round of `chunked_body` comes to. -/
inductive ChunkRound where
  | failed (status : ℕ)
  | done (body : Bytes)
  | next (state : ChunkState)
  | needMore

/-- A round that reads a size line. -/
def sizeRound (state : ChunkState) : ChunkRound :=
  match findCrlf state.buffer state.cursor state.buffer.length with
  | none => if state.available > 16384 then .failed 431 else .needMore
  | some stop =>
    if state.body.length ≤ 1048576 then
      match parseChunkSize state.buffer state.cursor stop (1048576 - state.body.length) with
      | .error problem => .failed (errorStatus problem)
      | .ok size =>
        .next { state with
          remaining := size
          cursor := stop + 2
          phase := if size = 0 then .trailers else .data }
    else .failed 413

/-- A round that reads data of a chunk. -/
def dataRound (state : ChunkState) : ChunkRound :=
  let count := if state.available < state.remaining then state.available else state.remaining
  if count = 0 then .needMore
  else
    match bodyAppend state.body (copyBytes state.buffer state.cursor (state.cursor + count)) with
    | none => .failed 413
    | some body =>
      .next { state with
        body
        cursor := state.cursor + count
        remaining := state.remaining - count
        phase := if state.remaining - count = 0 then .ending else .data }

/-- A round that reads the line end after the data of a chunk. -/
def endingRound (state : ChunkState) : ChunkRound :=
  if state.available < 2 then .needMore
  else if !isCrlf state.buffer state.cursor then .failed 400
  else .next { state with cursor := state.cursor + 2, phase := .size }

/-- A round that reads a trailer line. -/
def trailerRound (headerBytes : ℕ) (state : ChunkState) : ChunkRound :=
  match findCrlf state.buffer state.cursor state.buffer.length with
  | none =>
    if headerBytes + state.trailerBytes + state.available > 16384 then .failed 431 else .needMore
  | some stop =>
    let trailerBytes := state.trailerBytes + (stop - state.cursor) + 2
    if headerBytes + trailerBytes > 16384 then .failed 431
    else if stop = state.cursor then
      if stop + 2 ≠ state.buffer.length then .failed 400 else .done state.body
    else
      match parseHeader state.buffer state.cursor stop with
      | .error problem => .failed (errorStatus problem)
      | .ok header =>
        if framingField header then .failed 400
        else .next { state with trailerBytes, cursor := stop + 2 }

/-- One round of `chunked_body`. -/
def chunkedStep (headerBytes : ℕ) (state : ChunkState) : ChunkRound :=
  match state.phase with
  | .size => sizeRound state
  | .data => dataRound state
  | .ending => endingRound state
  | .trailers => trailerRound headerBytes state

/-- The rounds left: a round uses a byte of the buffer or takes a read. -/
def ChunkState.size (state : ChunkState) : ℕ :=
  state.available + (state.reads.map Reader.answerSize).sum + 1

/-- The loop of `chunked_body`.  A round that needs more drops the used bytes and reads. -/
def chunkedLoop (connection : Connection) (headerBytes : ℕ) (expect : Bool) :
    ℕ → ChunkState → Except ℕ Bytes
  | 0, _ => .error 400
  | fuel + 1, state =>
    match chunkedStep headerBytes state with
    | .failed status => .error status
    | .done body => .ok body
    | .next state => chunkedLoop connection headerBytes expect fuel state
    | .needMore =>
      match nextRead connection expect state.continued state.reads with
      | .error status => .error status
      | .ok (bytes, rest) =>
        chunkedLoop connection headerBytes expect fuel
          { state with
            reads := rest
            buffer := copyBytes state.buffer state.cursor state.buffer.length ++ bytes
            cursor := 0
            continued := true }

/-- `chunked_body`. -/
def chunkedBody (connection : Connection) (initial : Bytes) (headerBytes : ℕ) (expect : Bool)
    (reads : Transport) : Except ℕ Bytes :=
  let state : ChunkState := ⟨reads, initial, 0, .size, 0, 0, false, []⟩
  chunkedLoop connection headerBytes expect state.size state

/-! ## The whole -/

/-- The loop that reads the head: what was received, the head and the reads left. -/
def headLoop : Transport → Bytes → Except (ℕ × Bytes) (RequestHead × Bytes × Transport)
  | [], incoming | .error _ :: _, incoming => .error (400, incoming)
  | .ok bytes :: rest, incoming =>
    if bytes.isEmpty then .error (400, incoming)
    else
      match parseRoutedHead (incoming ++ bytes) with
      | .error problem => .error (errorStatus problem, incoming ++ bytes)
      | .ok (some head) => .ok (head, incoming ++ bytes, rest)
      | .ok none => headLoop rest (incoming ++ bytes)

/-- Whether the rejection is sent without its body. -/
def isHeadRequest (incoming : Bytes) : Bool :=
  5 ≤ incoming.length && incoming.take 5 == asciiBytes "HEAD "

/-- The body that the head announces, after what was received with the head. -/
def requestBody (connection : Connection) (head : RequestHead) (incoming : Bytes) (expect : Bool)
    (rest : Transport) : Except ℕ Bytes :=
  let initial := copyBytes incoming head.bodyStart incoming.length
  if head.chunked then chunkedBody connection initial head.bodyStart expect rest
  else fixedBody connection initial (head.contentLength.getD 0) expect rest

/-- `serve_connection`. -/
def serveConnection (connection : Connection) (reads : Transport) : Decision :=
  match headLoop reads [] with
  | .error (status, incoming) => .reject status empty (isHeadRequest incoming)
  | .ok (head, incoming, rest) =>
    match routeHead connection head incoming.length with
    | .error (status, allow) => .reject status allow (isHeadRequest incoming)
    | .ok (selected, expect) =>
      match requestBody connection head incoming expect rest with
      | .error status => .reject status empty (isHeadRequest incoming)
      | .ok body =>
        .invoke selected (fromTransport head.method head.target head.headers body)

end Panackelty.Http
