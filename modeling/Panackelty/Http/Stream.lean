import Panackelty.Http.Parser

/-!
# The streaming client

`packages/http/src/stream.panack`: a response is read from a transport in pieces, its head first
and its body through a callback.  The transport is the list of the answers that its reads give; when
they are used up it gives empty bytes, which mark the end.

Every loop reads or consumes in each round, so `Reader.size` rounds are enough for each of them.

* `Reader`, `more`: the bytes at hand, and one read.
* `line`, `copyPieces`, `expectEnd`: a line, a number of bytes, the end.
* `readHead`, `openResponse`: the head of a response.
* `foldBodyWithErrors`, `foldBody`: the body.
-/

namespace Panackelty.Http

/-- `transport_error` of `client.panack`. -/
def transportError (message : Str) : HttpError :=
  if message = Str.ascii "HTTP DNS failed" then .dnsFailure
  else if message = Str.ascii "HTTP connection failed" then .connectFailure
  else if message = Str.ascii "HTTP TLS verification failed" ∨
      message = Str.ascii "HTTP TLS failed" then .tlsFailure
  else if message = Str.ascii "HTTP transport timed out" then .timeout
  else if message = Str.ascii "HTTP response limit exceeded" then .limitExceeded "response"
  else .transportFailure (Str.ascii "HTTP transport failed")

/-- The answers that the reads of a transport give, in order. -/
abbrev Transport := List (Except Str Bytes)

/-- `Reader`. -/
structure Reader where
  transport : Transport
  buffer : Bytes
  eof : Bool

namespace Reader

/-- The rounds that an answer can give a loop: one to read it and one for each of its bytes. -/
def answerSize : Except Str Bytes → ℕ
  | .ok chunk => chunk.length + 1
  | .error _ => 1

/-- An upper bound on the rounds of a loop that reads or consumes in each round. -/
def size (reader : Reader) : ℕ :=
  reader.buffer.length + (reader.transport.map answerSize).sum + if reader.eof then 1 else 2

end Reader

/-- `ResponseStream`. -/
structure ResponseStream where
  transport : Transport
  status : ℕ
  headers : List Header
  buffer : Bytes
  contentLength : Option ℕ
  chunked : Bool
  headerBytes : ℕ

/-- `Line`. -/
structure Line where
  reader : Reader
  text : Bytes

/-- `Copied`. -/
structure Copied (S : Type) where
  reader : Reader
  count : ℕ
  state : S

/-- One read.  Reading past the last answer gives empty bytes. -/
def more (reader : Reader) : Except HttpError Reader :=
  if reader.eof then .ok reader
  else
    match reader.transport with
    | [] => .ok { reader with eof := true }
    | .error problem :: _ => .error (transportError problem)
    | .ok chunk :: rest => .ok ⟨rest, reader.buffer ++ chunk, chunk.isEmpty⟩

/-- The loop of `line`. -/
def lineLoop : ℕ → Reader → Except HttpError Line
  | 0, _ => .error (.protocolError "missing chunk line")
  | fuel + 1, current =>
    match findCrlf current.buffer 0 current.buffer.length with
    | some stop =>
      if stop > 8192 then .error (.limitExceeded "chunk line")
      else
        .ok ⟨{ current with buffer := copyBytes current.buffer (stop + 2) current.buffer.length },
          copyBytes current.buffer 0 stop⟩
    | none =>
      if current.buffer.length > 8192 then .error (.limitExceeded "chunk line")
      else if current.eof then .error (.protocolError "truncated chunk line")
      else
        match more current with
        | .error problem => .error problem
        | .ok next => lineLoop fuel next

/-- `line`. -/
def line (reader : Reader) : Except HttpError Line := lineLoop reader.size reader

section Callback

variable {S E : Type} (consume : S → Bytes → Except E S) (mapError : HttpError → E)

/-- The loop of `copy_bytes`. -/
def copyLoop (count : ℕ) : ℕ → Reader → ℕ → S → Except E (Copied S)
  | 0, _, _, _ => .error (mapError (.protocolError "truncated HTTP response body"))
  | fuel + 1, current, copied, state =>
    if copied < count then
      if current.buffer.length = 0 then
        if current.eof then .error (mapError (.protocolError "truncated HTTP response body"))
        else
          match more current with
          | .error problem => .error (mapError problem)
          | .ok next => copyLoop count fuel next copied state
      else
        let amount :=
          if current.buffer.length < count - copied then current.buffer.length else count - copied
        match consume state (copyBytes current.buffer 0 amount) with
        | .error problem => .error problem
        | .ok state =>
          copyLoop count fuel
            { current with buffer := copyBytes current.buffer amount current.buffer.length }
            (copied + amount) state
    else .ok ⟨current, copied, state⟩

/-- `copy_bytes`: the next `count` bytes, in the pieces they come in. -/
def copyPieces (reader : Reader) (count : ℕ) (initial : S) : Except E (Copied S) :=
  copyLoop consume mapError count reader.size reader 0 initial

end Callback

/-- `expect_end`. -/
def expectEnd (reader : Reader) : Except HttpError Unit :=
  if reader.buffer.length ≠ 0 then .error (.protocolError "extra bytes after HTTP response")
  else
    match more reader with
    | .error problem => .error problem
    | .ok next =>
      if next.buffer.length = 0 ∧ next.eof = true then .ok ()
      else .error (.protocolError "extra bytes after HTTP response")

/-- The loop of `read_head`. -/
def readHeadLoop (bodyLimit : ℕ) : ℕ → Reader → ℕ → ℕ → Except HttpError ResponseStream
  | 0, _, _, _ => .error (.protocolError "missing HTTP response")
  | fuel + 1, current, headers, informationals =>
    match findHeaderEndFrom current.buffer 0 with
    | none =>
      if headers + current.buffer.length > 65536 then .error (.limitExceeded "response headers")
      else if current.eof then .error (.protocolError "incomplete HTTP response headers")
      else
        match more current with
        | .error problem => .error problem
        | .ok next => readHeadLoop bodyLimit fuel next headers informationals
    | some stop =>
      let headers := headers + stop + 4
      if headers > 65536 then .error (.limitExceeded "response headers")
      else
        match responseHead current.buffer 0 stop bodyLimit with
        | .error problem => .error problem
        | .ok head =>
          let rest := copyBytes current.buffer head.bodyStart current.buffer.length
          if head.status < 200 then
            if informationals + 1 > 8 then .error (.limitExceeded "informational responses")
            else
              readHeadLoop bodyLimit fuel { current with buffer := rest } headers
                (informationals + 1)
          else
            .ok ⟨current.transport, head.status, head.headers, rest, head.contentLength,
              head.chunked, headers⟩

/-- `read_head`. -/
def readHead (transport : Transport) (bodyLimit : ℕ) : Except HttpError ResponseStream :=
  readHeadLoop bodyLimit (Reader.size ⟨transport, [], false⟩) ⟨transport, [], false⟩ 0 0

/-- `open_response` where `connection` is what parsing the URL and opening the transport gave. -/
def openResponse (connection : Except HttpError Transport) (timeoutMs bodyLimit : ℕ) :
    Except HttpError ResponseStream :=
  if bodyLimit = 0 ∨ bodyLimit > 67108864 ∨ timeoutMs = 0 ∨ timeoutMs > 60000 then
    .error .invalidLimits
  else
    match connection with
    | .error problem => .error problem
    | .ok transport => readHead transport bodyLimit

section Callback

variable {S E : Type} (consume : S → Bytes → Except E S) (mapError : HttpError → E)

/-- The loop over the chunks, up to the line of the last one. -/
def foldChunks (bodyLimit : ℕ) : ℕ → Reader → ℕ → S → Except E (Reader × S)
  | 0, _, _, _ => .error (mapError (.protocolError "missing chunk line"))
  | fuel + 1, reader, total, state =>
    match line reader with
    | .error problem => .error (mapError problem)
    | .ok found =>
      match parseChunkSize found.text 0 found.text.length (bodyLimit - total) with
      | .error problem => .error (mapError problem)
      | .ok size =>
        if size = 0 then .ok (found.reader, state)
        else
          match copyPieces consume mapError found.reader size state with
          | .error problem => .error problem
          | .ok copied =>
            match line copied.reader with
            | .error problem => .error (mapError problem)
            | .ok ending =>
              if ending.text.length ≠ 0 then
                .error (mapError (.protocolError "chunk data is missing CRLF"))
              else foldChunks bodyLimit fuel ending.reader (total + copied.count) copied.state

/-- The loop over the trailers and the check that nothing follows them. -/
def foldTrailers (headerBytes : ℕ) : ℕ → Reader → Except HttpError Unit
  | 0, _ => .error (.limitExceeded "response trailers")
  | fuel + 1, reader =>
    match parseTrailers reader.buffer 0 reader.eof headerBytes with
    | .error problem => .error problem
    | .ok (some offset) =>
      expectEnd { reader with buffer := copyBytes reader.buffer offset reader.buffer.length }
    | .ok none =>
      if headerBytes + reader.buffer.length > 65536 then .error (.limitExceeded "response trailers")
      else
        match more reader with
        | .error problem => .error problem
        | .ok next => foldTrailers headerBytes fuel next

/-- The loop over a body that the end of the transport ends. -/
def foldRest (bodyLimit : ℕ) : ℕ → Reader → ℕ → S → Except E S
  | 0, _, _, _ => .error (mapError (.limitExceeded "response body"))
  | fuel + 1, reader, total, state =>
    if reader.eof then .ok state
    else if total + reader.buffer.length > bodyLimit then
      .error (mapError (.limitExceeded "response body"))
    else
      match copyPieces consume mapError reader reader.buffer.length state with
      | .error problem => .error problem
      | .ok copied =>
        match more copied.reader with
        | .error problem => .error (mapError problem)
        | .ok next => foldRest bodyLimit fuel next (total + copied.count) copied.state

/-- `fold_body_with_errors`. -/
def foldBodyWithErrors (response : ResponseStream) (initial : S) (bodyLimit : ℕ) : Except E S :=
  let reader : Reader := ⟨response.transport, response.buffer, false⟩
  if bodyLimit = 0 ∨ bodyLimit > 67108864 then .error (mapError .invalidLimits)
  else if bodyForbidden response.status then
    match expectEnd reader with
    | .error problem => .error (mapError problem)
    | .ok () => .ok initial
  else
    match response.contentLength with
    | some length =>
      if length > bodyLimit then .error (mapError (.limitExceeded "response body"))
      else
        match copyPieces consume mapError reader length initial with
        | .error problem => .error problem
        | .ok copied =>
          match expectEnd copied.reader with
          | .error problem => .error (mapError problem)
          | .ok () => .ok copied.state
    | none =>
      if response.chunked then
        match foldChunks consume mapError bodyLimit reader.size reader 0 initial with
        | .error problem => .error problem
        | .ok (reader, state) =>
          match foldTrailers response.headerBytes reader.size reader with
          | .error problem => .error (mapError problem)
          | .ok () => .ok state
      else foldRest consume mapError bodyLimit reader.size reader 0 initial

end Callback

/-- `fold_body`. -/
def foldBody {S : Type} (response : ResponseStream) (initial : S)
    (consume : S → Bytes → Except HttpError S) (bodyLimit : ℕ) : Except HttpError S :=
  foldBodyWithErrors consume id response initial bodyLimit

/-- The status, the headers and the body that the client gets from a transport. -/
def streamResponse (transport : Transport) (bodyLimit : ℕ) : Except HttpError Response :=
  match openResponse (.ok transport) 60000 bodyLimit with
  | .error problem => .error problem
  | .ok response =>
    match foldBody response [] (fun body piece => .ok (body ++ piece)) bodyLimit with
    | .error problem => .error problem
    | .ok body => .ok ⟨response.status, response.headers, body⟩

end Panackelty.Http
