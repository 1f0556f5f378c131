import Panackelty.Text

/-!
# The HTTP message parser

`packages/http/src/parser.panack`: requests, responses and chunked bodies.  The source passes a
buffer with the two ends of a window.  A function that only reads the window starts here by taking
it (`copyBytes`); a function that looks for the end of something keeps the buffer and its cursor.

* `findCrlf`, `findHeaderEnd`: where a line and a head end.
* `parseHeader`, `headerLines`: one header line, and the lines of a head.
* `parseRequestLine`, `requestHead`: the head of a request.
* `parseChunkSize`, `parseTrailers`, `decodeChunked`: chunked bodies.
* `parseRequestForMethods`: the parser of whole requests.
* `responseHead`, `parseResponse`: the parser of whole responses.
-/

namespace Panackelty.Http

open Str

/-- `Header`. -/
structure Header where
  name : Str
  value : Str
  deriving DecidableEq

/-- `Request`. -/
structure Request where
  method : Str
  target : Str
  headers : List Header
  body : Bytes
  deriving DecidableEq

/-- `Response`. -/
structure Response where
  status : ℕ
  headers : List Header
  body : Bytes
  deriving DecidableEq

/-- `HttpError`. -/
inductive HttpError where
  | invalidUrl (url : Str)
  | invalidLimits
  | dnsFailure
  | connectFailure
  | tlsFailure
  | timeout
  | protocolError (message : String)
  | limitExceeded (limit : String)
  | cancelled
  | unsupportedHost
  | unsupportedMethod (method : Str)
  | unsupportedVersion (version : Str)
  | unsupportedTransferEncoding
  | invalidRequest
  | invalidResponse
  | transportFailure (message : Str)
  deriving DecidableEq

/-- `RequestHead`. -/
structure RequestHead where
  method : Str
  target : Str
  headers : List Header
  bodyStart : ℕ
  contentLength : Option ℕ
  chunked : Bool
  deriving DecidableEq

/-- `ResponseHead`. -/
structure ResponseHead where
  status : ℕ
  headers : List Header
  bodyStart : ℕ
  contentLength : Option ℕ
  chunked : Bool
  deriving DecidableEq

/-- `ChunkedBody`. -/
structure ChunkedBody where
  body : Bytes
  next : ℕ
  deriving DecidableEq

/-- `RequestLine`. -/
structure RequestLine where
  method : Str
  target : Str
  deriving DecidableEq

/-- `http_header_limit`. -/
def httpHeaderLimit : ℕ := 65536

/-! ## Bytes -/

/-- `byte_at`. -/
def byteAt (data : Bytes) (index : ℕ) : ℕ := (data.getD index 0).toNat

/-- `copy_bytes`. -/
def copyBytes (data : Bytes) (start stop : ℕ) : Bytes := (data.take stop).drop start

/-- `decode_utf8`.  The host stops on other bytes; every caller below has checked its bytes. -/
def decodeUtf8 (data : Bytes) : Str := if h : utf8 data = true then ⟨data, h⟩ else empty

/-- A line end at a position. -/
def isCrlf (data : Bytes) (cursor : ℕ) : Bool :=
  byteAt data cursor == 13 && byteAt data (cursor + 1) == 10

/-- `find_crlf`: the first line end at or after `start`, both of its bytes before `limit`. -/
def findCrlf (data : Bytes) (start limit : ℕ) : Option ℕ :=
  (List.range' start (limit - 1 - start)).find? fun cursor => isCrlf data cursor

/-- `find_header_end_from`: the first empty line at or after `start`. -/
def findHeaderEndFrom (data : Bytes) (start : ℕ) : Option ℕ :=
  (List.range' start (data.length - 3 - start)).find? fun cursor =>
    isCrlf data cursor && isCrlf data (cursor + 2)

/-- `find_header_end`. -/
def findHeaderEnd (data : Bytes) : Option ℕ := findHeaderEndFrom data 0

/-- `ascii_digit`. -/
def asciiDigit (value : ℕ) : Bool := 48 ≤ value && value ≤ 57

/-- `ascii_upper`. -/
def asciiUpper (value : ℕ) : Bool := 65 ≤ value && value ≤ 90

/-- `ascii_lower`. -/
def asciiLower (value : ℕ) : Bool := 97 ≤ value && value ≤ 122

/-- `token_byte`. -/
def tokenByte (value : ℕ) : Bool :=
  asciiDigit value || asciiUpper value || asciiLower value ||
    [33, 35, 36, 37, 38, 39, 42, 43, 45, 46, 94, 95, 96, 124, 126].contains value

/-- The bytes of a field value: visible ones, blanks and tabs. -/
def fieldByte (value : ℕ) : Bool := value == 9 || (32 ≤ value && value ≤ 126)

/-- A blank or a tab. -/
def owsByte (value : ℕ) : Bool := value == 32 || value == 9

/-- `fold`. -/
def lowerByte (b : UInt8) : UInt8 := if asciiUpper b.toNat then b + 32 else b

/-- `lower_ascii`. -/
def lowerAscii (value : Str) : Str := decodeUtf8 (value.bytes.map lowerByte)

/-! ## Header lines -/

/-- The value of a field without the blanks around it: `trim_ows_start` and `trim_ows_end`. -/
def trimOws (value : Bytes) : Bytes :=
  ((value.dropWhile fun b => owsByte b.toNat).reverse.dropWhile fun b => owsByte b.toNat).reverse

/-- `parse_header`. -/
def parseHeader (data : Bytes) (start stop : ℕ) : Except HttpError Header :=
  let line := copyBytes data start stop
  match line with
  | [] => .error (.protocolError "invalid HTTP header line")
  | first :: _ =>
    if owsByte first.toNat then .error (.protocolError "invalid HTTP header line")
    else
      let name := line.takeWhile fun b => b != 58
      match line.drop name.length with
      | [] => .error (.protocolError "HTTP header is missing a colon")
      | _ :: value =>
        if name.isEmpty || !name.all (fun b => tokenByte b.toNat) ||
            !value.all (fun b => fieldByte b.toNat) then
          .error (.protocolError "invalid HTTP header name or value")
        else .ok ⟨decodeUtf8 name, decodeUtf8 (trimOws value)⟩

/-- The loop over the lines of a head.  Every round passes a line end, so the length of the head
is enough fuel. -/
def headerLines {σ : Type} (field : σ → Header → Except HttpError σ) (data : Bytes)
    (headerEnd : ℕ) : ℕ → ℕ → σ → Except HttpError σ
  | 0, _, fields => .ok fields
  | fuel + 1, cursor, fields =>
    if cursor < headerEnd then
      match findCrlf data cursor (headerEnd + 2) with
      | none => .error (.protocolError "invalid HTTP header terminator")
      | some stop =>
        match parseHeader data cursor stop with
        | .error error => .error error
        | .ok header =>
          match field fields header with
          | .error error => .error error
          | .ok fields => headerLines field data headerEnd fuel (stop + 2) fields
    else .ok fields

/-- The loop of `parse_decimal`, which stops at the first value above the limit. -/
def decimalLoop (limit : ℕ) : Bytes → ℕ → Bool → Except HttpError ℕ
  | [], value, invalid =>
    if invalid then .error (.protocolError "invalid Content-Length") else .ok value
  | b :: rest, value, invalid =>
    if asciiDigit b.toNat then
      if value * 10 + (b.toNat - 48) > limit then .error (.limitExceeded "request body")
      else decimalLoop limit rest (value * 10 + (b.toNat - 48)) invalid
    else decimalLoop limit rest value true

/-- `parse_decimal`. -/
def parseDecimal (value : Bytes) (limit : ℕ) : Except HttpError ℕ :=
  if value.isEmpty then .error (.protocolError "empty Content-Length")
  else decimalLoop limit value 0 false

/-! ## Requests -/

/-- The first two blanks of a request line; a third one moves the second past the end. -/
def requestLineSpaces (line : Bytes) : Option ℕ × Option ℕ :=
  line.zipIdx.foldl (fun (found : Option ℕ × Option ℕ) (b : UInt8 × ℕ) =>
    if b.1 = 32 then
      match found with
      | (none, second) => (some b.2, second)
      | (some first, none) => (some first, some b.2)
      | (some first, some _) => (some first, some (line.length + 1))
    else found) (none, none)

/-- What the loop over the version has seen. -/
structure VersionScan where
  valid : Bool
  dot : Bool
  digitBeforeDot : Bool
  digitAfterDot : Bool

/-- The loop over the digits of a version. -/
def versionScan (digits : Bytes) : VersionScan :=
  digits.foldl (fun seen b =>
    if b = 46 ∧ seen.dot = false then { seen with dot := true }
    else if asciiDigit b.toNat then
      if seen.dot then { seen with digitAfterDot := true } else { seen with digitBeforeDot := true }
    else { seen with valid := false }) ⟨true, false, false, false⟩

/-- The shape `HTTP/` digits `.` digits. -/
def versionShape (version : Bytes) : Bool :=
  let seen := versionScan (version.drop 5)
  5 ≤ version.length && version.take 5 == asciiBytes "HTTP/" && seen.valid && seen.dot &&
    seen.digitBeforeDot && seen.digitAfterDot

/-- `parse_request_line`. -/
def parseRequestLine (data : Bytes) (stop : ℕ) : Except HttpError RequestLine :=
  let line := copyBytes data 0 stop
  match requestLineSpaces line with
  | (some methodEnd, some targetEnd) =>
    if targetEnd = stop + 1 ∨ methodEnd = 0 ∨ targetEnd = methodEnd + 1 ∨ targetEnd + 1 ≥ stop then
      .error (.protocolError "invalid HTTP request line")
    else
      let method := copyBytes line 0 methodEnd
      let target := copyBytes line (methodEnd + 1) targetEnd
      let version := copyBytes line (targetEnd + 1) stop
      if !method.all (fun b => tokenByte b.toNat) ||
          !target.all (fun b => 33 ≤ b.toNat && b.toNat ≤ 126) || !versionShape version then
        .error (.protocolError "invalid HTTP request line")
      else if decodeUtf8 version ≠ ascii "HTTP/1.1" then
        .error (.unsupportedVersion (decodeUtf8 version))
      else .ok ⟨decodeUtf8 method, decodeUtf8 target⟩
  | _ => .error (.protocolError "invalid HTTP request line")

/-- What the loop over the header lines of a request has seen. -/
structure RequestFields where
  headers : List Header
  contentLength : Option ℕ
  sawTransferEncoding : Bool
  validTransferEncoding : Bool
  hostCount : ℕ

/-- One field of a request. -/
def requestField (bodyLimit : ℕ) (fields : RequestFields) (header : Header) :
    Except HttpError RequestFields :=
  let name := lowerAscii header.name
  let headers := fields.headers ++ [header]
  if name = ascii "host" then
    if header.value = empty then .error (.protocolError "empty Host header")
    else .ok { fields with headers, hostCount := fields.hostCount + 1 }
  else if name = ascii "content-length" then
    match fields.contentLength with
    | some _ => .error (.protocolError "duplicate Content-Length")
    | none =>
      match parseDecimal header.value.bytes bodyLimit with
      | .error error => .error error
      | .ok length => .ok { fields with headers, contentLength := some length }
  else if name = ascii "transfer-encoding" then
    if fields.sawTransferEncoding then .error .unsupportedTransferEncoding
    else
      .ok { fields with
        headers
        sawTransferEncoding := true
        validTransferEncoding := decide (lowerAscii header.value = ascii "chunked") }
  else .ok { fields with headers }

/-- `request_head`. -/
def requestHead (data : Bytes) (headerEnd bodyLimit : ℕ) : Except HttpError RequestHead :=
  match findCrlf data 0 (headerEnd + 2) with
  | none => .error (.protocolError "invalid HTTP request line")
  | some lineEnd =>
    match parseRequestLine data lineEnd with
    | .error error => .error error
    | .ok parts =>
      match headerLines (requestField bodyLimit) data headerEnd headerEnd (lineEnd + 2)
          ⟨[], none, false, false, 0⟩ with
      | .error error => .error error
      | .ok fields =>
        if fields.hostCount ≠ 1 then .error (.protocolError "HTTP/1.1 requires one Host header")
        else if fields.sawTransferEncoding && fields.contentLength.isSome then
          .error (.protocolError "Transfer-Encoding conflicts with Content-Length")
        else if fields.sawTransferEncoding && !fields.validTransferEncoding then
          .error .unsupportedTransferEncoding
        else
          .ok ⟨parts.method, parts.target, fields.headers, headerEnd + 4, fields.contentLength,
            fields.sawTransferEncoding⟩

/-! ## Chunked bodies -/

/-- `skip_chunk_ows`. -/
def skipChunkOws (rest : Bytes) : Bytes := rest.dropWhile fun b => owsByte b.toNat

/-- The loop over a quoted extension value: what follows the closing quote. -/
def quotedRest : Bytes → Option Bytes
  | [] => none
  | b :: rest =>
    if b = 34 then some rest
    else if b = 92 then
      match rest with
      | [] => none
      | escaped :: rest => if fieldByte escaped.toNat then quotedRest rest else none
    else if fieldByte b.toNat then quotedRest rest
    else none

/-- What follows the value of an extension, after its `=`. -/
def extensionValueRest (rest : Bytes) : Option Bytes :=
  match skipChunkOws rest with
  | [] => none
  | b :: rest =>
    if b = 34 then quotedRest rest
    else if tokenByte b.toNat then some (rest.dropWhile fun b => tokenByte b.toNat)
    else none

/-- What follows the name and the value of one extension, after its `;`. -/
def extensionRest (rest : Bytes) : Option Bytes :=
  let rest := skipChunkOws rest
  if (rest.takeWhile fun b => tokenByte b.toNat).isEmpty then none
  else
    match skipChunkOws (rest.dropWhile fun b => tokenByte b.toNat) with
    | [] => some []
    | b :: rest =>
      if b = 61 then (extensionValueRest rest).map skipChunkOws
      else some (b :: rest)

/-- The loop of `chunk_extensions_valid`.  Every round passes a `;`, so the length is enough
fuel. -/
def extensionsLoop : ℕ → Bytes → Bool
  | _, [] => true
  | 0, _ :: _ => false
  | fuel + 1, b :: rest =>
    if b ≠ 59 then false
    else
      match extensionRest rest with
      | none => false
      | some rest => extensionsLoop fuel rest

/-- `chunk_extensions_valid`. -/
def chunkExtensionsValid (extensions : Bytes) : Bool :=
  extensionsLoop extensions.length extensions

/-- `hex_digit`. -/
def hexDigit (byte : ℕ) : Option ℕ :=
  if byte < 48 then none
  else if byte ≤ 57 then some (byte - 48)
  else if byte < 65 then none
  else if byte ≤ 70 then some (byte - 55)
  else if byte < 97 then none
  else if byte ≤ 102 then some (byte - 87)
  else none

/-- The loop over the digits of a chunk size; `none` once a digit is invalid. -/
def hexSize (digits : Bytes) : Option ℕ :=
  digits.foldl (fun size b =>
    match size, hexDigit b.toNat with
    | some size, some value => some (size * 16 + value)
    | _, _ => none) (some 0)

/-- `parse_chunk_size`. -/
def parseChunkSize (data : Bytes) (start stop remaining : ℕ) : Except HttpError ℕ :=
  let line := copyBytes data start stop
  let digits := line.takeWhile fun b => b != 59
  let extensions := line.drop digits.length
  if digits.isEmpty || !chunkExtensionsValid extensions ||
      !extensions.all (fun b => 32 ≤ b.toNat && b.toNat ≤ 126) then
    .error (.protocolError "invalid chunk size")
  else
    match hexSize digits with
    | none => .error (.protocolError "invalid chunk size")
    | some size => if size > remaining then .error (.limitExceeded "request body") else .ok size

/-- A trailer field that would change the framing. -/
def framingField (header : Header) : Bool :=
  let name := lowerAscii header.name
  name == ascii "content-length" || name == ascii "transfer-encoding" || name == ascii "host"

/-- The loop of `parse_trailers`: where the trailers end, `none` where more bytes are needed. -/
def trailerLines (data : Bytes) (headerBytes : ℕ) : ℕ → ℕ → ℕ → Except HttpError (Option ℕ)
  | 0, _, _ => .error (.protocolError "invalid chunk trailer")
  | fuel + 1, cursor, trailerBytes =>
    match findCrlf data cursor data.length with
    | none => .ok none
    | some stop =>
      let trailerBytes := trailerBytes + (stop + 2 - cursor)
      if headerBytes + trailerBytes > httpHeaderLimit then
        .error (.limitExceeded "request headers and trailers")
      else if stop = cursor then .ok (some (cursor + 2))
      else
        match parseHeader data cursor stop with
        | .error error => .error error
        | .ok header =>
          if framingField header then
            .error (.protocolError "framing field is not allowed in trailers")
          else trailerLines data headerBytes fuel (stop + 2) trailerBytes

/-- `parse_trailers`. -/
def parseTrailers (data : Bytes) (start : ℕ) (eof : Bool) (headerBytes : ℕ) :
    Except HttpError (Option ℕ) :=
  match trailerLines data headerBytes (data.length + 1) start 0 with
  | .error error => .error error
  | .ok none => if eof then .error (.protocolError "truncated chunk trailer") else .ok none
  | .ok (some cursor) => .ok (some cursor)

/-- The loop of `decode_chunked`: the body and where it ends, `none` where more bytes are
needed. -/
def chunkLoop (data : Bytes) (eof : Bool) (bodyLimit headerBytes : ℕ) :
    ℕ → ℕ → Bytes → Except HttpError (Option ChunkedBody)
  | 0, _, _ => .error (.protocolError "invalid chunked request")
  | fuel + 1, cursor, body =>
    match findCrlf data cursor data.length with
    | none => .ok none
    | some lineEnd =>
      match parseChunkSize data cursor lineEnd bodyLimit with
      | .error error => .error error
      | .ok size =>
        let dataStart := lineEnd + 2
        if size = 0 then
          match parseTrailers data dataStart eof headerBytes with
          | .error error => .error error
          | .ok none => .ok none
          | .ok (some next) => .ok (some ⟨body, next⟩)
        else if body.length + size > bodyLimit then .error (.limitExceeded "request body")
        else if data.length < dataStart + size + 2 then .ok none
        else if !isCrlf data (dataStart + size) then
          .error (.protocolError "chunk data is missing CRLF")
        else
          chunkLoop data eof bodyLimit headerBytes fuel (dataStart + size + 2)
            (body ++ copyBytes data dataStart (dataStart + size))

/-- `decode_chunked`. -/
def decodeChunked (data : Bytes) (start : ℕ) (eof : Bool) (bodyLimit headerBytes : ℕ) :
    Except HttpError (Option ChunkedBody) :=
  match chunkLoop data eof bodyLimit headerBytes (data.length + 1) start [] with
  | .error error => .error error
  | .ok none => if eof then .error (.protocolError "truncated chunked request body") else .ok none
  | .ok (some chunked) =>
    if data.length > chunked.next then .error (.protocolError "extra bytes after HTTP request")
    else .ok (some chunked)

/-! ## Whole requests -/

/-- `method_supported`. -/
def methodSupported (method : Str) (methods : List Str) : Bool := methods.contains method

/-- `parse_request_for_methods`. -/
def parseRequestForMethods (data : Bytes) (eof : Bool) (bodyLimit : ℕ) (methods : List Str) :
    Except HttpError (Option Request) :=
  match findHeaderEnd data with
  | none =>
    if data.length > httpHeaderLimit then .error (.limitExceeded "request headers")
    else if eof then .error (.protocolError "incomplete HTTP request headers")
    else .ok none
  | some headerEnd =>
    if headerEnd + 4 > httpHeaderLimit then .error (.limitExceeded "request headers")
    else
      match requestHead data headerEnd bodyLimit with
      | .error error => .error error
      | .ok head =>
        match head.contentLength with
        | some length =>
          if data.length < head.bodyStart + length then
            if eof then .error (.protocolError "truncated HTTP request body") else .ok none
          else if data.length > head.bodyStart + length then
            .error (.protocolError "extra bytes after HTTP request")
          else if !methodSupported head.method methods then .error (.unsupportedMethod head.method)
          else
            .ok (some ⟨head.method, head.target, head.headers,
              copyBytes data head.bodyStart data.length⟩)
        | none =>
          if head.chunked then
            match decodeChunked data head.bodyStart eof bodyLimit (headerEnd + 4) with
            | .error error => .error error
            | .ok none => .ok none
            | .ok (some chunked) =>
              if !methodSupported head.method methods then .error (.unsupportedMethod head.method)
              else .ok (some ⟨head.method, head.target, head.headers, chunked.body⟩)
          else if data.length > head.bodyStart then
            .error (.protocolError "request body has no framing")
          else if !methodSupported head.method methods then .error (.unsupportedMethod head.method)
          else .ok (some ⟨head.method, head.target, head.headers, []⟩)

/-- `parse_request`. -/
def parseRequest (data : Bytes) (eof : Bool) (bodyLimit : ℕ) : Except HttpError (Option Request) :=
  parseRequestForMethods data eof bodyLimit [Str.ascii "GET", ascii "HEAD", ascii "POST"]

/-! ## Responses -/

/-- `parse_response_status` on the status line. -/
def parseResponseStatus (data : Bytes) (start stop : ℕ) : Except HttpError ℕ :=
  let line := copyBytes data start stop
  let supportedVersion := 12 ≤ line.length && byteAt line 6 == 46 &&
    (byteAt line 7 == 48 || byteAt line 7 == 49)
  let validPrefix := 12 ≤ line.length && line.take 6 == asciiBytes "HTTP/1" && byteAt line 8 == 32
  if !validPrefix || !supportedVersion then
    .error (.protocolError "invalid HTTP response status line")
  else
    let digits := copyBytes line 9 12
    let reason := line.drop 12
    if !digits.all (fun b => asciiDigit b.toNat) || (reason.head?.any fun b => b != 32) ||
        !reason.all (fun b => fieldByte b.toNat) then
      .error (.protocolError "invalid HTTP response status line")
    else
      let status := (byteAt line 9 - 48) * 100 + (byteAt line 10 - 48) * 10 + (byteAt line 11 - 48)
      if status < 100 ∨ status > 599 then
        .error (.protocolError "invalid HTTP response status line")
      else if status = 101 then .error (.protocolError "protocol upgrades are unsupported")
      else .ok status

/-- The loop of `parse_response_decimal`, which reads every byte. -/
def responseDecimalLoop (limit : ℕ) : Bytes → ℕ → Bool → Bool → Except HttpError ℕ
  | [], value, valid, tooLarge =>
    if !valid then .error (.protocolError "invalid Content-Length")
    else if tooLarge then .error (.limitExceeded "response body")
    else .ok value
  | b :: rest, value, valid, tooLarge =>
    if asciiDigit b.toNat then
      let value := value * 10 + (b.toNat - 48)
      responseDecimalLoop limit rest value valid (tooLarge || decide (value > limit))
    else responseDecimalLoop limit rest value false tooLarge

/-- `parse_response_decimal`. -/
def parseResponseDecimal (value : Bytes) (limit : ℕ) : Except HttpError ℕ :=
  if value.isEmpty then .error (.protocolError "empty Content-Length")
  else responseDecimalLoop limit value 0 true false

/-- What the loop over the header lines of a response has seen. -/
structure ResponseFields where
  headers : List Header
  contentLength : Option ℕ
  sawTransferEncoding : Bool
  validTransferEncoding : Bool

/-- One field of a response. -/
def responseField (bodyLimit : ℕ) (fields : ResponseFields) (header : Header) :
    Except HttpError ResponseFields :=
  let name := lowerAscii header.name
  let headers := fields.headers ++ [header]
  if name = ascii "content-length" then
    match fields.contentLength with
    | some _ => .error (.protocolError "duplicate Content-Length")
    | none =>
      match parseResponseDecimal header.value.bytes bodyLimit with
      | .error error => .error error
      | .ok length => .ok { fields with headers, contentLength := some length }
  else if name = ascii "transfer-encoding" then
    if fields.sawTransferEncoding then .error .unsupportedTransferEncoding
    else
      .ok { fields with
        headers
        sawTransferEncoding := true
        validTransferEncoding := decide (lowerAscii header.value = ascii "chunked") }
  else .ok { fields with headers }

/-- `response_head`. -/
def responseHead (data : Bytes) (offset headerEnd bodyLimit : ℕ) : Except HttpError ResponseHead :=
  match findCrlf data offset (headerEnd + 2) with
  | none => .error (.protocolError "invalid HTTP response status line")
  | some statusEnd =>
    match parseResponseStatus data offset statusEnd with
    | .error error => .error error
    | .ok status =>
      match headerLines (responseField bodyLimit) data headerEnd (headerEnd - offset)
          (statusEnd + 2) ⟨[], none, false, false⟩ with
      | .error error => .error error
      | .ok fields =>
        if fields.sawTransferEncoding && !fields.validTransferEncoding then
          .error .unsupportedTransferEncoding
        else if fields.sawTransferEncoding && fields.contentLength.isSome then
          .error (.protocolError "Transfer-Encoding conflicts with Content-Length")
        else
          .ok ⟨status, fields.headers, headerEnd + 4, fields.contentLength,
            fields.sawTransferEncoding⟩

/-- The loop of `parse_response` that passes the informational responses: the final head and the
bytes of all heads.  Every round passes a head, so the length is enough fuel. -/
def finalHead (data : Bytes) (headerLimit bodyLimit : ℕ) :
    ℕ → ℕ → ℕ → ℕ → Except HttpError (ResponseHead × ℕ)
  | 0, _, _, _ => .error (.protocolError "missing final HTTP response")
  | fuel + 1, cursor, informationals, headerBytes =>
    match findHeaderEndFrom data cursor with
    | none =>
      .error (if data.length > headerLimit then .limitExceeded "response headers and trailers"
        else .protocolError "incomplete HTTP response headers")
    | some headerEnd =>
      let headerBytes := headerBytes + (headerEnd + 4 - cursor)
      if headerBytes > headerLimit then .error (.limitExceeded "response headers and trailers")
      else
        match responseHead data cursor headerEnd bodyLimit with
        | .error error => .error error
        | .ok head =>
          if head.status < 200 then
            if informationals + 1 > 8 then .error (.limitExceeded "informational responses")
            else
              finalHead data headerLimit bodyLimit fuel head.bodyStart (informationals + 1)
                headerBytes
          else .ok (head, headerBytes)

/-- The statuses whose responses have no body. -/
def bodyForbidden (status : ℕ) : Bool := status == 204 || status == 205 || status == 304

/-- `parse_response`. -/
def parseResponse (data : Bytes) (headerLimit bodyLimit : ℕ) : Except HttpError Response :=
  if headerLimit = 0 ∨ headerLimit > httpHeaderLimit ∨ bodyLimit = 0 ∨ bodyLimit > 1048576 then
    .error .invalidLimits
  else
    match finalHead data headerLimit bodyLimit (data.length + 1) 0 0 0 with
    | .error error => .error error
    | .ok (head, headerBytes) =>
      let remaining := data.length - head.bodyStart
      if bodyForbidden head.status then
        if remaining ≠ 0 then .error (.protocolError "body forbidden for this HTTP status")
        else .ok ⟨head.status, head.headers, []⟩
      else
        match head.contentLength with
        | some length =>
          if remaining < length then .error (.protocolError "truncated HTTP response body")
          else if remaining > length then .error (.protocolError "extra bytes after HTTP response")
          else .ok ⟨head.status, head.headers, copyBytes data head.bodyStart data.length⟩
        | none =>
          if head.chunked then
            match decodeChunked data head.bodyStart true bodyLimit headerBytes with
            | .error error => .error error
            | .ok none => .error (.protocolError "truncated chunked HTTP response body")
            | .ok (some chunked) => .ok ⟨head.status, head.headers, chunked.body⟩
          else if remaining > bodyLimit then .error (.limitExceeded "response body")
          else .ok ⟨head.status, head.headers, copyBytes data head.bodyStart data.length⟩

/-- The head of a routed request, as far as the bytes read so far hold it. -/
def parseRoutedHead (data : Bytes) : Except HttpError (Option RequestHead) :=
  match findHeaderEnd data with
  | none => if data.length > 16384 then .error (.limitExceeded "request headers") else .ok none
  | some stop =>
    if stop + 4 > 16384 then .error (.limitExceeded "request headers")
    else
      match requestHead data stop 1048576 with
      | .error error => .error error
      | .ok head => .ok (some head)

end Panackelty.Http
