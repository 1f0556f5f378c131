import Panackelty.Http.RoutedReads

/-!
# What a routed connection decides

`servedAs` is the decision on a stream that holds one request, read as a whole and with a limit for
its chunk-size lines.  Every way of cutting the stream into reads of at most 16384 bytes comes to
the decision of the strict limit or to that of the lenient one (`serveConnection_reading`).  They
differ exactly where a size line of 16384 bytes or more is reached and the lenient reading does not
refuse it with 431 (`routed_cuts_agree_iff`). -/

namespace Panackelty.Http

open Library List Nat Str
open ChunkState (length_rest)

variable {stream : Bytes} {head : RequestHead} {count most : ℕ}

/-! ## The decision on a stream -/

/-- The head of the request, or the status of its rejection. -/
def headOf (stream : Bytes) : Except ℕ RequestHead :=
  match findHeaderEnd stream with
  | none => .error (if stream.length > 16384 then 431 else 400)
  | some stop =>
    if stop + 4 > 16384 then .error 431
    else
      match requestHead stream stop 1048576 with
      | .error problem => .error (errorStatus problem)
      | .ok head => .ok head

/-- The body that the head announces, from what follows the head. -/
def bodyOf (limit : ℕ) (head : RequestHead) (rest : Bytes) : Except ℕ Bytes :=
  if head.chunked then (readChunks limit head.bodyStart [] rest).map Prod.fst
  else if rest.length < head.contentLength.getD 0 then .error 400
  else .ok rest

/-- The decision at a limit. -/
def servedAs (limit : ℕ) (connection : Connection) (stream : Bytes) : Decision :=
  match headOf stream with
  | .error status => .reject status empty (isHeadRequest stream)
  | .ok head =>
    match routeHead connection head stream.length with
    | .error (status, allow) => .reject status allow (isHeadRequest stream)
    | .ok (selected, _) =>
      match bodyOf limit head (stream.drop head.bodyStart) with
      | .error status => .reject status empty (isHeadRequest stream)
      | .ok body => .invoke selected (fromTransport head.method head.target head.headers body)

/-- Nothing follows the request. -/
def HoldsOne (stream : Bytes) : Prop :=
  ∀ head, headOf stream = .ok head → if head.chunked then
      ∀ body rest, readChunks 32766 head.bodyStart [] (stream.drop head.bodyStart) =
        .ok (body, rest) → rest = []
    else stream.length ≤ head.bodyStart + head.contentLength.getD 0

/-! ## Heads -/

theorem isHeadRequest_append {w : Bytes} (h : 5 ≤ w.length ∨ ∃ stop, findHeaderEnd w = some stop)
    (t : Bytes) : isHeadRequest (w ++ t) = isHeadRequest w := by
  by_cases hlen : 5 ≤ w.length
  · rw [isHeadRequest, isHeadRequest, take_append_of_le_length hlen, length_append,
      decide_eq_true hlen, decide_eq_true (show 5 ≤ w.length + t.length by omega)]
  obtain ⟨stop, hstop⟩ := h.resolve_left hlen
  have hbound := findHeaderEnd_bound hstop
  rw [findHeaderEnd, findHeaderEndFrom_eq_cut, drop_zero] at hstop
  obtain ⟨⟨l, r⟩, hcut, rfl⟩ := Option.map_eq_some_iff.mp hstop
  -- an empty line alone
  obtain rfl : l = [] := length_eq_zero_iff.mp (by simp only at hbound; omega)
  have hw := eq_of_cut hcut
  have hfalse : isHeadRequest w = false := by
    rw [isHeadRequest, decide_eq_false hlen, Bool.false_and]
  have hbytes : asciiBytes "HEAD " = [72, 69, 65, 68, 32] := by decide +kernel
  rw [hfalse, hw, isHeadRequest, hbytes]
  simp

theorem errorStatus_headers : errorStatus (.limitExceeded "request headers") = 431 := rfl

/-- What the loop over the head comes to. -/
def HeadSpec (most : ℕ) (stream : Bytes) :
    Except (ℕ × Bytes) (RequestHead × Bytes × Transport) → Prop
  | .error (status, incoming) =>
    headOf stream = .error status ∧ isHeadRequest incoming = isHeadRequest stream
  | .ok (head, incoming, rest) =>
    headOf stream = .ok head ∧ isHeadRequest incoming = isHeadRequest stream ∧
      ∃ data reads, rest = reads.map .ok ∧ Pieces most data reads ∧ incoming ++ data = stream ∧
        head.bodyStart ≤ incoming.length ∧ incoming.length < head.bodyStart + most

theorem headLoop_spec {most : ℕ} {data incoming : Bytes} {reads : List Bytes}
    (hreads : Pieces most data reads) (hnone : findHeaderEnd incoming = none)
    (hshort : incoming.length ≤ 16384) :
    HeadSpec most (incoming ++ data) (headLoop (reads.map .ok) incoming) := by
  induction reads generalizing data incoming with
  | nil =>
    obtain rfl : data = [] := hreads.whole.symm
    rw [append_nil]
    refine ⟨?_, rfl⟩
    rw [headOf, hnone]
    simp only [if_neg (show ¬ incoming.length > 16384 by omega)]
  | cons piece reads ih =>
    have hpiece := hreads.nonempty piece mem_cons_self
    have hrest : Pieces most reads.flatten reads :=
      ⟨⟨fun p hmem => hreads.nonempty p (mem_cons_of_mem _ hmem), rfl⟩,
        fun p hmem => hreads.bounded p (mem_cons_of_mem _ hmem)⟩
    have hstr : incoming ++ data = incoming ++ piece ++ reads.flatten := by
      rw [← hreads.whole, flatten_cons, append_assoc]
    have hbound := hreads.bounded piece mem_cons_self
    have hemp : piece.isEmpty = false := by
      cases piece with
      | nil => exact absurd rfl hpiece
      | cons b piece => rfl
    rw [hstr, map_cons, headLoop, hemp]
    rw [parseRoutedHead]
    cases hend : findHeaderEnd (incoming ++ piece) with
    | none =>
      by_cases hlong : (incoming ++ piece).length > 16384
      · rw [if_pos hlong]
        refine ⟨?_, (isHeadRequest_append (.inl (by omega)) _).symm⟩
        rw [headOf, errorStatus_headers]
        cases hend' : findHeaderEnd (incoming ++ piece ++ reads.flatten) with
        | none => rw [if_pos (by rw [length_append]; omega)]
        | some stop =>
          have hlt := length_lt_of_findHeaderEnd_append hend hend'
          simp only
          rw [if_pos (by omega)]
      · rw [if_neg hlong]
        exact ih hrest hend (by omega)
    | some stop =>
      have hwhole := findHeaderEnd_append reads.flatten hend
      have hstop := findHeaderEnd_bound hend
      have honly := isHeadRequest_append (.inr ⟨stop, hend⟩) reads.flatten
      have hhead := requestHead_append reads.flatten
        (show stop + 2 ≤ (incoming ++ piece).length by omega) 1048576
      simp only
      by_cases hlong : stop + 4 > 16384
      · rw [if_pos hlong]
        refine ⟨?_, honly.symm⟩
        rw [headOf, hwhole, errorStatus_headers]
        simp only [if_pos hlong]
      rw [if_neg hlong]
      rcases hprs : requestHead (incoming ++ piece) stop 1048576 with prob | head
      · refine ⟨?_, honly.symm⟩
        rw [headOf, hwhole]
        simp only [if_neg hlong, hhead, hprs]
      have hstart := bodyStart_of_requestHead hprs
      have hlate := length_lt_of_findHeaderEnd_append hnone hend
      rw [length_append] at hstop
      refine ⟨?_, honly.symm, reads.flatten, reads, rfl, hrest, rfl, ?_, ?_⟩
      · rw [headOf, hwhole]
        simp only [if_neg hlong, hhead, hprs]
      · rw [length_append]
        omega
      · rw [length_append]
        omega

theorem routeHead_congr (connection : Connection) {head : RequestHead} {received whole : ℕ}
    (h : head.contentLength = none → head.chunked = false → received = whole) :
    routeHead connection head received = routeHead connection head whole := by
  by_cases hbody : head.contentLength = none ∧ head.chunked = false
  · rw [h hbody.1 hbody.2]
  have hnot (count : ℕ) : ¬ (head.contentLength = none ∧ head.chunked = false ∧
      count ≠ head.bodyStart) := fun hall => hbody ⟨hall.1, hall.2.1⟩
  rw [routeHead, routeHead]
  simp only [hnot, ↓reduceIte]

theorem decimalLoop_le {limit : ℕ} {text : Bytes} {value length : ℕ} {invalid : Bool}
    (hval : value ≤ limit) (h : decimalLoop limit text value invalid = .ok length) :
    length ≤ limit := by
  induction text generalizing value invalid with
  | nil =>
    rw [decimalLoop] at h
    split_ifs at h
    · cases h
      exact hval
  | cons b text ih =>
    rw [decimalLoop] at h
    split at h
    · split_ifs at h
      · exact ih (by omega) h
    · exact ih hval h

theorem requestField_length {bodyLimit : ℕ} {fields next : RequestFields} {hdr : Header}
    (hflds : ∀ length ∈ fields.contentLength, length ≤ bodyLimit)
    (h : requestField bodyLimit fields hdr = .ok next) :
    ∀ length ∈ next.contentLength, length ≤ bodyLimit := by
  unfold requestField at h
  simp only at h
  split at h
  · split_ifs at h
    · cases h
      exact hflds
  split at h
  · split at h
    · cases h
    split at h
    · cases h
    rename_i length hdec
    cases h
    intro len' hmem
    cases hmem
    rw [parseDecimal] at hdec
    split_ifs at hdec
    · exact decimalLoop_le (zero_le _) hdec
  · split at h
    · split_ifs at h
      · cases h
        exact hflds
    · cases h
      exact hflds

/-- A head that is accepted announces no more than the body limit. -/
theorem contentLength_of_headOf (h : headOf stream = .ok head) :
    head.contentLength.getD 0 ≤ 1048576 := by
  unfold headOf at h
  split at h
  · cases h
  split at h
  · cases h
  split at h
  · cases h
  rename_i hhead
  cases h
  unfold requestHead at hhead
  split at hhead
  · cases hhead
  split at hhead
  · cases hhead
  split at hhead
  · cases hhead
  rename_i fields hflds
  split_ifs at hhead
  cases hhead
  have hle := headerLines_induction (P := fun fields : RequestFields =>
    ∀ length ∈ fields.contentLength, length ≤ 1048576)
    (fun _ _ _ hprev hnext => requestField_length hprev hnext) (fun _ hmem => (by cases hmem)) hflds
  cases hlen : fields.contentLength with
  | none => exact zero_le _
  | some length => exact hle length hlen

/-! ## Bodies -/

variable {connection : Connection} {expect : Bool}

theorem fixedLoop_reading (hcont : connection.continues) {length fuel : ℕ}
    {data body : Bytes} {reads : List Bytes} {continued : Bool} (hlength : length ≤ 1048576)
    (hreads : Pieces most data reads) (hroom : body.length + data.length ≤ length)
    (hfuel : reads.length < fuel) :
    fixedLoop connection length expect fuel continued (reads.map .ok) body =
      if body.length + data.length < length then .error 400 else .ok (body ++ data) := by
  induction reads generalizing data body fuel continued with
  | nil =>
    obtain rfl : data = [] := hreads.whole.symm
    obtain ⟨fuel, rfl⟩ : ∃ n, fuel = n + 1 := exists_eq_succ_of_ne_zero (by omega)
    rw [fixedLoop, length_nil, add_zero, append_nil, map_nil, nextRead_nil hcont]
  | cons piece reads ih =>
    have hpiece := hreads.nonempty piece mem_cons_self
    have hpos := length_pos_of_ne_nil hpiece
    have hrest : Pieces most reads.flatten reads :=
      ⟨⟨fun p hmem => hreads.nonempty p (mem_cons_of_mem _ hmem), rfl⟩,
        fun p hmem => hreads.bounded p (mem_cons_of_mem _ hmem)⟩
    have hwhole : data = piece ++ reads.flatten := by rw [← hreads.whole, flatten_cons]
    have hlen : data.length = piece.length + reads.flatten.length := by rw [hwhole, length_append]
    rw [length_cons] at hfuel
    obtain ⟨fuel, rfl⟩ : ∃ n, fuel = n + 1 := exists_eq_succ_of_ne_zero (by omega)
    rw [fixedLoop, if_pos (by omega), map_cons, nextRead_ok hcont expect continued hpiece]
    simp only
    rw [if_neg (by omega), bodyAppend, if_neg (by omega)]
    simp only
    rw [ih hrest (by rw [length_append]; omega) (by omega), length_append, add_assoc,
      ← hlen, append_assoc, ← hwhole]

theorem fit_initial {init : Bytes} (h : init.length ≤ most) {data : Bytes}
    {reads : List Bytes} (hreads : Pieces most data reads) :
    ChunkState.Fit most ⟨reads.map .ok, init, 0, .size, 0, 0, false, []⟩ := by
  refine ⟨fun answer hmem => ?_, ?_, zero_le _, (fun h => by cases h), fun _ => rfl⟩
  · obtain ⟨piece, hpiece, rfl⟩ := mem_map.mp hmem
    exact ⟨piece, rfl, hreads.nonempty piece hpiece, hreads.bounded piece hpiece⟩
  · show init.length - 0 ≤ _
    omega

theorem chunkedBody_reading (hcont : connection.continues) {most hdr : ℕ}
    {init data : Bytes} {reads : List Bytes} (hinit : init.length ≤ most)
    (hreads : Pieces most data reads)
    (hone : ∀ body rest, readChunks (16382 + most) hdr [] (init ++ data) =
      .ok (body, rest) → rest = []) : (chunkedBody connection init hdr expect (reads.map .ok) =
        (readChunks 16383 hdr [] (init ++ data)).map Prod.fst) ∨
      chunkedBody connection init hdr expect (reads.map .ok) =
        (readChunks (16382 + most) hdr [] (init ++ data)).map Prod.fst := by
  have hfit := fit_initial hinit hreads
  have hstr : ChunkState.stream ⟨reads.map .ok, init, 0, .size, 0, 0, false, []⟩ =
      init ++ data := by
    rw [ChunkState.stream, ← hreads.flatten]
    rfl
  have hloop := @chunkedLoop_reading _ most hdr connection expect _ hcont hfit le_rfl
  rw [hstr] at hloop
  rcases hloop hone with ⟨href, hstrict⟩ | hlnt
  · left
    rw [show readChunks 16383 hdr [] (init ++ data) = .error 431 from hstrict]
    exact href
  · exact .inr hlnt

/-! ## Connections -/

/-- The readings of a request that nothing follows take all of it. -/
theorem HoldsOne.rest_nil (h : HoldsOne stream) (hhead : headOf stream = .ok head)
    (hchk : head.chunked) (hmost : most = 1 ∨ most = 16384) :
    ∀ body rest, readChunks (16382 + most) head.bodyStart [] (stream.drop head.bodyStart) =
      .ok (body, rest) → rest = [] := by
  intro body rest hread
  have hall := h head hhead
  rw [hchk, if_pos rfl] at hall
  rcases hmost with rfl | rfl
  · rcases @readChunks_strict 32766 (by omega) head.bodyStart [] (stream.drop head.bodyStart) with
      href | hsame
    · rw [show 16382 + 1 = 16383 from rfl, href] at hread
      cases hread
    · exact hall body rest (hsame ▸ hread)
  · exact hall body rest hread

/-- Every way of reading the body comes to the strict reading or to the lenient one. -/
theorem requestBody_reading (hcont : connection.continues) {most : ℕ}
    (hmost : most = 1 ∨ most = 16384) {stream incoming data : Bytes} (hone : HoldsOne stream)
    {head : RequestHead} (hhead : headOf stream = .ok head) (hwhole : incoming ++ data = stream)
    (hstart : head.bodyStart ≤ incoming.length) (hinit : incoming.length < head.bodyStart + most)
    {reads : List Bytes} (hreads : Pieces most data reads) :
    requestBody connection head incoming expect (reads.map .ok) =
        bodyOf 16383 head (stream.drop head.bodyStart) ∨
      requestBody connection head incoming expect (reads.map .ok) =
        bodyOf (16382 + most) head (stream.drop head.bodyStart) := by
  have hrest : incoming.drop head.bodyStart ++ data = stream.drop head.bodyStart := by
    rw [← hwhole, drop_append_of_le_length hstart]
  rw [bodyOf, bodyOf, requestBody, copyBytes_length]
  cases hchk : head.chunked with
  | true =>
    have hnil := hone.rest_nil hhead hchk hmost
    rw [← hrest] at hnil ⊢
    refine chunkedBody_reading hcont ?_ hreads hnil
    rw [length_drop]
    omega
  | false =>
    left
    have hfol := hone head hhead
    rw [hchk, if_neg (by simp)] at hfol
    have hdrop : (incoming.drop head.bodyStart).length + data.length =
        (stream.drop head.bodyStart).length := by rw [← hrest, length_append]
    have hle : (stream.drop head.bodyStart).length ≤ head.contentLength.getD 0 := by
      rw [length_drop]
      omega
    have hlim := contentLength_of_headOf hhead
    simp only [Bool.false_eq_true, ↓reduceIte]
    rw [fixedBody, if_neg (by omega), bodyAppend, if_neg (by rw [length_nil]; omega)]
    simp only [nil_append]
    rw [fixedLoop_reading hcont hlim hreads (by omega) (by rw [length_map]; omega), hdrop, hrest]

/-- Every way of reading the stream comes to the strict decision or to the lenient one. -/
theorem serveConnection_reading (hcont : connection.continues) {most : ℕ}
    (hmost : most = 1 ∨ most = 16384) {stream : Bytes} (hone : HoldsOne stream) {reads : List Bytes}
    (hreads : Pieces most stream reads) :
    serveConnection connection (reads.map .ok) = servedAs 16383 connection stream ∨
      serveConnection connection (reads.map .ok) = servedAs (16382 + most) connection stream := by
  have hspec := @headLoop_spec most stream [] reads hreads rfl (zero_le _)
  rw [nil_append] at hspec
  rw [serveConnection, servedAs, servedAs]
  rcases hloop : headLoop (reads.map .ok) [] with rejection | ⟨head, incoming, left⟩
  · rw [hloop] at hspec
    obtain ⟨hhead, honly⟩ := hspec
    left
    rw [hhead, ← honly]
  rw [hloop] at hspec
  obtain ⟨hhead, honly, data, tail, rfl, htail, hwhole, hstart, hinit⟩ := hspec
  have hroute : routeHead connection head incoming.length =
      routeHead connection head stream.length := by
    refine routeHead_congr connection fun hnone hchk => ?_
    have hfol := hone head hhead
    rw [hchk, if_neg (by simp), hnone, Option.getD_none] at hfol
    rw [← hwhole, length_append] at hfol ⊢
    omega
  simp only [hhead, hroute, honly]
  rcases routeHead connection head stream.length with rejection | ⟨selected, expect⟩
  · exact .inl rfl
  simp only
  rcases @requestBody_reading connection expect hcont most hmost stream incoming data hone
    head hhead hwhole hstart hinit tail htail with hbody | hbody
  · exact .inl (hbody ▸ rfl)
  · exact .inr (hbody ▸ rfl)

theorem requestHead_of_headOf (h : headOf stream = .ok head) :
    ∃ stop, findHeaderEnd stream = some stop ∧ stop + 4 ≤ 16384 ∧
      requestHead stream stop 1048576 = .ok head := by
  unfold headOf at h
  split at h
  · cases h
  rename_i stop hend
  split at h
  · cases h
  split at h
  · cases h
  rename_i hhead
  cases h
  exact ⟨stop, hend, by omega, hhead⟩

theorem headLoop_one (h : headOf stream = .ok head) (reads : Transport) :
    headLoop (.ok (stream.take head.bodyStart) :: reads) [] =
      .ok (head, stream.take head.bodyStart, reads) ∧
      isHeadRequest (stream.take head.bodyStart) = isHeadRequest stream ∧
      head.bodyStart ≤ stream.length ∧ 4 ≤ head.bodyStart ∧ head.bodyStart ≤ 16384 := by
  obtain ⟨stop, hend, hlim, hhead⟩ := requestHead_of_headOf h
  have hbound := findHeaderEnd_bound hend
  have hstart := bodyStart_of_requestHead hhead
  rw [hstart]
  have hown : findHeaderEnd (stream.take (stop + 4)) = some stop := by
    rw [findHeaderEnd, findHeaderEndFrom_eq_cut, drop_zero] at hend ⊢
    obtain ⟨⟨l, r⟩, hcut, hstop⟩ := Option.map_eq_some_iff.mp hend
    have htake : stream.take (stop + 4) = l ++ headEnd := by
      rw [eq_of_cut hcut, ← append_assoc]
      exact take_left' (by rw [length_append, ← hstop]; simp)
    rw [htake, cut_of_cut (by simp) hcut, ← hstop]
    rfl
  have hsame : requestHead (stream.take (stop + 4)) stop 1048576 = .ok head := by
    rw [← requestHead_append (stream.drop (stop + 4))
      (by rw [length_take]; omega), take_append_drop, hhead]
  have hne : (stream.take (stop + 4)).isEmpty = false := by
    rw [isEmpty_eq_false_iff, ← length_pos_iff, length_take]
    omega
  have honly := isHeadRequest_append (.inr ⟨stop, hown⟩) (stream.drop (stop + 4))
  rw [take_append_drop] at honly
  refine ⟨?_, honly.symm, hbound, by omega, hlim⟩
  rw [headLoop, hne, nil_append, parseRoutedHead, hown]
  simp [↓reduceIte, if_neg (show ¬ stop + 4 > 16384 by omega), hsame]

theorem exists_lenient_serve (hcont : connection.continues) (hone : HoldsOne stream)
    (hhead : headOf stream = .ok head) (hchk : head.chunked) :
    ∃ reads, Pieces 16384 stream reads ∧
      serveConnection connection (reads.map .ok) = servedAs 32766 connection stream := by
  have hfol := hone head hhead
  rw [hchk, if_pos rfl] at hfol
  cases hroute : routeHead connection head stream.length with
  | error rejection =>
    have hpcs := @Pieces.singletons 16384 (by omega) stream
    refine ⟨_, hpcs, ?_⟩
    have hsame : servedAs 16383 connection stream = servedAs 32766 connection stream := by
      rw [servedAs, servedAs, hhead]
      simp only [hroute]
    rcases serveConnection_reading hcont (.inr rfl) hone hpcs with hserve | hserve
    · rw [hserve, hsame]
    · exact hserve
  | ok route =>
    obtain ⟨selected, expect⟩ := route
    obtain ⟨-, honly, hbound, hfour, hlim⟩ := headLoop_one hhead []
    have hlen : (stream.take head.bodyStart).length = head.bodyStart := by
      rw [length_take]
      omega
    have hfirst : Pieces 16384 (stream.take head.bodyStart) [stream.take head.bodyStart] :=
      .one (fun hnil => by rw [hnil] at hlen; simp at hlen; omega) (by omega)
    -- the body starts with nothing at hand
    obtain ⟨reads, hreads, hloop⟩ := @lenient_of_rest_nil connection head.bodyStart expect
      ⟨[], [], 0, .size, 0, 0, false, []⟩ hcont (fit_initial (zero_le _)
        (Pieces.singletons (by omega) [])) rfl (stream.drop head.bodyStart) hfol
    refine ⟨[stream.take head.bodyStart] ++ reads, ?_, ?_⟩
    · have hall := hfirst.append hreads
      rwa [take_append_drop] at hall
    have hbody : requestBody connection head (stream.take head.bodyStart) expect (reads.map .ok) =
        bodyOf 32766 head (stream.drop head.bodyStart) := by
      rw [requestBody, bodyOf, hchk, copyBytes_length]
      rw [drop_eq_nil_iff.mpr hlen.le]
      exact hloop _ le_rfl
    rw [serveConnection, map_append, map_singleton, singleton_append,
      (headLoop_one hhead (reads.map .ok)).1, servedAs, hhead]
    simp only
    rw [@routeHead_congr connection head _ stream.length
      (fun _ hnot => by rw [hchk] at hnot; cases hnot), hroute]
    simp only [honly]
    exact hbody ▸ rfl

/-! ## Requests with a long line -/

theorem LongLine.length_le {body : Bytes} (h : LongLine body stream) : 16384 ≤ stream.length := by
  induction h with
  | here hcut hlong =>
    have hlen := length_of_cut hcut
    omega
  | later hcut _ _ _ _ _ ih =>
    have hlen := length_of_cut hcut
    rw [length_drop] at ih
    omega

/-- The head of a chunked request. -/
def postHead : Bytes :=
  asciiBytes "POST /a HTTP/1.1\r\nHost: b\r\nTransfer-Encoding: chunked\r\n\r\n"

/-- What `postHead` announces. -/
def postRequest : RequestHead :=
  ⟨ascii "POST", ascii "/a",
    [⟨ascii "Host", ascii "b"⟩, ⟨ascii "Transfer-Encoding", ascii "chunked"⟩],
    57, none, true⟩

/-- A server with a route for `postHead`. -/
def postServer : Connection := ⟨[⟨ascii "POST", ascii "/a"⟩], false, true, true⟩

/-- A chunked request with an empty body, whose size line has this many zeros. -/
def zerosRequest (count : ℕ) : Bytes := postHead ++ (replicate count 48 ++ (crlf ++ crlf))

theorem length_postHead : postHead.length = 57 := by decide +kernel

theorem drop_zerosRequest (count : ℕ) :
    (zerosRequest count).drop 57 = replicate count 48 ++ (crlf ++ crlf) := by
  rw [zerosRequest, ← length_postHead, drop_left]

theorem headOf_zerosRequest (count : ℕ) : headOf (zerosRequest count) = .ok postRequest := by
  have hend : findHeaderEnd postHead = some 53 := by decide +kernel
  have hhead : requestHead postHead 53 1048576 = .ok postRequest := by decide +kernel
  rw [headOf, zerosRequest, findHeaderEnd_append _ hend]
  simp only [if_neg (show ¬ 53 + 4 > 16384 by omega)]
  rw [requestHead_append _ (by rw [length_postHead]; omega), hhead]

theorem routeHead_zerosRequest (received : ℕ) :
    routeHead postServer postRequest received = .ok (some 0, false) := by
  rw [@routeHead_congr postServer postRequest received 57 (fun _ hnot => by cases hnot)]
  decide +kernel

theorem readTrailers_crlf : readTrailers 57 0 crlf = .ok [] := by
  rw [readTrailers_some (show cut crlf crlf = some ([], []) by decide)]
  rfl

theorem readChunks_zeros {limit : ℕ} (hcnt : 0 < count) (hlim : count ≤ limit) :
    readChunks limit 57 [] (replicate count 48 ++ (crlf ++ crlf)) = .ok ([], []) := by
  rw [readChunks_some (cut_replicate count (show cut crlf (crlf ++ crlf) =
    some ([], crlf) by decide)),
    if_neg (by rw [length_replicate]; omega), parseChunkSize_replicate count _ hcnt]
  simp only [↓reduceIte, readTrailers_crlf]
  rfl

theorem holdsOne_zerosRequest (hcnt : 0 < count) (hlim : count ≤ 32766) :
    HoldsOne (zerosRequest count) := by
  intro head hhead
  rw [headOf_zerosRequest] at hhead
  cases hhead
  intro body rest hread
  rw [show postRequest.bodyStart = 57 from rfl, drop_zerosRequest,
    readChunks_zeros hcnt hlim] at hread
  cases hread
  rfl

/-- The reads of `zerosRequest` with its size line in one read and the end of it in another. -/
def lineReads (count : ℕ) : List Bytes := [postHead, replicate count 48, crlf, crlf]

theorem pieces_lineReads (hpos : 0 < count) (hcnt : count ≤ 16384) :
    Pieces 16384 (zerosRequest count) (lineReads count) := by
  have hlen : (replicate count (48 : UInt8)).length = count := length_replicate
  have hhead := @Pieces.one 16384 postHead (by decide +kernel) (by rw [length_postHead]; omega)
  have hline := @Pieces.one 16384 (replicate count 48)
    (fun hnil => by rw [hnil, length_nil] at hlen; omega) (by omega)
  have hend := @Pieces.one 16384 crlf (by simp) (by simp)
  exact hhead.append (hline.append (hend.append hend))

/-- A last size line of 16384 bytes is taken if it comes in one read and its end in another. -/
theorem chunkedBody_line {line : Bytes} (hlen : line.length = 16384)
    (hcut : cut crlf (line ++ crlf) = some (line, []))
    (hsize : parseChunkSize line 0 line.length 1048576 = .ok 0) :
    chunkedBody postServer [] 57 false ([line, crlf, crlf].map .ok) = .ok [] := by
  have hne : line ≠ [] := fun hnil => by rw [hnil] at hlen; cases hlen
  have hnone : cut crlf line = none := by
    cases hfound : cut crlf line with
    | none => rfl
    | some parts =>
      have hwhole := cut_append hfound crlf
      rw [hcut] at hwhole
      simp at hwhole
  generalize hstart : (⟨[], [], 0, .size, 0, 0, false, []⟩ : ChunkState) = start
  have hphase : start.phase = .size := by rw [← hstart]
  have hbody : start.body = [] := by rw [← hstart]
  have hrest : start.rest = [] := by rw [← hstart]; rfl
  have htext : (line ++ crlf).length = line.length + 2 := by rw [length_append]; rfl
  generalize hlast : ({ start.holding (line ++ crlf) with
    remaining := 0, cursor := 0 + line.length + 2, phase := .trailers } : ChunkState) = last
  have hemp : last.rest = [] := by
    rw [← hlast]
    show (line ++ crlf).drop (0 + line.length + 2) = []
    rw [drop_eq_nil_iff]
    omega
  have hused : Leads postServer 57 false (start.holding (line ++ crlf)) [] last := by
    refine .used (fun reads => ?_) ?_
    · rw [chunkedStep_line hphase (by rw [hbody]; exact zero_le _) hcut reads, hbody,
        length_nil, Nat.sub_zero, hsize, ← hlast]
      rfl
    · rw [← length_rest, ← length_rest, hemp]
      exact length_pos_of_ne_nil (by simp [ChunkState.rest, ChunkState.holding])
  have hleads := (@leads_parts postServer 57 false start rfl hphase hrest line crlf hne (by simp)
    hnone hlen.le).trans hused
  obtain ⟨late, hlate, hloop⟩ := hleads [crlf] _ le_rfl
  -- the trailers have one limit, whatever the reads
  have hpcs : Pieces 16384 crlf [crlf] := .one (by simp) (by simp)
  have hread (limit : ℕ) : readFrom limit 57 (last.withReads [crlf])
      (last.withReads [crlf]).stream = .ok ([], []) := by
    rw [ChunkState.stream_withReads hpcs.toCuts, hemp, ← hlast, nil_append]
    show (readTrailers 57 start.trailerBytes crlf).map (fun rest => (start.body, rest)) = _
    rw [← hstart, readTrailers_crlf]
    rfl
  have hfit : (last.withReads [crlf]).Fit 16384 := by
    refine ChunkState.Fit.withReads ⟨fun _ hmem => (by cases hmem), ?_, ?_, ?_, ?_⟩ hpcs
    · show last.available ≤ _
      rw [← length_rest, hemp]
      exact zero_le _
    · rw [← hlast, ← hstart]
      exact zero_le _
    · rw [← hlast]
      intro h
      cases h
    · rw [← hlast]
      exact fun hne => absurd rfl hne
  have hend := @chunkedLoop_reading _ 16384 57 postServer false late rfl hfit hlate
  rw [hread, hread] at hend
  have hwhole : chunkedBody postServer [] 57 false ([line, crlf, crlf].map .ok) =
      chunkedLoop postServer 57 false late (last.withReads [crlf]) := by
    rw [← hloop, ← hstart]
    rfl
  rw [hwhole]
  rcases hend (fun body rest heq => by cases heq; rfl) with ⟨-, href⟩ | hdone
  · cases href
  · exact hdone

theorem serveConnection_lineReads (hcnt : count = 16384) :
    serveConnection postServer ((lineReads count).map .ok) =
      .invoke (some 0) ⟨ascii "POST", ascii "/a", empty, postRequest.headers, []⟩ := by
  have htake : (zerosRequest count).take postRequest.bodyStart = postHead := by
    exact take_left' length_postHead
  have hloop := (headLoop_one (headOf_zerosRequest count)
    ([replicate count 48, crlf, crlf].map .ok)).1
  have hchk := chunkedBody_line (length_replicate.trans hcnt)
    (cut_replicate count (show cut crlf crlf = some ([], []) by decide))
    (parseChunkSize_replicate count 1048576 (by omega))
  have hbody : requestBody postServer postRequest postHead false
      ([replicate count 48, crlf, crlf].map .ok) = .ok [] := by
    rw [requestBody, copyBytes_length]
    simp only [show postRequest.chunked = true from rfl, show postRequest.bodyStart = 57 from rfl,
      ↓reduceIte]
    rw [drop_eq_nil_iff.mpr length_postHead.le, hchk]
  rw [htake] at hloop
  rw [lineReads, map_cons, serveConnection, hloop]
  simp only [routeHead_zerosRequest, hbody]
  decide +kernel

theorem serveConnection_singletons (hcnt : count = 16384) :
    serveConnection postServer (((zerosRequest count).map fun b => [b]).map .ok) =
      .reject 431 empty false := by
  have hlong : LongLine [] ((zerosRequest count).drop postRequest.bodyStart) := by
    exact .here (cut_replicate count (show cut crlf (crlf ++ crlf) = some ([], crlf) by decide))
      (by rw [length_replicate, hcnt])
  have honly : isHeadRequest (zerosRequest count) = false := by
    rw [zerosRequest, isHeadRequest_append (.inl (by rw [length_postHead]; omega))]
    decide +kernel
  have hstr : servedAs 16383 postServer (zerosRequest count) = .reject 431 empty false := by
    rw [servedAs, headOf_zerosRequest]
    simp only [routeHead_zerosRequest]
    rw [bodyOf, show postRequest.chunked = true from rfl]
    simp only [↓reduceIte, hlong.refused, honly]
    rfl
  have hserve := @serveConnection_reading postServer rfl 1 (.inl rfl) (zerosRequest count)
    (holdsOne_zerosRequest (by omega) (by omega)) _ (.singletons le_rfl _)
  rw [or_self] at hserve
  rw [hserve, hstr]

/-! ## Agreement -/

/-- A size line of 16384 bytes or more is reached, and the lenient reading does not end in 431. -/
def Divided (connection : Connection) (stream : Bytes) : Prop :=
  ∃ head selected expect, headOf stream = .ok head ∧
    routeHead connection head stream.length = .ok (selected, expect) ∧ head.chunked = true ∧
    LongLine [] (stream.drop head.bodyStart) ∧
    readChunks 32766 head.bodyStart [] (stream.drop head.bodyStart) ≠ .error 431

theorem servedAs_of_not_divided (h : ¬ Divided connection stream) :
    servedAs 16383 connection stream = servedAs 32766 connection stream := by
  rw [servedAs, servedAs]
  rcases hhead : headOf stream with status | head
  · rfl
  simp only
  rcases hroute : routeHead connection head stream.length with rejection | ⟨selected, expect⟩
  · rfl
  have hbody : bodyOf 16383 head (stream.drop head.bodyStart) =
      bodyOf 32766 head (stream.drop head.bodyStart) := by
    rw [bodyOf, bodyOf]
    rcases hchk : head.chunked with _ | _
    · rfl
    by_cases hlong : LongLine [] (stream.drop head.bodyStart)
    · have hlnt : readChunks 32766 head.bodyStart [] (stream.drop head.bodyStart) = .error 431 := by
        by_contra hne
        exact h ⟨head, selected, expect, hhead, hroute, hchk, hlong, hne⟩
      rw [hlong.refused, hlnt]
    · rw [@readChunks_of_not_long 32766 head.bodyStart (by omega) [] _ hlong]
  simp only [hbody]

theorem servedAs_of_divided (h : Divided connection stream) :
    servedAs 16383 connection stream ≠ servedAs 32766 connection stream := by
  obtain ⟨head, selected, expect, hhead, hroute, hchk, hlong, hne⟩ := h
  rw [servedAs, servedAs, hhead]
  simp only [hroute]
  rw [bodyOf, bodyOf, hchk]
  simp only [↓reduceIte, hlong.refused]
  cases hread : readChunks 32766 head.bodyStart [] (stream.drop head.bodyStart) with
  | error status =>
    intro heq
    rw [hread] at hne
    cases heq
    exact hne rfl
  | ok res => exact fun h => by cases h

/-- All ways of cutting a stream that holds one request into nonempty reads of at most 16384 bytes
come to the same decision, exactly when no chunk-size line of 16384 bytes or more is reached, or the
request is refused with 431 in any case. -/
theorem routed_cuts_agree_iff (connection : Connection) (stream : Bytes)
    (hcontinues : connection.continues) (hone : HoldsOne stream) :
    (∀ reads reads', Pieces 16384 stream reads → Pieces 16384 stream reads' →
      serveConnection connection (reads.map .ok) = serveConnection connection (reads'.map .ok)) ↔
    ¬ Divided connection stream := by
  constructor
  · intro hagree hdivided
    have hsingle := @Pieces.singletons 1 le_rfl stream
    have hstr : serveConnection connection ((stream.map fun b => [b]).map .ok) =
        servedAs 16383 connection stream := by
      rcases serveConnection_reading hcontinues (.inl rfl) hone hsingle with h | h <;> exact h
    obtain ⟨head, selected, expect, hhead, -, hchk, -⟩ := id hdivided
    obtain ⟨reads, hreads, hlnt⟩ := exists_lenient_serve hcontinues hone hhead hchk
    have hsame := hagree _ _ (hsingle.mono (by omega)) hreads
    rw [hstr, hlnt] at hsame
    exact servedAs_of_divided hdivided hsame
  · intro hnot reads reads' hreads hreads'
    have hall {cuts : List Bytes} (hcuts : Pieces 16384 stream cuts) :
        serveConnection connection (cuts.map .ok) = servedAs 32766 connection stream := by
      rcases serveConnection_reading hcontinues (.inr rfl) hone hcuts with h | h
      · rw [h, servedAs_of_not_divided hnot]
      · exact h
    rw [hall hreads, hall hreads']

theorem routed_cuts_agree_zeros : serveConnection postServer ((lineReads 5).map .ok) =
      serveConnection postServer (((zerosRequest 5).map fun b => [b]).map .ok) := by
  refine (routed_cuts_agree_iff postServer (zerosRequest 5) rfl
    (holdsOne_zerosRequest (by omega) (by omega))).mpr ?_ _ _
    (pieces_lineReads (by omega) (by omega)) (.singletons (by omega) _)
  rintro ⟨head, selected, expect, hhead, -, -, hlong, -⟩
  have hlen := hlong.length_le
  rw [headOf_zerosRequest] at hhead
  cases hhead
  rw [show postRequest.bodyStart = 57 from rfl, drop_zerosRequest] at hlen
  simp at hlen

/-- A request with a chunk-size line of 16384 bytes: taken if the line comes in one read and its end
in another, refused byte by byte. -/
theorem routed_cuts_disagree : Pieces 16384 (zerosRequest 16384) (lineReads 16384) ∧
      Pieces 16384 (zerosRequest 16384) ((zerosRequest 16384).map fun b => [b]) ∧
      serveConnection postServer ((lineReads 16384).map .ok) =
        .invoke (some 0) ⟨ascii "POST", ascii "/a", empty, postRequest.headers, []⟩ ∧
      serveConnection postServer (((zerosRequest 16384).map fun b => [b]).map .ok) =
        .reject 431 empty false :=
  ⟨pieces_lineReads (by omega) le_rfl, .singletons (by omega) _, serveConnection_lineReads rfl,
    serveConnection_singletons rfl⟩

end Panackelty.Http
