import Panackelty.Http.Framing

/-!
# Reading a request piece by piece

The server parses its buffer again after every read.  `requestExtent` is what the parser finds at
the front of the buffer, before it looks at what follows: nothing yet, a rejection, or a request
and its length.  It settles once (`requestExtent_append`), and the answer of the parser is
determined by it.
-/

namespace Panackelty.Http

open List

variable {w t : Bytes} {methods : List Str} {head : RequestHead} {bodyLimit : ℕ}

/-- The request at the front of the buffer: its head, its body and where it ends. -/
def requestExtent (data : Bytes) (bodyLimit : ℕ) :
    Except HttpError (Option (RequestHead × Bytes × ℕ)) :=
  match findHeaderEnd data with
  | none =>
    if data.length > httpHeaderLimit then .error (.limitExceeded "request headers") else .ok none
  | some headerEnd =>
    if headerEnd + 4 > httpHeaderLimit then .error (.limitExceeded "request headers")
    else
      match requestHead data headerEnd bodyLimit with
      | .error error => .error error
      | .ok head =>
        match head.contentLength with
        | some length =>
          if data.length < head.bodyStart + length then .ok none
          else
            .ok (some (head, copyBytes data head.bodyStart (head.bodyStart + length),
              head.bodyStart + length))
        | none =>
          if head.chunked then
            match chunkLoop data false bodyLimit (headerEnd + 4) (data.length + 1) head.bodyStart []
              with
            | .error error => .error error
            | .ok none => .ok none
            | .ok (some chunked) => .ok (some (head, chunked.body, chunked.next))
          else .ok (some (head, [], head.bodyStart))

/-- What is found at the front of the buffer stays as it is when the buffer grows. -/
theorem requestExtent_append (t : Bytes) (bodyLimit : ℕ) : requestExtent w bodyLimit = .ok none ∨
      requestExtent (w ++ t) bodyLimit = requestExtent w bodyLimit := by
  rw [requestExtent, requestExtent]
  cases hend : findHeaderEnd w with
  | none =>
    simp only
    split
    · right
      cases hend' : findHeaderEnd (w ++ t) with
      | none =>
        have hlong' : (w ++ t).length > httpHeaderLimit := by
          rw [length_append]
          omega
        simp only [if_pos hlong']
      | some headerEnd =>
        have hlt := length_lt_of_findHeaderEnd_append hend hend'
        simp only [if_pos (show headerEnd + 4 > httpHeaderLimit by omega)]
    · exact .inl rfl
  | some headerEnd =>
    have hbound := findHeaderEnd_bound hend
    simp only [findHeaderEnd_append t hend, requestHead_append t
      (show headerEnd + 2 ≤ w.length by omega)]
    split
    · exact .inr rfl
    rcases hhead : requestHead w headerEnd bodyLimit with error | head
    · exact .inr rfl
    have hstart := bodyStart_of_requestHead hhead
    simp only
    cases head.contentLength with
    | some length =>
      simp only
      by_cases hneed : w.length < head.bodyStart + length
      · rw [if_pos hneed]
        exact .inl rfl
      have hroom : ¬ (w ++ t).length < head.bodyStart + length := by
        rw [length_append]
        omega
      rw [if_neg hneed, if_neg hroom, copyBytes_append t (by omega)]
      exact .inr rfl
    | none =>
      simp only
      split
      · rcases chunkLoop_append t false bodyLimit (headerEnd + 4)
          (show head.bodyStart ≤ w.length by omega)
          (show w.length < w.length + 1 + head.bodyStart by omega)
          (show (w ++ t).length < (w ++ t).length + 1 + head.bodyStart by omega) [] with
          hnone | hsame
        · rw [hnone]
          exact .inl rfl
        · rw [hsame]
          exact .inr rfl
      · exact .inr rfl

theorem requestExtent_le {stop : ℕ} {body : Bytes}
    (h : requestExtent w bodyLimit = .ok (some (head, body, stop))) : stop ≤ w.length := by
  unfold requestExtent at h
  split at h
  · split at h <;> cases h
  rename_i headerEnd hend
  have hbound := findHeaderEnd_bound hend
  split at h
  · cases h
  split at h
  · cases h
  rename_i head' hhead
  have hstart := bodyStart_of_requestHead hhead
  split at h
  · split at h
    · cases h
    · cases h
      omega
  split at h
  · split at h
    · cases h
    · cases h
    rename_i hchunks
    cases h
    exact chunkLoop_le hchunks
  · cases h
    omega

/-- What the parser answers to a buffer with this request at its front. -/
def Answers (data : Bytes) (bodyLimit : ℕ) (methods : List Str) :
    Except HttpError (Option (RequestHead × Bytes × ℕ)) → Prop
  | .error error => ∀ eof, parseRequestForMethods data eof bodyLimit methods = .error error
  | .ok none =>
    parseRequestForMethods data false bodyLimit methods = .ok none ∧
      ∃ error, parseRequestForMethods data true bodyLimit methods = .error error
  | .ok (some (head, body, stop)) =>
    ∀ eof, (stop < data.length →
        ∃ error, parseRequestForMethods data eof bodyLimit methods = .error error) ∧
      (stop = data.length → parseRequestForMethods data eof bodyLimit methods =
        if methodSupported head.method methods then
          .ok (some ⟨head.method, head.target, head.headers, body⟩)
        else .error (.unsupportedMethod head.method))

section Answers

variable {data : Bytes} {headerEnd : ℕ} (hend : findHeaderEnd data = some headerEnd)
  (hlim : ¬ headerEnd + 4 > httpHeaderLimit)
    (hhead : requestHead data headerEnd bodyLimit = .ok head)

include hend hlim hhead

theorem answers_of_length {length : ℕ} (hlen : head.contentLength = some length) :
    Answers data bodyLimit methods
      (if data.length < head.bodyStart + length then .ok none
        else .ok (some (head, copyBytes data head.bodyStart (head.bodyStart + length),
          head.bodyStart + length))) := by
  split_ifs with hneed
  · constructor
    · simp only [parseRequestForMethods, hend, if_neg hlim, hhead, hlen, if_pos hneed]
      rfl
    · exact ⟨.protocolError "truncated HTTP request body", by
        simp only [parseRequestForMethods, hend, if_neg hlim, hhead, hlen, if_pos hneed]
        rfl⟩
  · intro eof
    constructor
    · intro hlt
      exact ⟨.protocolError "extra bytes after HTTP request", by
        simp [parseRequestForMethods, hend, if_neg hlim, hhead, hlen, if_neg hneed,
          if_pos (show data.length > head.bodyStart + length from hlt)]⟩
    intro hstop
    simp only [parseRequestForMethods, hend, if_neg hlim, hhead, hlen, if_neg hneed,
      if_neg (show ¬ data.length > head.bodyStart + length by omega)]
    rw [hstop]
    cases methodSupported head.method methods <;> rfl

/-- What the parser answers from a chunked body. -/
def chunkedAnswer (head : RequestHead) (methods : List Str) :
    Except HttpError (Option ChunkedBody) → Except HttpError (Option Request)
  | .error error => .error error
  | .ok none => .ok none
  | .ok (some chunked) =>
    if !methodSupported head.method methods then .error (.unsupportedMethod head.method)
    else .ok (some ⟨head.method, head.target, head.headers, chunked.body⟩)

theorem answers_of_chunked (hlen : head.contentLength = none) (hchk : head.chunked) :
    Answers data bodyLimit methods
      (match chunkLoop data false bodyLimit (headerEnd + 4) (data.length + 1) head.bodyStart [] with
        | .error error => .error error
        | .ok none => .ok none
        | .ok (some chunked) => .ok (some (head, chunked.body, chunked.next))) := by
  have hbound := findHeaderEnd_bound hend
  have hstart := bodyStart_of_requestHead hhead
  have hprs : ∀ eof, parseRequestForMethods data eof bodyLimit methods =
      chunkedAnswer head methods (decodeChunked data head.bodyStart eof bodyLimit
        (headerEnd + 4)) := by
    intro eof
    simp only [parseRequestForMethods, hend, if_neg hlim, hhead, hlen, if_pos hchk]
    rfl
  -- a decided loop is the same loop at the end of the input
  have hset : chunkLoop data false bodyLimit (headerEnd + 4) (data.length + 1) head.bodyStart []
      ≠ .ok none → ∀ eof, chunkLoop data eof bodyLimit (headerEnd + 4) (data.length + 1)
        head.bodyStart [] =
      chunkLoop data false bodyLimit (headerEnd + 4) (data.length + 1) head.bodyStart [] := by
    intro hne eof
    have happ := chunkLoop_append [] eof bodyLimit (headerEnd + 4)
      (show head.bodyStart ≤ data.length by omega)
      (show data.length < data.length + 1 + head.bodyStart by omega)
      (show (data ++ []).length < data.length + 1 + head.bodyStart by
        rw [append_nil]
        omega) []
    rw [append_nil] at happ
    exact happ.resolve_left hne
  cases hloop : chunkLoop data false bodyLimit (headerEnd + 4) (data.length + 1) head.bodyStart []
    with
  | error error =>
    intro eof
    rw [hprs, decodeChunked, hset (by rw [hloop]; exact fun h => by cases h) eof, hloop]
    rfl
  | ok found =>
    cases found with
    | none =>
      constructor
      · rw [hprs, decodeChunked, hloop]
        rfl
      rw [hprs, decodeChunked]
      cases heof : chunkLoop data true bodyLimit (headerEnd + 4) (data.length + 1) head.bodyStart
          [] with
      | error error => exact ⟨error, rfl⟩
      | ok found' =>
        cases found' with
        | none => exact ⟨_, rfl⟩
        | some chunked => rw [chunkLoop_eof heof] at hloop; cases hloop
    | some chunked =>
      intro eof
      have hsame := hset (by rw [hloop]; exact fun h => by cases h) eof
      constructor
      · intro hlt
        exact ⟨.protocolError "extra bytes after HTTP request", by
          rw [hprs, decodeChunked, hsame, hloop]
          simp only [if_pos (show data.length > chunked.next from hlt)]
          rfl⟩
      · intro hstop
        rw [hprs, decodeChunked, hsame, hloop]
        simp only [if_neg (show ¬ data.length > chunked.next by omega)]
        rw [chunkedAnswer]
        cases methodSupported head.method methods <;> rfl

theorem answers_of_no_body (hlen : head.contentLength = none) (hchk : ¬ head.chunked = true) :
    Answers data bodyLimit methods (.ok (some (head, [], head.bodyStart))) := by
  intro eof
  constructor
  · intro hlt
    exact ⟨.protocolError "request body has no framing", by
      simp [parseRequestForMethods, hend, if_neg hlim, hhead, hlen, if_neg hchk,
        if_pos (show data.length > head.bodyStart from hlt)]⟩
  · intro hstop
    simp only [parseRequestForMethods, hend, if_neg hlim, hhead, hlen, if_neg hchk,
      if_neg (show ¬ data.length > head.bodyStart by omega)]
    cases methodSupported head.method methods <;> rfl

end Answers

/-- The answer of the parser follows from the request at the front of its buffer. -/
theorem answers_requestExtent (data : Bytes) (bodyLimit : ℕ) (methods : List Str) :
    Answers data bodyLimit methods (requestExtent data bodyLimit) := by
  unfold requestExtent
  cases hend : findHeaderEnd data with
  | none =>
    simp only
    split
    · rename_i hlong
      intro eof
      simp only [parseRequestForMethods, hend, if_pos hlong]
    · rename_i hshort
      refine ⟨?_, .protocolError "incomplete HTTP request headers", ?_⟩ <;>
      · simp only [parseRequestForMethods, hend, if_neg hshort]
        rfl
  | some headerEnd =>
    simp only
    split
    · rename_i hlong
      intro eof
      simp only [parseRequestForMethods, hend, if_pos hlong]
    rename_i hlim
    rcases hhead : requestHead data headerEnd bodyLimit with error | head
    · intro eof
      simp only [parseRequestForMethods, hend, if_neg hlim, hhead]
    simp only
    cases hlen : head.contentLength with
    | some length => exact answers_of_length hend hlim hhead hlen
    | none =>
      simp only
      split
      · rename_i hchk
        exact answers_of_chunked hend hlim hhead hlen hchk
      · rename_i hchk
        exact answers_of_no_body hend hlim hhead hlen hchk

theorem extent_of_accepted {eof : Bool} {req : Request}
    (h : parseRequestForMethods w eof bodyLimit methods = .ok (some req)) :
    ∃ head body, requestExtent w bodyLimit = .ok (some (head, body, w.length)) := by
  have hans := answers_requestExtent w bodyLimit methods
  rcases hext : requestExtent w bodyLimit with error | found
  · rw [hext] at hans
    rw [hans eof] at h
    cases h
  rw [hext] at hans
  rcases found with _ | ⟨head, body, stop⟩
  · obtain ⟨hmore, error, herr⟩ := hans
    cases eof with
    | false => rw [hmore] at h; cases h
    | true => rw [herr] at h; cases h
  rcases Nat.lt_or_eq_of_le (requestExtent_le hext) with hlt | heq
  · obtain ⟨error, herr⟩ := (hans eof).1 hlt
    cases herr.symm.trans h
  · exact ⟨head, body, by rw [heq]⟩

theorem rejected_of_extent {eof : Bool} {stop : ℕ} {body : Bytes}
    (h : requestExtent w bodyLimit = .ok (some (head, body, stop))) (hstop : stop < w.length) :
    ∃ error, parseRequestForMethods w eof bodyLimit methods = .error error := by
  have hans := answers_requestExtent w bodyLimit methods
  rw [h] at hans
  exact (hans eof).1 hstop

/-- Reading piece by piece never accepts early, never rejects a request that is to be accepted, and
never takes a rejection back. -/
theorem incremental_parse (bodyLimit : ℕ) (methods : List Str) :
    (∀ (w : Bytes) (eof : Bool) (request : Request),
      parseRequestForMethods w eof bodyLimit methods = .ok (some request) →
      (∀ p t : Bytes, w = p ++ t → t ≠ [] →
        parseRequestForMethods p false bodyLimit methods = .ok none) ∧
      ∀ (t : Bytes) (eof : Bool), t ≠ [] →
        ∃ error, parseRequestForMethods (w ++ t) eof bodyLimit methods = .error error) ∧
    ∀ (w : Bytes) (error : HttpError),
      parseRequestForMethods w false bodyLimit methods = .error error → ∀ (t : Bytes) (eof : Bool),
        ∃ error, parseRequestForMethods (w ++ t) eof bodyLimit methods = .error error := by
  refine ⟨fun w eof request hacc => ⟨?_, ?_⟩, ?_⟩
  · rintro p t rfl hne
    obtain ⟨head, body, hext⟩ := extent_of_accepted hacc
    have hpos : 0 < t.length := length_pos_of_ne_nil hne
    rcases requestExtent_append (w := p) t bodyLimit with hnone | hsame
    · have hans := answers_requestExtent p bodyLimit methods
      rw [hnone] at hans
      exact hans.1
    · -- a decision on the shorter buffer would be the whole request, which does not fit into it
      have hle := requestExtent_le (hsame.symm.trans hext)
      rw [length_append] at hle
      omega
  · intro t eof' hne
    obtain ⟨head, body, hext⟩ := extent_of_accepted hacc
    have hpos : 0 < t.length := length_pos_of_ne_nil hne
    have hsame := (requestExtent_append t bodyLimit).resolve_left
        (by rw [hext]; exact fun h => by cases h)
    exact rejected_of_extent (hsame.trans hext) (by rw [length_append]; omega)
  · intro w error hreject t eof
    have hans := answers_requestExtent w bodyLimit methods
    have hset : requestExtent w bodyLimit ≠ .ok none := by
      intro hnone
      rw [hnone] at hans
      cases hans.1.symm.trans hreject
    have hsame := (requestExtent_append t bodyLimit).resolve_left hset
    have hans' := answers_requestExtent (w ++ t) bodyLimit methods
    rw [hsame] at hans'
    rcases hext : requestExtent w bodyLimit with error' | found
    · rw [hext] at hans'
      exact ⟨error', hans' eof⟩
    rcases found with _ | ⟨head, body, stop⟩
    · exact absurd hext hset
    rw [hext] at hans hans'
    rcases Nat.lt_or_eq_of_le (requestExtent_le hext) with hlt | heq
    · exact (hans' eof).1 (by rw [length_append]; omega)
    -- the whole buffer is a request whose method is not supported
    rw [(hans false).2 heq] at hreject
    cases t with
    | nil =>
      rw [append_nil] at hans' ⊢
      exact ⟨error, ((hans' eof).2 heq).trans hreject⟩
    | cons b t => exact (hans' eof).1 (by rw [length_append, length_cons]; omega)

/-- A request with a chunked body, whose prefixes ask for more. -/
theorem incremental_parse_post :
    let w := Str.asciiBytes
      "POST / HTTP/1.1\r\nHost: a\r\nTransfer-Encoding: chunked\r\n\r\n2;x=y\r\nab\r\n0\r\n\r\n"
    parseRequestForMethods (w.take 60) false 10 [Str.ascii "POST"] = .ok none ∧
      ∃ error, parseRequestForMethods (w ++ [65]) false 10 [Str.ascii "POST"] = .error error := by
  intro w
  have hacc : parseRequestForMethods w false 10 [Str.ascii "POST"] =
      .ok (some ⟨Str.ascii "POST", Str.ascii "/", [⟨Str.ascii "Host", Str.ascii "a"⟩,
        ⟨Str.ascii "Transfer-Encoding", Str.ascii "chunked"⟩], Str.asciiBytes "ab"⟩) := by
    decide +kernel
  obtain ⟨hpre, hextension⟩ := (incremental_parse 10 [Str.ascii "POST"]).1 w false _ hacc
  exact ⟨hpre (w.take 60) (w.drop 60) (take_append_drop 60 w).symm (by decide +kernel),
    hextension [65] false (by decide)⟩

end Panackelty.Http
