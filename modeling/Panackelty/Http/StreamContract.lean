import Panackelty.Http.StreamSteps

/-!
# Streaming and one-shot reading agree

Both readers accept the well-formed responses (`WellFormed`), whatever the cuts of the transport,
with two differences: each has its own largest body limit, and the streaming reader may refuse a
chunk-size line of 8192 bytes.
-/

namespace Panackelty.Http

open Library Reader List Nat ResponseStream

variable {rest : Bytes} {fuel headers infos length : ℕ}

/-! ## Content lengths -/

theorem responseDecimalLoop_le {limit value : ℕ} {valid tooLarge : Bool} {text : Bytes}
    (hval : tooLarge = false → value ≤ limit)
    (h : responseDecimalLoop limit text value valid tooLarge = .ok length) : length ≤ limit := by
  induction text generalizing value valid tooLarge with
  | nil =>
    rw [responseDecimalLoop] at h
    split_ifs at h with _ hlarge
    cases h
    exact hval (by simpa using hlarge)
  | cons b text ih =>
    rw [responseDecimalLoop] at h
    split at h
    · refine ih (fun hlarge => ?_) h
      rw [Bool.or_eq_false_iff, decide_eq_false_iff_not] at hlarge
      exact Nat.le_of_not_lt hlarge.2
    · exact ih hval h

theorem headerLines_induction {σ : Type} {field : σ → Header → Except HttpError σ} {P : σ → Prop}
    (hfield : ∀ fields hdr next, P fields → field fields hdr = .ok next → P next)
    {data : Bytes} {headerEnd cur : ℕ} {fields last : σ} (hflds : P fields)
    (h : headerLines field data headerEnd fuel cur fields = .ok last) : P last := by
  induction fuel generalizing cur fields with
  | zero =>
    cases h
    exact hflds
  | succ fuel ih =>
    rw [headerLines] at h
    split at h
    · split at h
      · cases h
      split at h
      · cases h
      split at h
      · cases h
      · rename_i next hnext
        exact ih (hfield _ _ _ hflds hnext) h
    · cases h
      exact hflds

theorem responseField_length {bodyLimit : ℕ} {fields next : ResponseFields} {hdr : Header}
    (hflds : ∀ length ∈ fields.contentLength, length ≤ bodyLimit)
    (h : responseField bodyLimit fields hdr = .ok next) :
    ∀ length ∈ next.contentLength, length ≤ bodyLimit := by
  unfold responseField at h
  simp only at h
  split at h
  · split at h
    · cases h
    split at h
    · cases h
    rename_i length hdec
    cases h
    intro len' hmem
    cases hmem
    rw [parseResponseDecimal] at hdec
    split_ifs at hdec
    · exact responseDecimalLoop_le (fun _ => zero_le _) hdec
  · split at h
    · split_ifs at h
      · cases h
        exact hflds
    · cases h
      exact hflds

/-- A head that is accepted announces no more than the body limit. -/
theorem contentLength_le {data : Bytes} {off headerEnd bodyLimit : ℕ} {head : ResponseHead}
    (h : responseHead data off headerEnd bodyLimit = .ok head)
    (hlen : head.contentLength = some length) : length ≤ bodyLimit := by
  unfold responseHead at h
  split at h
  · cases h
  split at h
  · cases h
  split at h
  · cases h
  rename_i fields hflds
  split_ifs at h
  cases h
  exact headerLines_induction (P := fun fields : ResponseFields =>
    ∀ length ∈ fields.contentLength, length ≤ bodyLimit)
    (fun _ _ _ hprev hnext => responseField_length hprev hnext) (fun _ hmem => (by cases hmem))
    hflds length hlen

theorem Heads.contentLength_le {bodyLimit headerBytes : ℕ} {stream : Bytes} {head : ResponseHead}
    (h : Heads bodyLimit headers infos stream head headerBytes rest)
    (hlen : head.contentLength = some length) : length ≤ bodyLimit := by
  induction h with
  | final _ _ hhead _ => exact Http.contentLength_le hhead hlen
  | informational _ _ _ _ _ _ ih => exact ih hlen

/-! ## Heads -/

/-- The reader of the body of a response. -/
def ResponseStream.reader (response : ResponseStream) : Reader :=
  ⟨response.transport, response.buffer, false⟩

/-- The response has this head. -/
structure ResponseStream.HasHead (response : ResponseStream) (head : ResponseHead)
    (headerBytes : ℕ) : Prop where
  status : response.status = head.status
  headers : response.headers = head.headers
  contentLength : response.contentLength = head.contentLength
  chunked : response.chunked = head.chunked
  headerBytes : response.headerBytes = headerBytes

variable {r : Reader} {bodyLimit : ℕ}

theorem findHeaderEndFrom_buffer (buf : Bytes) :
    findHeaderEndFrom buf 0 = (cut headEnd buf).map fun p => p.1.length := by
  rw [findHeaderEndFrom_eq_cut, drop_zero]
  simp

theorem responseHead_stream {text : Bytes} (hcut : cut headEnd r.buffer = some (text, rest)) :
    responseHead r.stream 0 text.length bodyLimit =
      responseHead r.buffer 0 text.length bodyLimit := by
  have hlen := length_of_cut_headEnd hcut
  exact responseHead_append _ (by omega) 0 bodyLimit

theorem heads_of_readHeadLoop {response : ResponseStream} (hr : r.Steady)
    (h : readHeadLoop bodyLimit fuel r headers infos = .ok response) :
    response.reader.Steady ∧ ∃ head, response.HasHead head response.headerBytes ∧
      Heads bodyLimit headers infos r.stream head response.headerBytes response.reader.stream := by
  induction fuel generalizing r headers infos with
  | zero => cases h
  | succ fuel ih =>
    rw [readHeadLoop, findHeaderEndFrom_buffer] at h
    cases hcut : cut headEnd r.buffer with
    | none =>
      simp only [hcut, Option.map_none] at h
      split at h
      · cases h
      cases heof : r.eof with
      | true => simp [heof] at h
      | false =>
        obtain ⟨next, hmore, hstdy, hstr, -⟩ := hr.more heof
        simp only [heof, Bool.false_eq_true, ↓reduceIte, hmore] at h
        rw [← hstr]
        exact ih hstdy h
    | some parts =>
      obtain ⟨text, rest⟩ := parts
      have hstr := cut_append hcut (r.transport.map answerBytes).flatten
      have hrest := drop_zero_cut hcut
      simp only [length_cons, length_nil] at hrest
      simp only [hcut, Option.map_some] at h
      split at h
      · cases h
      rename_i hlim
      have hlim' : headers + text.length + 4 ≤ httpHeaderLimit := Nat.le_of_not_lt hlim
      rcases hhead : responseHead r.buffer 0 text.length bodyLimit with error | head
      · rw [hhead] at h; cases h
      have hstart := bodyStart_of_responseHead hhead
      simp only [hhead, copyBytes_length, hstart] at h
      rw [← responseHead_stream hcut] at hhead
      split at h
      · rename_i hstat
        split_ifs at h with hcnt
        obtain ⟨hstdy, last, hlast, hheads⟩ := ih (hr.drop _) h
        refine ⟨hstdy, last, hlast, .informational hstr hlim' hhead hstat (by omega) ?_⟩
        rw [hrest] at hheads
        exact hheads
      · rename_i hstat
        cases h
        refine ⟨⟨hr.pieces, fun h => by cases h⟩, head, ⟨rfl, rfl, rfl, rfl, rfl⟩, ?_⟩
        have hdrop : stream ⟨r.transport, r.buffer.drop (text.length + 4), false⟩ = rest ++
            (r.transport.map answerBytes).flatten := by
          rw [stream]
          rw [hrest]
        rw [ResponseStream.reader, hdrop]
        exact .final hstr hlim' hhead (Nat.le_of_not_lt hstat)

theorem readHeadLoop_of_heads {headerBytes : ℕ} {stream : Bytes} {head : ResponseHead}
    (h : Heads bodyLimit headers infos stream head headerBytes rest) (hr : r.Steady)
    (hstr : r.stream = stream) (hfuel : r.size ≤ fuel) :
    ∃ response : ResponseStream, readHeadLoop bodyLimit fuel r headers infos = .ok response ∧
      response.reader.Steady ∧ response.reader.stream = rest ∧ response.HasHead head headerBytes ∧
      (r.transport.length ≤ 1 → r.buffer = [] ∨ r.transport = [] → response.transport = []) := by
  induction fuel generalizing r headers infos stream with
  | zero => exact absurd hfuel (Nat.not_le_of_lt r.size_pos)
  | succ fuel ih =>
    subst hstr
    rw [readHeadLoop, findHeaderEndFrom_buffer]
    -- whatever the first head is, the buffer holds it or asks for more
    have hfirst : ∃ text tail, cut headEnd r.stream = some (text, tail) ∧
        headers + text.length + 4 ≤ httpHeaderLimit := by
      cases h with
      | final hcut hlim _ _ | informational hcut hlim _ _ _ _ => exact ⟨_, _, hcut, hlim⟩
    obtain ⟨text, tail, hcut, hlim⟩ := hfirst
    rw [httpHeaderLimit] at hlim
    cases hbuf : cut headEnd r.buffer with
    | none =>
      have hlt := length_lt_of_cut_append (by simp) hbuf hcut
      simp only [length_cons, length_nil] at hlt
      cases heof : r.eof with
      | true =>
        rw [hr.stream_of_eof heof, hbuf] at hcut
        cases hcut
      | false =>
        obtain ⟨next, hmore, hstdy, hstr, hsize, -, htrans⟩ := hr.more heof
        rw [← hstr] at h
        obtain ⟨response, hread, hresp, hrest, hhead, hdone⟩ := ih h hstdy rfl (by omega)
        refine ⟨response, ?_, hresp, hrest, hhead, fun hone _ => ?_⟩
        · simp only [Option.map_none, Bool.false_eq_true, ↓reduceIte, hmore]
          rw [if_neg (by omega), hread]
        · exact hdone (by omega) (.inr (length_eq_zero_iff.mp (by omega)))
    | some parts =>
      obtain ⟨text', rest'⟩ := parts
      have hsame := cut_append hbuf (r.transport.map answerBytes).flatten
      have hboth := hsame.symm.trans hcut
      cases hboth
      have hlen := length_of_cut_headEnd hbuf
      have hrest := drop_zero_cut hbuf
      simp only [length_cons, length_nil] at hrest
      have hhand : r.buffer = [] ∨ r.transport = [] → r.transport = [] := by
        rintro (hemp | hemp)
        · rw [hemp] at hbuf
          cases hbuf
        · exact hemp
      simp only [Option.map_some]
      rw [if_neg (by omega), ← responseHead_stream hbuf]
      have hsize := @size_drop r (text.length + 4) (by omega)
      have hdrop : stream { r with buffer := r.buffer.drop (text.length + 4) } =
          rest' ++ (r.transport.map answerBytes).flatten := by
        rw [stream]
        rw [hrest]
      cases h with
      | final hcut' hlim' hhead hstat =>
        cases hcut'.symm.trans hcut
        have hstart := bodyStart_of_responseHead hhead
        simp only [hhead, copyBytes_length, hstart]
        rw [if_neg (by omega)]
        exact ⟨_, rfl, ⟨hr.pieces, fun h => by cases h⟩, hdrop, ⟨rfl, rfl, rfl, rfl, rfl⟩,
          fun _ => hhand⟩
      | informational hcut' hlim' hhead hstat hcnt hheads =>
        cases hcut'.symm.trans hcut
        have hstart := bodyStart_of_responseHead hhead
        simp only [hhead, copyBytes_length, hstart]
        rw [if_pos hstat, if_neg (by omega)]
        rw [← hdrop] at hheads
        obtain ⟨response, hread, hresp, hrest, hhead', hdone⟩ :=
          ih hheads (hr.drop _) rfl (by omega)
        exact ⟨response, hread, hresp, hrest, hhead', fun hone h => hdone hone (.inr (hhand h))⟩

/-! ## Bodies -/

section Bodies

variable {response : ResponseStream} {head : ResponseHead} {headerBytes : ℕ} {body : Bytes}

/-- What the client takes for a body is the body that the head announces. -/
theorem body_of_foldBody (hr : response.reader.Steady) (hhead : response.HasHead head headerBytes)
    (h : foldBody response [] collect bodyLimit = .ok body) :
    (bodyLimit ≠ 0 ∧ bodyLimit ≤ 67108864) ∧ ∃ lines,
      Body bodyLimit head headerBytes response.reader.stream lines body ∧
      ∀ text ∈ lines, text.length ≤ 8192 := by
  rw [foldBody, foldBodyWithErrors] at h
  split at h
  · cases h
  refine ⟨by omega, ?_⟩
  unfold Body
  rw [hhead.status, hhead.contentLength, hhead.chunked, hhead.headerBytes] at h
  by_cases hforb : bodyForbidden head.status
  · simp only [if_pos hforb] at h ⊢
    split at h
    · cases h
    rename_i hend
    cases h
    exact ⟨[], ⟨(expectEnd_iff hr).mp hend, rfl, rfl⟩, fun _ hmem => by cases hmem⟩
  · simp only [if_neg hforb] at h ⊢
    cases hlen : head.contentLength with
    | some length =>
      simp only [hlen] at h ⊢
      split_ifs at h
      by_cases hroom : length ≤ response.reader.stream.length
      · obtain ⟨next, hcopy, hnext, hrest, -, -⟩ := @copyLoop_steady response.reader HttpError id
          length response.reader.size 0 [] hr le_rfl (by omega) (zero_le _)
        rw [copyPieces, ← reader, hcopy] at h
        simp only at h
        split at h
        · cases h
        rename_i hend
        cases h
        have hnil := (expectEnd_iff hnext).mp hend
        rw [hrest, Nat.sub_zero, drop_eq_nil_iff] at hnil
        refine ⟨[], ⟨by omega, rfl, ?_⟩, fun _ hmem => by cases hmem⟩
        rw [nil_append, Nat.sub_zero, take_of_length_le hnil]
      · obtain ⟨error, hcopy⟩ := @copyLoop_short response.reader HttpError id length
          response.reader.size 0 [] hr (by omega)
        rw [copyPieces, ← reader, hcopy] at h
        cases h
    | none =>
      simp only [hlen] at h ⊢
      by_cases hchk : head.chunked = true
      · simp only [if_pos hchk] at h ⊢
        split at h
        · cases h
        rename_i last state hfold
        obtain ⟨hlast, lines, tail, hchunks, hout, hlines⟩ :=
          chunks_of_foldChunks id hr (zero_le _) hfold
        split at h
        · cases h
        rename_i htrl
        cases h
        subst hout
        exact ⟨lines, ⟨last.stream, hchunks, (foldTrailers_iff hlast le_rfl).mp htrl⟩, hlines⟩
      · simp only [if_neg hchk] at h ⊢
        have hrest := (foldRest_iff id hr le_rfl (zero_le _) (fun h => by cases h)).mp h
        refine ⟨[], ⟨by omega, rfl, ?_⟩, fun _ hmem => by cases hmem⟩
        rw [hrest.2, nil_append]

theorem foldBody_of_body {lines : List Bytes} (hr : response.reader.Steady)
    (hhead : response.HasHead head headerBytes) (hlims : bodyLimit ≠ 0 ∧ bodyLimit ≤ 67108864)
    (hlength : ∀ length, head.contentLength = some length → length ≤ bodyLimit)
    (hlines : ∀ text ∈ lines, Taken response.reader text)
    (h : Body bodyLimit head headerBytes response.reader.stream lines body) :
    foldBody response [] collect bodyLimit = .ok body := by
  rw [foldBody, foldBodyWithErrors]
  rw [if_neg (by omega), hhead.status, hhead.contentLength, hhead.chunked, hhead.headerBytes]
  unfold Body at h
  by_cases hforb : bodyForbidden head.status
  · rw [if_pos hforb] at h ⊢
    obtain ⟨hemp, -, rfl⟩ := h
    rw [← reader, (expectEnd_iff hr).mpr hemp]
  rw [if_neg hforb] at h ⊢
  cases hsome : head.contentLength with
  | some length =>
    simp only [hsome] at h ⊢
    obtain ⟨hlen, -, rfl⟩ := h
    have hle := hlength length hsome
    obtain ⟨next, hcopy, hnext, hrest, -, -⟩ := @copyLoop_steady response.reader HttpError id
      length response.reader.size 0 [] hr le_rfl (by omega) (zero_le _)
    have hend : expectEnd next = .ok () := by
      rw [expectEnd_iff hnext, hrest, drop_eq_nil_iff]
      omega
    rw [if_neg (by omega), copyPieces, ← reader, hcopy]
    simp only [hend]
    rw [nil_append, take_of_length_le (by omega)]
  | none =>
    simp only [hsome] at h ⊢
    by_cases hchk : head.chunked = true
    · rw [if_pos hchk] at h ⊢
      obtain ⟨trailers, hchunks, htrl⟩ := h
      obtain ⟨last, hfold, hlast, hrest⟩ := @foldChunks_of_chunks response.reader HttpError id
        bodyLimit response.reader.size 0 _ body trailers [] lines hchunks hr rfl le_rfl
        (zero_le _) hlines
      rw [← reader, hfold]
      simp only
      rw [← hrest] at htrl
      rw [(foldTrailers_iff hlast le_rfl).mpr htrl]
      rfl
    · rw [if_neg hchk] at h ⊢
      obtain ⟨hlen, -, rfl⟩ := h
      exact (foldRest_iff id hr le_rfl (zero_le _) (fun h => by cases h)).mpr ⟨by omega, rfl⟩

end Bodies

/-! ## Responses -/

section Responses

variable {transport : Transport} {response : Response}

theorem openResponse_ok (transport : Transport) (hlims : bodyLimit ≠ 0 ∧ bodyLimit ≤ 67108864) :
    openResponse (.ok transport) 60000 bodyLimit = readHead transport bodyLimit := by
  rw [openResponse, if_neg (by omega)]

theorem wellFormed_of_streamResponse (hr : Steady ⟨transport, [], false⟩)
    (h : streamResponse transport bodyLimit = .ok response) :
    (bodyLimit ≠ 0 ∧ bodyLimit ≤ 67108864) ∧ ∃ lines,
      WellFormed (transport.map answerBytes).flatten bodyLimit response lines ∧
      ∀ text ∈ lines, text.length ≤ 8192 := by
  rw [streamResponse] at h
  split at h
  · cases h
  rename_i opened hopen
  rw [openResponse] at hopen
  split at hopen
  · cases hopen
  obtain ⟨hstdy, head, hhead, hheads⟩ := heads_of_readHeadLoop hr hopen
  split at h
  · cases h
  rename_i body hbody
  cases h
  obtain ⟨hlims, lines, hb, hlines⟩ := body_of_foldBody hstdy hhead hbody
  exact ⟨hlims, lines, ⟨head, _, _, hheads, hb, hhead.status, hhead.headers⟩, hlines⟩

/-- A well-formed response with short chunk-size lines is taken, however it is cut; where it comes
in one piece, lines of 8192 bytes are taken too. -/
theorem streamResponse_of_wellFormed {lines : List Bytes} (hr : Steady ⟨transport, [], false⟩)
    (hlims : bodyLimit ≠ 0 ∧ bodyLimit ≤ 67108864)
    (h : WellFormed (transport.map answerBytes).flatten bodyLimit response lines)
    (hlines : ∀ text ∈ lines, text.length < 8192 ∨ text.length = 8192 ∧ transport.length ≤ 1) :
    streamResponse transport bodyLimit = .ok response := by
  obtain ⟨head, headerBytes, rest, hheads, hbody, hstat, hhdrs⟩ := h
  obtain ⟨opened, hread, hstdy, hrest, hhead, hwhole⟩ := readHeadLoop_of_heads hheads hr rfl le_rfl
  rw [← hrest] at hbody
  have htaken : ∀ text ∈ lines, Taken opened.reader text := fun text hmem =>
    (hlines text hmem).imp_right fun hlong => ⟨hlong.1, hwhole hlong.2 (.inl rfl)⟩
  have hfold := foldBody_of_body hstdy hhead hlims (fun _ => hheads.contentLength_le) htaken hbody
  rw [streamResponse, openResponse_ok transport hlims, readHead, hread]
  simp only
  rw [hfold]
  obtain ⟨status, headers, body⟩ := response
  simp only at hstat hhdrs ⊢
  rw [hstat, hhdrs, hhead.status, hhead.headers]

end Responses

end Panackelty.Http
