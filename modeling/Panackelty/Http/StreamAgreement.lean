import Panackelty.Http.StreamContract

/-!
# When streaming and one-shot reading agree

A transport that gives one byte at a time refuses every chunk-size line of 8192 bytes: when its
carriage return has come, the buffer holds 8193 bytes and no line end.  So the two readers agree on
a response for all cuts exactly when it has no such line and the body limit suits both. -/

namespace Panackelty.Http

open Library Reader List

variable {data rest : Bytes} {bodyLimit : ℕ}

/-! ## One byte at a time -/

/-- The transport that gives one byte at a time. -/
def bytewise (data : Bytes) : Transport := data.map fun b => .ok [b]

theorem flatten_bytewise (data : Bytes) : ((bytewise data).map answerBytes).flatten = data := by
  induction data with
  | nil => rfl
  | cons b data ih =>
    show [b] ++ ((bytewise data).map answerBytes).flatten = b :: data
    rw [ih]
    rfl

theorem steady_bytewise (data buf : Bytes) : Steady ⟨bytewise data, buf, false⟩ := by
  refine ⟨fun answer hmem => ?_, fun h => by cases h⟩
  obtain ⟨b, -, rfl⟩ := mem_map.mp hmem
  exact ⟨[b], rfl, by simp⟩

theorem stream_bytewise (data buf : Bytes) : stream ⟨bytewise data, buf, false⟩ = buf ++ data := by
  rw [stream, flatten_bytewise]

theorem length_lt_size (data buf : Bytes) :
    2 * data.length + 1 < size ⟨bytewise data, buf, false⟩ := by
  have hsum : ((bytewise data).map answerSize).sum = 2 * data.length := by
    induction data with
    | nil => rfl
    | cons b data ih =>
      show 2 + ((bytewise data).map answerSize).sum = 2 * (data.length + 1)
      omega
  simp only [size, hsum, Bool.false_eq_true, ↓reduceIte]
  omega

/-- The byte that completes a separator is the last one read. -/
theorem rest_of_cut_snoc {sep buf text : Bytes} {b : UInt8} (hsep : sep ≠ [])
    (hnone : cut sep buf = none) (hcut : cut sep (buf ++ [b]) = some (text, rest)) : rest = [] := by
  have hlt := length_lt_of_cut_append hsep hnone hcut
  have hlen := length_of_cut hcut
  rw [length_append, length_singleton] at hlen
  exact length_eq_zero_iff.mp (by omega)

theorem lineLoop_bytewise {buf text : Bytes} {fuel : ℕ} (hnone : cut crlf buf = none)
    (hcut : cut crlf (buf ++ data) = some (text, rest)) (hlim : text.length < 8192)
    (hfuel : data.length < fuel) :
    lineLoop fuel ⟨bytewise data, buf, false⟩ = .ok ⟨⟨bytewise rest, [], false⟩, text⟩ := by
  induction data generalizing buf fuel with
  | nil =>
    rw [append_nil, hnone] at hcut
    cases hcut
  | cons b data ih =>
    obtain ⟨fuel, rfl⟩ : ∃ n, fuel = n + 1 := Nat.exists_eq_succ_of_ne_zero (by omega)
    have hlt := length_lt_of_cut_append (by simp) hnone hcut
    simp only [length_cons, length_nil] at hlt hfuel
    have hsplit : buf ++ b :: data = buf ++ [b] ++ data := by
      rw [append_assoc]
      rfl
    rw [hsplit] at hcut
    rw [lineLoop, findCrlf_buffer, hnone]
    simp only [Option.map_none]
    rw [if_neg (by omega), if_neg (by simp)]
    show lineLoop fuel ⟨bytewise data, buf ++ [b], false⟩ = _
    rcases hnext : cut crlf (buf ++ [b]) with _ | ⟨text', rest'⟩
    · exact ih hnext hcut (by omega)
    obtain rfl := rest_of_cut_snoc (by simp) hnone hnext
    cases (cut_append hnext data).symm.trans hcut
    obtain ⟨fuel, rfl⟩ : ∃ n, fuel = n + 1 := Nat.exists_eq_succ_of_ne_zero (by omega)
    have hdrop := drop_zero_cut hnext
    simp only [length_cons, length_nil] at hdrop
    rw [lineLoop, findCrlf_buffer, hnext]
    simp only [Option.map_some]
    rw [if_neg (by omega), copyBytes_length, copyBytes_zero_cut hnext, hdrop, nil_append]

theorem lineLoop_bytewise_long {buf text : Bytes} {fuel : ℕ} (hnone : cut crlf buf = none)
    (hcut : cut crlf (buf ++ data) = some (text, rest)) (hlong : text.length = 8192) :
    ∃ error, lineLoop fuel ⟨bytewise data, buf, false⟩ = .error error := by
  induction data generalizing buf fuel with
  | nil =>
    rw [append_nil, hnone] at hcut
    cases hcut
  | cons b data ih =>
    rcases fuel with _ | fuel
    · exact ⟨_, rfl⟩
    have hsplit : buf ++ b :: data = buf ++ [b] ++ data := by
      rw [append_assoc]
      rfl
    rw [hsplit] at hcut
    rw [lineLoop, findCrlf_buffer, hnone]
    by_cases hfull : buf.length > 8192
    · rw [if_pos hfull]
      exact ⟨_, rfl⟩
    rw [if_neg hfull, if_neg (by simp)]
    rcases hnext : cut crlf (buf ++ [b]) with _ | parts
    · exact ih hnext hcut
    -- the buf was full one byte before
    have hlen := length_of_cut hnext
    cases (cut_append hnext data).symm.trans hcut
    simp only [length_append, length_cons, length_nil] at hlen
    omega

theorem copyLoop_bytewise {E : Type} (mapError : HttpError → E) {count copied fuel : ℕ}
    {state : Bytes} (hcopied : copied ≤ count) (hroom : count - copied ≤ data.length)
    (hfuel : 2 * data.length < fuel) :
    copyLoop collect mapError count fuel ⟨bytewise data, [], false⟩ copied state =
      .ok ⟨⟨bytewise (data.drop (count - copied)), [], false⟩, count,
        state ++ data.take (count - copied)⟩ := by
  induction data generalizing copied fuel state with
  | nil =>
    rw [length_nil] at hroom hfuel
    obtain rfl : copied = count := by omega
    obtain ⟨fuel, rfl⟩ : ∃ n, fuel = n + 1 := Nat.exists_eq_succ_of_ne_zero (by omega)
    rw [copyLoop, if_neg (lt_irrefl _), Nat.sub_self, drop_zero, take_zero, append_nil]
  | cons b data ih =>
    rw [length_cons] at hroom hfuel
    obtain ⟨fuel, rfl⟩ : ∃ n, fuel = n + 2 := Nat.exists_eq_add_of_le' (by omega)
    rw [copyLoop]
    by_cases hdone : copied < count
    · obtain ⟨left, hleft⟩ : ∃ n, count - copied = n + 1 := Nat.exists_eq_succ_of_ne_zero (by omega)
      have hamount : (if [b].length < count - copied then [b].length else count - copied) = 1 := by
        rw [length_singleton]
        split <;> omega
      rw [if_pos hdone]
      show copyLoop collect mapError count (fuel + 1) ⟨bytewise data, [b], false⟩ copied state = _
      rw [copyLoop, if_pos hdone, if_neg (by simp)]
      simp only [hamount]
      show copyLoop collect mapError count fuel ⟨bytewise data, [], false⟩ (copied + 1)
        (state ++ [b]) = _
      rw [ih (by omega) (by omega) (by omega), hleft,
        show count - (copied + 1) = left by omega, drop_succ_cons, take_succ_cons, append_assoc]
      rfl
    · obtain rfl : copied = count := by omega
      rw [if_neg hdone, Nat.sub_self, drop_zero, take_zero, append_nil]

theorem foldChunks_bytewise {E : Type} (mapError : HttpError → E) {bodyLimit total fuel : ℕ}
    {data body rest state : Bytes} {lines : List Bytes}
    (h : Chunks bodyLimit total data lines body rest)
    (hlines : ∀ text ∈ lines, text.length ≤ 8192) (hlong : ∃ text ∈ lines, text.length = 8192) :
    ∃ error, foldChunks collect mapError bodyLimit fuel ⟨bytewise data, [], false⟩ total state =
      .error error := by
  induction h generalizing fuel state with
  | @last total data text rest hcut hsize =>
    rcases fuel with _ | fuel
    · exact ⟨_, rfl⟩
    obtain ⟨text', hmem, hlength⟩ := hlong
    rw [mem_singleton.mp hmem] at hlength
    obtain ⟨error, hline⟩ := lineLoop_bytewise_long (cut_nil crlf) hcut hlength
    rw [foldChunks, line, hline]
    exact ⟨_, rfl⟩
  | @chunk total size data text tail body rest lines hcut hsize hpos hlim hcrlf hrest ih =>
    rcases fuel with _ | fuel
    · exact ⟨_, rfl⟩
    rw [foldChunks, line]
    by_cases hfull : text.length = 8192
    · obtain ⟨error, hline⟩ := lineLoop_bytewise_long (cut_nil crlf) hcut hfull
      rw [hline]
      exact ⟨_, rfl⟩
    have hle := hlines text mem_cons_self
    have hsize' := length_lt_size data []
    rw [lineLoop_bytewise (cut_nil crlf) hcut (by omega) (by omega)]
    have hroom : size + 2 ≤ tail.length := by
      have hlen := hcrlf.length_le
      rw [length_drop] at hlen
      simp only [length_cons, length_nil] at hlen
      omega
    have hcopySize := length_lt_size tail []
    have hemp : cut crlf ([] ++ tail.drop size) = some ([], tail.drop (size + 2)) := by
      rw [nil_append, cut_here (by simp) hcrlf, drop_drop]
      rfl
    have hendSize := length_lt_size (tail.drop size) []
    simp only [(parseChunkSize_remaining hsize).2 (bodyLimit - total) (by omega), hpos, ↓reduceIte]
    rw [copyPieces, copyLoop_bytewise mapError (Nat.zero_le _) (by omega) (by omega), Nat.sub_zero]
    simp only
    rw [line, lineLoop_bytewise (cut_nil crlf) hemp (by simp) (by omega)]
    refine ih (fun text hmem => hlines text (mem_cons_of_mem _ hmem)) ?_
    obtain ⟨text', hmem, hlength⟩ := hlong
    rcases mem_cons.mp hmem with rfl | hmem
    · exact absurd hlength hfull
    · exact ⟨text', hmem, hlength⟩

theorem readHeadLoop_bytewise {bodyLimit fuel hdrs infos : ℕ} {data buf : Bytes}
    {eof : Bool} {resp : ResponseStream}
    (hlast : ∀ text rest, cut headEnd buf = some (text, rest) → rest = [])
    (heof : eof = true → cut headEnd buf = none)
    (h : readHeadLoop bodyLimit fuel ⟨bytewise data, buf, eof⟩ hdrs infos = .ok resp) :
    ∃ left, resp.reader = ⟨bytewise left, [], false⟩ := by
  induction fuel generalizing data buf eof hdrs infos with
  | zero => cases h
  | succ fuel ih =>
    rw [readHeadLoop, findHeaderEndFrom_buffer] at h
    cases hcut : cut headEnd buf with
    | none =>
      simp only [hcut, Option.map_none] at h
      split at h
      · cases h
      cases eof with
      | true => cases h
      | false =>
        cases data with
        | nil => exact @ih _ _ [] buf true hlast (fun _ => hcut) h
        | cons b data =>
          exact @ih _ _ data (buf ++ [b]) false
            (fun text rest hnext => rest_of_cut_snoc (by simp) hcut hnext) (fun h => by cases h) h
    | some parts =>
      obtain ⟨text, rest⟩ := parts
      obtain rfl := hlast text rest hcut
      cases eof with
      | true =>
        rw [heof rfl] at hcut
        cases hcut
      | false =>
        have hdrop := drop_zero_cut hcut
        simp only [length_cons, length_nil] at hdrop
        simp only [hcut, Option.map_some] at h
        split at h
        · cases h
        rcases hhead : responseHead buf 0 text.length bodyLimit with error | head
        · rw [hhead] at h; cases h
        simp only [hhead, copyBytes_length, bodyStart_of_responseHead hhead, hdrop] at h
        split at h
        · split at h
          · cases h
          · exact @ih _ _ data [] false (fun _ _ hnil => (by rw [cut_nil] at hnil; cases hnil))
              (fun h => by cases h) h
        · cases h
          exact ⟨data, rfl⟩

/-- A response with a chunk-size line of 8192 bytes is refused. -/
theorem streamResponse_bytewise {resp : Response} {lines : List Bytes}
    (hlims : bodyLimit ≠ 0 ∧ bodyLimit ≤ 67108864) (h : WellFormed data bodyLimit resp lines)
    (hlines : ∀ text ∈ lines, text.length ≤ 8192) (hlong : ∃ text ∈ lines, text.length = 8192) :
    ∃ error, streamResponse (bytewise data) bodyLimit = .error error := by
  obtain ⟨head, hdr, rest, hheads, hbody, -, -⟩ := h
  obtain ⟨opened, hread, -, hrest, hhead, -⟩ := readHeadLoop_of_heads hheads
    (steady_bytewise data []) (stream_bytewise data []) le_rfl
  obtain ⟨left, hreader⟩ := @readHeadLoop_bytewise bodyLimit _ 0 0 data [] false opened
    (fun _ _ hnil => (by rw [cut_nil] at hnil; cases hnil)) (fun h => by cases h) hread
  have hleft : left = rest := by
    rw [← hrest, hreader, stream_bytewise]
    rfl
  subst hleft
  -- only a chunked body has chunk-size lines
  have hchunks : bodyForbidden head.status = false ∧ head.contentLength = none ∧
      head.chunked = true ∧ ∃ trailers, Chunks bodyLimit 0 left lines resp.body trailers := by
    obtain ⟨text, hmem, -⟩ := hlong
    unfold Body at hbody
    split at hbody
    · rw [hbody.2.1] at hmem
      cases hmem
    rename_i hforb
    split at hbody
    · rw [hbody.2.1] at hmem
      cases hmem
    rename_i hlen
    split at hbody
    · rename_i hchk
      obtain ⟨trailers, hchunks, -⟩ := hbody
      exact ⟨by simpa using hforb, hlen, hchk, trailers, hchunks⟩
    · rw [hbody.2.1] at hmem
      cases hmem
  obtain ⟨hforb, hlen, hchk, trailers, hchunks⟩ := hchunks
  obtain ⟨error, hfold⟩ := @foldChunks_bytewise HttpError id bodyLimit 0 opened.reader.size left
    resp.body trailers [] lines hchunks hlines hlong
  refine ⟨error, ?_⟩
  rw [← hreader] at hfold
  rw [streamResponse, openResponse_ok _ hlims, readHead, hread]
  simp only
  rw [foldBody, foldBodyWithErrors]
  simp only [hhead.status, hhead.contentLength, hhead.chunked, hforb, hlen, hchk,
    Bool.false_eq_true, ↓reduceIte]
  rw [if_neg (by omega), ← ResponseStream.reader, hfold]

/-! ## Agreement -/

/-- The reads give the data, in nonempty pieces. -/
structure Cuts (data : Bytes) (reads : List Bytes) : Prop where
  nonempty : ∀ piece ∈ reads, piece ≠ []
  whole : reads.flatten = data

theorem Cuts.steady {reads : List Bytes} (h : Cuts data reads) :
    Steady ⟨reads.map .ok, [], false⟩ := by
  refine ⟨fun answer hmem => ?_, fun h => by cases h⟩
  obtain ⟨piece, hpiece, rfl⟩ := mem_map.mp hmem
  exact ⟨piece, rfl, h.nonempty piece hpiece⟩

theorem Cuts.flatten {reads : List Bytes} (h : Cuts data reads) :
    ((reads.map Except.ok).map answerBytes).flatten = data := by
  rw [map_map, ← h.whole]
  congr 1
  exact map_id' reads

variable {stream : Bytes}

theorem Heads.ne_nil {hdrs infos hdr : ℕ} {head : ResponseHead}
    (h : Heads bodyLimit hdrs infos stream head hdr rest) : stream ≠ [] := by
  rintro rfl
  cases h with
  | final hcut _ _ _ | informational hcut _ _ _ _ _ => cases hcut

/-- For every cut of a response, the streaming client and the one-shot parser take the same
response, exactly when no chunk-size line has 8192 bytes and the body limit is not one that only the
streaming client allows. -/
theorem streaming_agrees_iff (data : Bytes) (bodyLimit : ℕ)
    (hlines : ∀ response lines, WellFormed data bodyLimit response lines →
      ∀ text ∈ lines, text.length ≤ 8192) : (∀ reads, Cuts data reads → ∀ response,
      streamResponse (reads.map .ok) bodyLimit = .ok response ↔
        parseResponse data httpHeaderLimit bodyLimit = .ok response) ↔
    (0 < bodyLimit → bodyLimit ≤ 67108864 → ∀ response lines,
      WellFormed data bodyLimit response lines →
        bodyLimit ≤ 1048576 ∧ ∀ text ∈ lines, text.length ≠ 8192) := by
  constructor
  · intro hagree hpos hlim response lines hwell
    have hlims : bodyLimit ≠ 0 ∧ bodyLimit ≤ 67108864 := ⟨by omega, hlim⟩
    have hne : data ≠ [] := by
      obtain ⟨head, headerBytes, rest, hheads, -⟩ := hwell
      exact hheads.ne_nil
    have hone : Cuts data [data] := ⟨by simpa using hne, by simp⟩
    have hstr : streamResponse ([data].map .ok) bodyLimit = .ok response := by
      refine @streamResponse_of_wellFormed bodyLimit _ response lines hone.steady hlims ?_ ?_
      · rw [hone.flatten]
        exact hwell
      intro text hmem
      rcases Nat.lt_or_eq_of_le (hlines response lines hwell text hmem) with hlt | heq
      · exact .inl hlt
      · exact .inr ⟨heq, le_rfl⟩
    have hprs := (hagree [data] hone response).mp hstr
    refine ⟨((parseResponse_eq_ok_iff response).mp hprs).1.2, fun text hmem hlong => ?_⟩
    have hbytes : Cuts data (data.map fun b => [b]) := by
      refine ⟨fun piece hpiece => ?_, ?_⟩
      · obtain ⟨b, -, rfl⟩ := mem_map.mp hpiece
        simp
      · rw [← flatMap_def, flatMap_singleton']
    have htaken := (hagree _ hbytes response).mpr hprs
    obtain ⟨error, herr⟩ := streamResponse_bytewise hlims hwell (hlines response lines hwell)
      ⟨text, hmem, hlong⟩
    rw [map_map] at htaken
    have hsame := htaken.symm.trans herr
    cases hsame
  · intro hcond reads hcuts response
    rw [parseResponse_eq_ok_iff]
    constructor
    · intro hstr
      obtain ⟨hlims, lines, hwell, -⟩ := wellFormed_of_streamResponse hcuts.steady hstr
      rw [hcuts.flatten] at hwell
      have hshort := (hcond (by omega) hlims.2 response lines hwell).1
      exact ⟨⟨hlims.1, hshort⟩, lines, hwell⟩
    · rintro ⟨hlims, lines, hwell⟩
      have hnot := (hcond (by omega) (by omega) response lines hwell).2
      refine @streamResponse_of_wellFormed bodyLimit _ response lines hcuts.steady (by omega) ?_ ?_
      · rw [hcuts.flatten]
        exact hwell
      intro text hmem
      have hle := hlines response lines hwell text hmem
      have hneq := hnot text hmem
      exact .inl (by omega)

/-! ## The two ends of the condition -/

theorem Chunks.length_le {total : ℕ} {body : Bytes} {lines : List Bytes}
    (h : Chunks bodyLimit total stream lines body rest) :
    ∀ text ∈ lines, text.length ≤ stream.length := by
  induction h with
  | last hcut _ =>
    intro text hmem
    rw [mem_singleton.mp hmem]
    have hlen := length_of_cut hcut
    omega
  | chunk hcut _ _ _ _ _ ih =>
    intro text hmem
    have hlen := length_of_cut hcut
    rcases mem_cons.mp hmem with rfl | hmem
    · omega
    have hle := ih text hmem
    rw [length_drop] at hle
    omega

theorem Heads.length_le {hdrs infos hdr : ℕ}
    {head : ResponseHead} (h : Heads bodyLimit hdrs infos stream head hdr rest) :
    rest.length ≤ stream.length := by
  induction h with
  | final hcut _ _ _ =>
    have hlen := length_of_cut hcut
    omega
  | informational hcut _ _ _ _ _ ih =>
    have hlen := length_of_cut hcut
    omega

theorem WellFormed.length_le {resp : Response} {lines : List Bytes}
    (h : WellFormed data bodyLimit resp lines) : ∀ text ∈ lines, text.length ≤ data.length := by
  obtain ⟨head, hdr, rest, hheads, hbody, -⟩ := h
  intro text hmem
  have hrest := hheads.length_le
  unfold Body at hbody
  split at hbody
  · rw [hbody.2.1] at hmem
    cases hmem
  split at hbody
  · rw [hbody.2.1] at hmem
    cases hmem
  split at hbody
  · obtain ⟨trailers, hchunks, -⟩ := hbody
    have hle := hchunks.length_le text hmem
    omega
  · rw [hbody.2.1] at hmem
    cases hmem

/-- A short chunked response, taken whatever the cuts. -/
theorem streaming_agrees_short :
    let data := Str.asciiBytes
      "HTTP/1.1 200 OK\r\nTransfer-Encoding: chunked\r\n\r\n2\r\nab\r\n0\r\n\r\n"
    ∀ reads, Cuts data reads → streamResponse (reads.map .ok) 10 =
      .ok ⟨200, [⟨Str.ascii "Transfer-Encoding", Str.ascii "chunked"⟩], Str.asciiBytes "ab"⟩ := by
  intro data reads hcuts
  have hlen : data.length = 59 := by decide +kernel
  have hagree := (streaming_agrees_iff data 10 fun response lines hwell text hmem => by
    have hle := hwell.length_le text hmem
    omega).mpr fun _ _ response lines hwell => by
      refine ⟨by decide, fun text hmem => ?_⟩
      have hle := hwell.length_le text hmem
      omega
  exact (hagree reads hcuts _).mpr (by decide +kernel)

/-- The head of a chunked response. -/
def chunkedHead : Bytes :=
  Str.asciiBytes "HTTP/1.1 200 OK\r\nTransfer-Encoding: chunked\r\n\r\n"

/-- A response whose only chunk-size line has this many zeros. -/
def zerosResponse (count : ℕ) : Bytes :=
  chunkedHead ++ (replicate count 48 ++ (crlf ++ crlf))

theorem cut_replicate (count : ℕ) {tail : Bytes} (h : cut crlf rest = some ([], tail)) :
    cut crlf (replicate count 48 ++ rest) = some (replicate count 48, tail) := by
  induction count with
  | zero => exact h
  | succ count ih =>
    rw [replicate_succ, cons_append, cut_skip, ih]
    · rfl
    · rintro ⟨t, ht⟩
      cases ht

theorem hexSize_replicate (count : ℕ) : hexSize (replicate count 48) = some 0 := by
  induction count with
  | zero => rfl
  | succ count ih => exact ih

theorem parseChunkSize_replicate (count bodyLimit : ℕ) (hcnt : 0 < count) :
    parseChunkSize (replicate count 48) 0
      (replicate count (48 : UInt8)).length bodyLimit =
      .ok 0 := by
  have hdig : (replicate count (48 : UInt8)).takeWhile (fun b => b != 59) =
      replicate count 48 := by rw [takeWhile_replicate, if_pos (by decide)]
  have hemp : (replicate count (48 : UInt8)).isEmpty = false := by simpa using hcnt.ne'
  rw [parseChunkSize, copyBytes_length, drop_zero]
  simp only [hdig, drop_length, hemp, hexSize_replicate]
  rfl

theorem wellFormed_zerosResponse {count : ℕ} (hcnt : 0 < count) :
    WellFormed (zerosResponse count) 10
      ⟨200, [⟨Str.ascii "Transfer-Encoding", Str.ascii "chunked"⟩], []⟩
      [replicate count 48] := by
  have hcut : cut headEnd chunkedHead = some (chunkedHead.take 43, []) := by decide +kernel
  have htext : (chunkedHead.take 43).length = 43 := by decide +kernel
  have hlen : chunkedHead.length = 47 := by decide +kernel
  have hhead : responseHead chunkedHead 0 43 10 =
      .ok ⟨200, [⟨Str.ascii "Transfer-Encoding", Str.ascii "chunked"⟩], 47, none, true⟩ := by
    decide +kernel
  have hbody : cut crlf (crlf ++ crlf : Bytes) = some ([], crlf) := by decide
  refine ⟨⟨200, [⟨Str.ascii "Transfer-Encoding", Str.ascii "chunked"⟩], 47, none, true⟩, _,
    replicate count 48 ++ (crlf ++ crlf),
    .final (cut_append hcut _) (by rw [htext]; decide) ?_ (le_refl 200), ?_, rfl, rfl⟩
  · rw [htext, zerosResponse, responseHead_append _ (by omega)]
    exact hhead
  · rw [Body, if_neg (by decide)]
    exact ⟨crlf, .last (cut_replicate count hbody) (parseChunkSize_replicate count 10 hcnt),
      by rw [Trailers]; decide +kernel⟩

/-- A response with a chunk-size line of 8192 bytes: accepted in one piece, refused byte by byte. -/
theorem streaming_refuses_long_line : ¬ ∀ reads, Cuts (zerosResponse 8192) reads → ∀ response,
      streamResponse (reads.map .ok) 10 = .ok response ↔
        parseResponse (zerosResponse 8192) httpHeaderLimit 10 = .ok response := by
  intro hagree
  have hwell := wellFormed_zerosResponse (show 0 < 8192 by decide)
  have hbytes : Cuts (zerosResponse 8192) ((zerosResponse 8192).map fun b => [b]) := by
    refine ⟨fun piece hpiece => ?_, ?_⟩
    · obtain ⟨b, -, rfl⟩ := mem_map.mp hpiece
      simp
    · rw [← flatMap_def, flatMap_singleton']
  have hlen : (replicate 8192 (48 : UInt8)).length = 8192 := length_replicate
  have hprs := (parseResponse_eq_ok_iff _).mpr ⟨⟨by decide, by decide⟩, _, hwell⟩
  have htaken := (hagree _ hbytes _).mpr hprs
  obtain ⟨error, herr⟩ := streamResponse_bytewise (by decide) hwell
    (fun text hmem => by rw [mem_singleton.mp hmem, hlen]) ⟨_, mem_singleton_self _, hlen⟩
  rw [map_map] at htaken
  cases htaken.symm.trans herr

end Panackelty.Http
