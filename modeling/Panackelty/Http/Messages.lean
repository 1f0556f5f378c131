import Panackelty.Http.Framing

/-!
# What a response is

The grammar of responses over the rest of the input, with no buffer and no cursor: heads (`Heads`),
chunks (`Chunks`), and the body that a head announces (`Body`).  `WellFormed` puts them together. 
The one-shot parser accepts exactly the well-formed responses, if the body limit is one of its own
(`parseResponse_eq_ok_iff`). -/

namespace Panackelty.Http

open Library List Nat
open Option (map_some)

/-- The heads at the front of the input: informational ones, then the final one, with the bytes of
all of them and what follows. -/
inductive Heads (bodyLimit : ℕ) : ℕ → ℕ → Bytes → ResponseHead → ℕ → Bytes → Prop
  | final {headers informationals : ℕ} {stream text rest : Bytes} {head : ResponseHead}
      (hcut : cut headEnd stream = some (text, rest))
      (hlimit : headers + text.length + 4 ≤ httpHeaderLimit)
      (hhead : responseHead stream 0 text.length bodyLimit = .ok head)
      (hstatus : 200 ≤ head.status) :
      Heads bodyLimit headers informationals stream head (headers + text.length + 4) rest
  | informational {headers informationals headerBytes : ℕ} {stream text tail rest : Bytes}
      {head last : ResponseHead} (hcut : cut headEnd stream = some (text, tail))
      (hlimit : headers + text.length + 4 ≤ httpHeaderLimit)
      (hhead : responseHead stream 0 text.length bodyLimit = .ok head)
      (hstatus : head.status < 200) (hcount : informationals + 1 ≤ 8)
      (hrest : Heads bodyLimit (headers + text.length + 4) (informationals + 1) tail last
        headerBytes rest) :
      Heads bodyLimit headers informationals stream last headerBytes rest

/-- Chunks at the front of the input, up to the line of the last one: the size lines, the body and
what follows. -/
inductive Chunks (bodyLimit : ℕ) : ℕ → Bytes → List Bytes → Bytes → Bytes → Prop
  | last {total : ℕ} {stream text rest : Bytes} (hcut : cut crlf stream = some (text, rest))
      (hsize : parseChunkSize text 0 text.length bodyLimit = .ok 0) :
      Chunks bodyLimit total stream [text] [] rest
  | chunk {total size : ℕ} {stream text tail body rest : Bytes} {lines : List Bytes}
      (hcut : cut crlf stream = some (text, tail))
      (hsize : parseChunkSize text 0 text.length bodyLimit = .ok size) (hpos : size ≠ 0)
      (hlimit : total + size ≤ bodyLimit) (hcrlf : crlf <+: tail.drop size)
      (hrest : Chunks bodyLimit (total + size) (tail.drop (size + 2)) lines body rest) :
      Chunks bodyLimit total stream (text :: lines) (tail.take size ++ body) rest

/-- Trailers that take up all of the input. -/
def Trailers (headerBytes : ℕ) (rest : Bytes) : Prop :=
  trailerLines rest headerBytes (rest.length + 1) 0 0 = .ok (some rest.length)

/-- The input is the body that the head announces; `lines` are its chunk-size lines. -/
def Body (bodyLimit : ℕ) (head : ResponseHead) (headerBytes : ℕ) (rest : Bytes)
    (lines : List Bytes) (body : Bytes) : Prop :=
  if bodyForbidden head.status then rest = [] ∧ lines = [] ∧ body = []
  else
    match head.contentLength with
    | some length => rest.length = length ∧ lines = [] ∧ body = rest
    | none =>
      if head.chunked then
        ∃ trailers, Chunks bodyLimit 0 rest lines body trailers ∧ Trailers headerBytes trailers
      else rest.length ≤ bodyLimit ∧ lines = [] ∧ body = rest

/-- The input is this response, with these chunk-size lines. -/
def WellFormed (data : Bytes) (bodyLimit : ℕ) (response : Response) (lines : List Bytes) : Prop :=
  ∃ head headerBytes rest, Heads bodyLimit 0 0 data head headerBytes rest ∧
    Body bodyLimit head headerBytes rest lines response.body ∧
    response.status = head.status ∧ response.headers = head.headers

/-! ## The searches on the rest of the input -/

theorem copyBytes_drop (data : Bytes) (cur start stop : ℕ) :
    copyBytes (data.drop cur) start stop = copyBytes data (cur + start) (cur + stop) := by
  rw [copyBytes, copyBytes, take_drop, drop_drop]

theorem findCrlf_drop (data : Bytes) (cur start limit : ℕ) :
    findCrlf data (cur + start) (cur + limit) =
      (findCrlf (data.drop cur) start limit).map (cur + ·) := by
  rw [findCrlf_eq_cut, findCrlf_eq_cut, copyBytes_drop, Option.map_map]
  congr 1
  funext p
  exact add_assoc cur start p.1.length

theorem findCrlf_rest (data : Bytes) (cur : ℕ) : findCrlf data cur data.length =
      (cut crlf (data.drop cur)).map fun p => cur + p.1.length := by
  rw [findCrlf_eq_cut, copyBytes_length]

theorem copyBytes_cut {data text rest : Bytes} {cur : ℕ}
    (h : cut crlf (data.drop cur) = some (text, rest)) :
    copyBytes data cur (cur + text.length) = text := by
  have heq := eq_of_cut h
  have hcopy := copyBytes_drop data cur 0 text.length
  rw [add_zero] at hcopy
  rw [← hcopy, heq, copyBytes, take_left, drop_zero]

theorem drop_cut {sep data text rest : Bytes} {cur : ℕ}
    (h : cut sep (data.drop cur) = some (text, rest)) :
    data.drop (cur + text.length + sep.length) = rest := by
  rw [add_assoc, ← drop_drop, eq_of_cut h, ← append_assoc, ← length_append, drop_left]

theorem parseHeader_drop (data : Bytes) (cur start stop : ℕ) :
    parseHeader data (cur + start) (cur + stop) = parseHeader (data.drop cur) start stop := by
  rw [parseHeader, parseHeader, copyBytes_drop]

theorem headerLines_drop {σ : Type} (field : σ → Header → Except HttpError σ) (data : Bytes)
    (off headerEnd fuel cur : ℕ) (fields : σ) :
    headerLines field data (off + headerEnd) fuel (off + cur) fields =
      headerLines field (data.drop off) headerEnd fuel cur fields := by
  induction fuel generalizing cur fields with
  | zero => rfl
  | succ fuel ih =>
    rw [headerLines, headerLines, add_assoc off headerEnd 2, findCrlf_drop]
    simp only [add_lt_add_iff_left]
    split
    · cases findCrlf (data.drop off) cur (headerEnd + 2) with
      | none => rfl
      | some stop => simp [parseHeader_drop, add_assoc, ih]
    · rfl

/-- A head in the middle of the input is a head of the rest of it. -/
theorem responseHead_drop (data : Bytes) (offset headerEnd bodyLimit : ℕ) :
    responseHead data offset (offset + headerEnd) bodyLimit =
      (responseHead (data.drop offset) 0 headerEnd bodyLimit).map fun head =>
        { head with bodyStart := offset + head.bodyStart } := by
  have hfind := findCrlf_drop data offset 0 (headerEnd + 2)
  rw [Nat.add_zero, ← Nat.add_assoc] at hfind
  rw [responseHead, responseHead, hfind]
  rcases findCrlf (data.drop offset) 0 (headerEnd + 2) with _ | stop
  · rfl
  have hstat : parseResponseStatus data offset (offset + stop) =
      parseResponseStatus (data.drop offset) 0 stop := by
    rw [parseResponseStatus, parseResponseStatus, copyBytes_drop, Nat.add_zero]
  simp only [map_some, hstat, Nat.add_assoc, headerLines_drop, Nat.add_sub_cancel_left,
    Nat.sub_zero]
  rcases parseResponseStatus (data.drop offset) 0 stop with error | status
  · rfl
  cases headerLines (responseField bodyLimit) (data.drop offset) headerEnd headerEnd (stop + 2)
      ⟨[], none, false, false⟩ with
  | error error => rfl
  | ok fields =>
    simp only
    split_ifs <;> rfl

theorem bodyStart_of_responseHead {data : Bytes} {headerEnd bodyLimit : ℕ} {head : ResponseHead}
    {off : ℕ} (h : responseHead data off headerEnd bodyLimit = .ok head) :
    head.bodyStart = headerEnd + 4 := by
  unfold responseHead at h
  split at h
  · cases h
  split at h
  · cases h
  split at h
  · cases h
  split_ifs at h
  cases h
  rfl

theorem trailerLines_drop (data : Bytes) (hdr off fuel cur trailer : ℕ) (hoff : off ≤ data.length) :
    trailerLines data hdr fuel (off + cur) trailer =
      (trailerLines (data.drop off) hdr fuel cur trailer).map (Option.map (off + ·)) := by
  induction fuel generalizing cur trailer with
  | zero => rfl
  | succ fuel ih =>
    have hfind := findCrlf_drop data off cur (data.drop off).length
    rw [length_drop, Nat.add_sub_cancel' hoff] at hfind
    rw [trailerLines, trailerLines, length_drop, hfind]
    rcases findCrlf (data.drop off) cur (data.length - off) with _ | stop
    · rfl
    simp only [map_some, parseHeader_drop, Nat.add_assoc, Nat.add_sub_add_left,
      Nat.add_left_cancel_iff, ih]
    split
    · rfl
    split
    · rfl
    cases parseHeader (data.drop off) cur stop with
    | error error => rfl
    | ok header =>
      simp only
      split <;> rfl

theorem trailerLines_fuel {rest : Bytes} {hdr fuel late cur : ℕ}
    (hcur : cur ≤ rest.length) (hfuel : rest.length < fuel + cur)
    (hlate : rest.length < late + cur) (trailerBytes : ℕ) :
    trailerLines rest hdr late cur trailerBytes = trailerLines rest hdr fuel cur trailerBytes := by
  have hone := trailerLines_append [] hdr hcur hfuel
    (show (rest ++ []).length < late + cur by rwa [append_nil]) trailerBytes
  have htwo := trailerLines_append [] hdr hcur hlate
    (show (rest ++ []).length < fuel + cur by rwa [append_nil]) trailerBytes
  rw [append_nil] at hone htwo
  rcases hone with hnone | hsame
  · rcases htwo with hnone' | hsame'
    · rw [hnone, hnone']
    · exact hsame'.symm
  · exact hsame

theorem parseTrailers_rest {data : Bytes} {start : ℕ} (hstart : start ≤ data.length) (eof : Bool)
    (hdr next : ℕ) : parseTrailers data start eof hdr = .ok (some next) ↔
      ∃ count, trailerLines (data.drop start) hdr ((data.drop start).length + 1) 0 0 =
        .ok (some count) ∧ next = start + count := by
  have hlines := trailerLines_drop data hdr start (data.length + 1) 0 0 hstart
  rw [add_zero start, @trailerLines_fuel (data.drop start) hdr ((data.drop start).length + 1)
    (data.length + 1) 0 (zero_le _) (by omega) (by rw [length_drop]; omega)] at hlines
  rw [parseTrailers, hlines]
  rcases trailerLines (data.drop start) hdr ((data.drop start).length + 1) 0 0 with error | found
  · simp [Except.map]
  cases found with
  | none => cases eof <;> simp [Except.map]
  | some count =>
    simp [Except.map, eq_comm]

/-! ## The one-shot parser -/

section OneShot

variable {data : Bytes} {bodyLimit : ℕ}

theorem heads_of_finalHead {fuel cur infos hdrs hdr : ℕ} {head : ResponseHead}
    (h : finalHead data httpHeaderLimit bodyLimit fuel cur infos hdrs = .ok (head, hdr)) :
    ∃ last, head = { last with bodyStart := head.bodyStart } ∧ head.bodyStart ≤ data.length ∧
      Heads bodyLimit hdrs infos (data.drop cur) last hdr (data.drop head.bodyStart) := by
  induction fuel generalizing cur infos hdrs with
  | zero => cases h
  | succ fuel ih =>
    rw [finalHead, findHeaderEndFrom_eq_cut] at h
    rcases hcut : cut headEnd (data.drop cur) with _ | ⟨text, rest⟩
    · rw [hcut] at h; cases h
    have hlen := length_drop_of_cut_headEnd hcut
    simp only [hcut, map_some, responseHead_drop] at h
    have hsec : hdrs + (cur + text.length + 4 - cur) = hdrs + text.length + 4 := by
      omega
    rw [hsec] at h
    split at h
    · cases h
    have hlim' : hdrs + text.length + 4 ≤ httpHeaderLimit := by omega
    rcases hhead : responseHead (data.drop cur) 0 text.length bodyLimit with error | first
    · rw [hhead] at h; cases h
    have hstart := bodyStart_of_responseHead hhead
    have hrest : data.drop (cur + first.bodyStart) = rest := by
      rw [hstart, ← add_assoc]
      exact drop_cut hcut
    simp only [hhead, Except.map] at h
    split at h
    · rename_i hstat
      split_ifs at h with hcnt
      obtain ⟨last, hlast, hle, hheads⟩ := ih h
      rw [hrest] at hheads
      exact ⟨last, hlast, hle, .informational hcut hlim' hhead hstat (by omega) hheads⟩
    · rename_i hstat
      cases h
      refine ⟨first, rfl, ?_, ?_⟩
      · show cur + first.bodyStart ≤ data.length
        omega
      rw [hrest]
      exact .final hcut hlim' hhead (by omega)

theorem finalHead_of_heads {stream rest : Bytes} {infos hdrs hdr : ℕ} {last : ResponseHead}
    (h : Heads bodyLimit hdrs infos stream last hdr rest) {fuel cur : ℕ}
    (hstr : data.drop cur = stream) (hfuel : data.length < fuel + cur) :
    ∃ start ≤ data.length, data.drop start = rest ∧
      finalHead data httpHeaderLimit bodyLimit fuel cur infos hdrs =
        .ok ({ last with bodyStart := start }, hdr) := by
  induction h generalizing fuel cur with
  | @final hdrs infos stream text rest head hcut hlim hhead hstat =>
    subst hstr
    have hlen := length_drop_of_cut_headEnd hcut
    obtain ⟨fuel, rfl⟩ : ∃ n, fuel = n + 1 := exists_eq_succ_of_ne_zero (by omega)
    have hstart := bodyStart_of_responseHead hhead
    refine ⟨cur + head.bodyStart, by omega, ?_, ?_⟩
    · rw [hstart, ← add_assoc]
      exact drop_cut hcut
    have hsec : hdrs + (cur + text.length + 4 - cur) = hdrs + text.length + 4 := by
      omega
    rw [finalHead, findHeaderEndFrom_eq_cut, hcut]
    simp only [map_some, responseHead_drop, hhead, Except.map, hsec]
    rw [if_neg (by omega), if_neg (by omega)]
  | @informational hdrs infos hdr stream text tail rest head last hcut hlim
      hhead hstat hcnt hrest ih =>
    subst hstr
    have hlen := length_drop_of_cut_headEnd hcut
    obtain ⟨fuel, rfl⟩ : ∃ n, fuel = n + 1 := exists_eq_succ_of_ne_zero (by omega)
    have hstart := bodyStart_of_responseHead hhead
    have htail : data.drop (cur + head.bodyStart) = tail := by
      rw [hstart, ← add_assoc]
      exact drop_cut hcut
    obtain ⟨start, hle, hdrop, hfinal⟩ := @ih fuel (cur + head.bodyStart) htail (by omega)
    refine ⟨start, hle, hdrop, ?_⟩
    have hsec : hdrs + (cur + text.length + 4 - cur) = hdrs + text.length + 4 := by
      omega
    rw [finalHead, findHeaderEndFrom_eq_cut, hcut]
    simp only [map_some, responseHead_drop, hhead, Except.map, hsec]
    rw [if_neg (by omega), if_pos hstat, if_neg (by omega), hfinal]

theorem chunks_of_chunkLoop {eof : Bool} {hdr fuel cur : ℕ} {body : Bytes}
    {chunked : ChunkedBody} (hcur : cur ≤ data.length)
    (h : chunkLoop data eof bodyLimit hdr fuel cur body = .ok (some chunked)) :
    ∃ start ≤ data.length, ∃ lines tail count,
      Chunks bodyLimit body.length (data.drop cur) lines tail (data.drop start) ∧
      trailerLines (data.drop start) hdr ((data.drop start).length + 1) 0 0 = .ok (some count) ∧
      chunked = ⟨body ++ tail, start + count⟩ := by
  induction fuel generalizing cur body with
  | zero => cases h
  | succ fuel ih =>
    rw [chunkLoop, findCrlf_rest] at h
    rcases hcut : cut crlf (data.drop cur) with _ | ⟨text, rest⟩
    · rw [hcut] at h; cases h
    have hlen := length_drop_of_cut_crlf hcut
    have hrest : data.drop (cur + text.length + 2) = rest := drop_cut hcut
    have hprs : ∀ remaining, parseChunkSize data cur (cur + text.length) remaining =
        parseChunkSize text 0 text.length remaining := by
      intro remaining
      rw [parseChunkSize, parseChunkSize, copyBytes_cut hcut, copyBytes_length, drop_zero]
    simp only [hcut, map_some, hprs] at h
    rcases hsize : parseChunkSize text 0 text.length bodyLimit with error | size
    · rw [hsize] at h; cases h
    simp only [hsize] at h
    by_cases hzero : size = 0
    · subst hzero
      rcases htrl : parseTrailers data (cur + text.length + 2) eof hdr with error | found
      · rw [htrl] at h; cases h
      rcases found with _ | next
      · rw [htrl] at h; cases h
      rw [htrl] at h
      cases h
      obtain ⟨count, hlines, hnext⟩ := (parseTrailers_rest (by omega) eof hdr next).mp htrl
      refine ⟨cur + text.length + 2, by omega, [text], [], count, ?_, hlines, ?_⟩
      · rw [hrest]
        exact .last hcut hsize
      · rw [append_nil, hnext]
    · rw [if_neg hzero] at h
      split at h
      · cases h
      split at h
      · cases h
      split at h
      · cases h
      rename_i hcrlf
      obtain ⟨start, hstart, lines, tail, count, hchunks, hlines, heq⟩ := ih (by omega) h
      have hend : crlf <+: rest.drop size := by
        rw [Bool.not_eq_true', Bool.not_eq_false, isCrlf_iff, ← drop_drop, hrest] at hcrlf
        exact hcrlf
      have hpiece : copyBytes data (cur + text.length + 2)
          (cur + text.length + 2 + size) = rest.take size := by
        have hcopy := copyBytes_drop data (cur + text.length + 2) 0 size
        rw [← hcopy, hrest, copyBytes, drop_zero]
      have hsizeLe : size ≤ rest.length := by omega
      rw [hpiece] at hchunks heq
      have hdrop : data.drop (cur + text.length + 2 + size + 2) = rest.drop (size + 2) := by
        rw [add_assoc, ← drop_drop, hrest]
      rw [hdrop, length_append, length_take, min_eq_left hsizeLe] at hchunks
      refine ⟨start, hstart, text :: lines, rest.take size ++ tail, count,
        .chunk hcut hsize hzero (by omega) hend hchunks, hlines, ?_⟩
      rw [heq, append_assoc]

theorem chunkLoop_of_chunks {eof : Bool} {hdr total count : ℕ} {stream tail rest : Bytes}
    {lines : List Bytes} (h : Chunks bodyLimit total stream lines tail rest)
    (htrl : trailerLines rest hdr (rest.length + 1) 0 0 = .ok (some count))
    {fuel cur : ℕ} {body : Bytes} (hstr : data.drop cur = stream)
    (hbody : body.length = total) (hfuel : data.length < fuel + cur) :
    ∃ start ≤ data.length, data.drop start = rest ∧ chunkLoop data eof bodyLimit hdr fuel cur body =
        .ok (some ⟨body ++ tail, start + count⟩) := by
  induction h generalizing fuel cur body with
  | @last total stream text rest hcut hsize =>
    subst hstr
    have hlen := length_drop_of_cut_crlf hcut
    obtain ⟨fuel, rfl⟩ : ∃ n, fuel = n + 1 := exists_eq_succ_of_ne_zero (by omega)
    have hrest : data.drop (cur + text.length + 2) = rest := drop_cut hcut
    refine ⟨cur + text.length + 2, by omega, hrest, ?_⟩
    rw [← hrest] at htrl
    have hprs := (parseTrailers_rest (show cur + text.length + 2 ≤ data.length by omega) eof
      hdr _).mpr ⟨count, htrl, rfl⟩
    rw [chunkLoop, findCrlf_rest, hcut]
    simp only [map_some]
    rw [parseChunkSize, copyBytes_cut hcut]
    rw [parseChunkSize, copyBytes_length, drop_zero] at hsize
    rw [hsize]
    simp [↓reduceIte, hprs]
  | @chunk total size stream text piece tail rest lines hcut hsize hpos hlim hcrlf hrest ih =>
    subst hstr
    have hlen := length_drop_of_cut_crlf hcut
    obtain ⟨fuel, rfl⟩ : ∃ n, fuel = n + 1 := exists_eq_succ_of_ne_zero (by omega)
    have htail : data.drop (cur + text.length + 2) = piece := drop_cut hcut
    have hroom : size + 2 ≤ piece.length := by
      have hle := hcrlf.length_le
      rw [length_drop] at hle
      simp only [length_cons, length_nil] at hle
      omega
    have hlong : piece.length = data.length - (cur + text.length + 2) := by
      rw [← htail, length_drop]
    have hdrop : data.drop (cur + text.length + 2 + size + 2) = piece.drop (size + 2) := by
      rw [add_assoc, ← drop_drop, htail]
    have hpiece : copyBytes data (cur + text.length + 2) (cur + text.length + 2 + size) =
        piece.take size := by
      have hcopy := copyBytes_drop data (cur + text.length + 2) 0 size
      rw [← hcopy, htail, copyBytes, drop_zero]
    obtain ⟨start, hstart, hend, hloop⟩ := @ih htrl fuel (cur + text.length + 2 + size + 2)
      (body ++ piece.take size) hdrop
      (by rw [length_append, length_take, min_eq_left (by omega), hbody]) (by omega)
    refine ⟨start, hstart, hend, ?_⟩
    have hisCrlf : isCrlf data (cur + text.length + 2 + size) := by
      rw [isCrlf_iff, ← drop_drop, htail]
      exact hcrlf
    rw [chunkLoop, findCrlf_rest, hcut]
    simp only [map_some]
    rw [parseChunkSize, copyBytes_cut hcut]
    rw [parseChunkSize, copyBytes_length, drop_zero] at hsize
    rw [hsize]
    simp only
    rw [if_neg hpos, if_neg (by omega), if_neg (by omega), hisCrlf]
    simp only [Bool.not_true, Bool.false_eq_true, ↓reduceIte]
    rw [hpiece, hloop, append_assoc]

theorem decodeChunked_eq_ok_iff {hdr start : ℕ} (hstart : start ≤ data.length) (body : Bytes) :
    (∃ next, decodeChunked data start true bodyLimit hdr = .ok (some ⟨body, next⟩)) ↔
      ∃ lines trailers, Chunks bodyLimit 0 (data.drop start) lines body trailers ∧
        Trailers hdr trailers := by
  constructor
  · rintro ⟨next, h⟩
    rw [decodeChunked] at h
    rcases hloop : chunkLoop data true bodyLimit hdr (data.length + 1) start [] with error | found
    · rw [hloop] at h; cases h
    rcases found with _ | chunked
    · rw [hloop] at h; cases h
    simp only [hloop] at h
    split_ifs at h with hextra
    cases h
    obtain ⟨stop, hstop, lines, tail, count, hchunks, hlines, heq⟩ :=
      chunks_of_chunkLoop hstart hloop
    obtain ⟨hbody, hnext⟩ := ChunkedBody.mk.inj heq
    subst hbody
    have hle := trailerLines_le hlines
    have hextra' : data.length ≤ next := Nat.le_of_not_lt hextra
    have hcnt : count = (data.drop stop).length := by
      rw [length_drop] at hle ⊢
      omega
    rw [hcnt] at hlines
    exact ⟨lines, data.drop stop, hchunks, hlines⟩
  · rintro ⟨lines, trailers, hchunks, htrl⟩
    obtain ⟨stop, hstop, hdrop, hloop⟩ := @chunkLoop_of_chunks data bodyLimit true hdr 0
      trailers.length _ body trailers lines hchunks htrl (data.length + 1) start [] rfl rfl
      (by omega)
    have hend : stop + trailers.length = data.length := by
      rw [← hdrop, length_drop]
      omega
    refine ⟨stop + trailers.length, ?_⟩
    rw [decodeChunked, hloop]
    simp only [nil_append]
    rw [if_neg (by omega)]

/-- The one-shot parser accepts the well-formed responses, for a body limit it allows. -/
theorem parseResponse_eq_ok_iff (resp : Response) :
    parseResponse data httpHeaderLimit bodyLimit = .ok resp ↔
      (bodyLimit ≠ 0 ∧ bodyLimit ≤ 1048576) ∧ ∃ lines, WellFormed data bodyLimit resp lines := by
  by_cases hlims : bodyLimit = 0 ∨ bodyLimit > 1048576
  · rw [parseResponse, if_pos (by tauto)]
    constructor
    · intro h
      cases h
    · rintro ⟨⟨hne, hle⟩, -⟩
      omega
  · have hallowed : ¬ (httpHeaderLimit = 0 ∨ httpHeaderLimit > httpHeaderLimit ∨ bodyLimit = 0 ∨
        bodyLimit > 1048576) := by
      rintro (h | h | h)
      · exact absurd h (by decide)
      · exact absurd h (lt_irrefl _)
      · exact hlims h
    rw [parseResponse, if_neg hallowed]
    constructor
    · intro h
      refine ⟨by omega, ?_⟩
      rcases hfinal :
          finalHead data httpHeaderLimit bodyLimit (data.length + 1) 0 0 0 with error | found
      · rw [hfinal] at h; cases h
      obtain ⟨head, hdr⟩ := found
      obtain ⟨last, hlast, hle, hheads⟩ := heads_of_finalHead hfinal
      simp only [hfinal] at h
      have hrem : data.length - head.bodyStart = (data.drop head.bodyStart).length := by
        rw [length_drop]
      have hbody : ∀ lines body, Body bodyLimit head hdr (data.drop head.bodyStart) lines
          body → Body bodyLimit last hdr (data.drop head.bodyStart) lines body := by
        intro lines body hb
        rw [hlast] at hb
        exact hb
      suffices hsuffices : ∃ lines,
          Body bodyLimit head hdr (data.drop head.bodyStart) lines resp.body ∧
            resp.status = head.status ∧ resp.headers = head.headers by
        obtain ⟨lines, hb, hstat, hhdrs⟩ := hsuffices
        refine ⟨lines, last, hdr, data.drop head.bodyStart, hheads, hbody _ _ hb, ?_, ?_⟩
        · rw [hstat, hlast]
        · rw [hhdrs, hlast]
      rw [hrem, copyBytes_length] at h
      unfold Body
      by_cases hforb : bodyForbidden head.status
      · simp only [if_pos hforb] at h ⊢
        split_ifs at h with hemp
        cases h
        exact ⟨[], ⟨length_eq_zero_iff.mp (not_not.mp hemp), rfl, rfl⟩, rfl, rfl⟩
      · simp only [if_neg hforb] at h ⊢
        cases hlength : head.contentLength with
        | some length =>
          simp only [hlength] at h ⊢
          split_ifs at h
          · cases h
            exact ⟨[], ⟨by omega, rfl, rfl⟩, rfl, rfl⟩
        | none =>
          simp only [hlength] at h ⊢
          by_cases hchk : head.chunked = true
          · simp only [if_pos hchk] at h ⊢
            rcases hdec : decodeChunked data head.bodyStart true bodyLimit hdr with error | found
            · rw [hdec] at h; cases h
            rcases found with _ | chunked
            · rw [hdec] at h; cases h
            rw [hdec] at h
            cases h
            obtain ⟨lines, trailers, hchunks, htrl⟩ :=
              (decodeChunked_eq_ok_iff hle chunked.body).mp ⟨chunked.next, hdec⟩
            exact ⟨lines, ⟨trailers, hchunks, htrl⟩, rfl, rfl⟩
          · simp only [if_neg hchk] at h ⊢
            split_ifs at h
            · cases h
              exact ⟨[], ⟨by omega, rfl, rfl⟩, rfl, rfl⟩
    · rintro ⟨-, lines, head, hdr, rest, hheads, hbody, hstat, hhdrs⟩
      obtain ⟨start, hle, hdrop, hfinal⟩ := @finalHead_of_heads data bodyLimit data rest 0 0
        hdr head hheads (data.length + 1) 0 rfl (by omega)
      rw [hfinal]
      simp only
      have hrem : data.length - start = rest.length := by rw [← hdrop, length_drop]
      rw [hrem, copyBytes_length, hdrop]
      obtain ⟨status, hdrs, body⟩ := resp
      subst hstat hhdrs
      unfold Body at hbody
      by_cases hforb : bodyForbidden head.status
      · rw [if_pos hforb] at hbody ⊢
        obtain ⟨rfl, -, rfl⟩ := hbody
        rw [if_neg (by simp)]
      rw [if_neg hforb] at hbody ⊢
      cases hlength : head.contentLength with
      | some length =>
        simp only [hlength] at hbody ⊢
        obtain ⟨hlen, -, rfl⟩ := hbody
        rw [if_neg (by omega), if_neg (by omega)]
      | none =>
        simp only [hlength] at hbody ⊢
        by_cases hchk : head.chunked = true
        · rw [if_pos hchk] at hbody ⊢
          obtain ⟨trailers, hchunks, htrl⟩ := hbody
          rw [← hdrop] at hchunks
          obtain ⟨next, hdec⟩ :=
            (decodeChunked_eq_ok_iff hle body).mpr ⟨lines, trailers, hchunks, htrl⟩
          rw [hdec]
        · rw [if_neg hchk] at hbody ⊢
          obtain ⟨hlen, -, rfl⟩ := hbody
          rw [if_neg (by omega)]

end OneShot

end Panackelty.Http
