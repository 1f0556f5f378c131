import Panackelty.Http.Messages
import Panackelty.Http.Routed
import Panackelty.Http.StreamSteps

/-!
# Chunked bodies of routed requests

`readChunks` reads a chunked body from the whole rest of the stream, with no buffer, no cursor and
no reads; it refuses size lines longer than its limit.  The loop of `chunked_body` tests its own
limit only where no line end is at hand, so what it does with a long line depends on the reads.
With reads of at most `most` bytes it refuses every line that is longer than `16382 + most`, it
takes every line of up to 16383 bytes, and the lines between are refused or taken
(`chunkedLoop_reading`).  Both occur: single bytes refuse them, and for a stream that
ends with the body `lenient_of_rest_nil` of `RoutedReads` gives reads that take all of them. -/

namespace Panackelty.Http

open Library List ChunkState
open Reader (answerSize)

/-! ## Reading the whole stream -/

/-- The trailers: a status, or what follows them. -/
def readTrailers (headerBytes trailerBytes : ℕ) (stream : Bytes) : Except ℕ Bytes :=
  match _hcut : cut crlf stream with
  | none => .error (if headerBytes + trailerBytes + stream.length > 16384 then 431 else 400)
  | some (line, rest) =>
    if headerBytes + (trailerBytes + line.length + 2) > 16384 then .error 431
    else if line = [] then .ok rest
    else
      match parseHeader line 0 line.length with
      | .error problem => .error (errorStatus problem)
      | .ok header =>
        if framingField header then .error 400
        else readTrailers headerBytes (trailerBytes + line.length + 2) rest
termination_by stream.length
decreasing_by
  have hlen := length_of_cut_crlf _hcut
  omega

/-- The chunks and the trailers, with size lines of at most `limit` bytes: a status, or the body and
what follows. -/
def readChunks (limit headerBytes : ℕ) (body stream : Bytes) : Except ℕ (Bytes × Bytes) :=
  match _hcut : cut crlf stream with
  | none => .error (if stream.length > 16384 then 431 else 400)
  | some (line, rest) =>
    if line.length > limit then .error 431
    else
      match parseChunkSize line 0 line.length (1048576 - body.length) with
      | .error problem => .error (errorStatus problem)
      | .ok size =>
        if size = 0 then (readTrailers headerBytes 0 rest).map fun rest => (body, rest)
        else if crlf.isPrefixOf (rest.drop size) then
          readChunks limit headerBytes (body ++ rest.take size) (rest.drop (size + 2))
        else .error 400
termination_by stream.length
decreasing_by
  have hlen := length_of_cut_crlf _hcut
  rw [length_drop]
  omega

/-- The rest of a chunk of which `count` bytes are left, and what follows it. -/
def readData (limit headerBytes count : ℕ) (body stream : Bytes) : Except ℕ (Bytes × Bytes) :=
  if crlf.isPrefixOf (stream.drop count) then
    readChunks limit headerBytes (body ++ stream.take count) (stream.drop (count + 2))
  else .error 400

theorem readTrailers_none {headerBytes trailer : ℕ} {stream : Bytes}
    (h : cut crlf stream = none) :
    readTrailers headerBytes trailer stream =
      .error (if headerBytes + trailer + stream.length > 16384 then 431 else 400) := by
  rw [readTrailers]
  split
  · rfl
  rename_i hcut
  cases h.symm.trans hcut

theorem readTrailers_some {headerBytes trailer : ℕ} {stream line rest : Bytes}
    (h : cut crlf stream = some (line, rest)) :
    readTrailers headerBytes trailer stream =
      if headerBytes + (trailer + line.length + 2) > 16384 then .error 431
      else if line = [] then .ok rest
      else
        match parseHeader line 0 line.length with
        | .error prob => .error (errorStatus prob)
        | .ok hdr =>
          if framingField hdr then .error 400
          else readTrailers headerBytes (trailer + line.length + 2) rest := by
  rw [readTrailers]
  split
  · rename_i hcut
    cases h.symm.trans hcut
  · rename_i hcut
    cases h.symm.trans hcut
    rfl

variable {limit : ℕ}

theorem readChunks_none {headerBytes : ℕ} {body stream : Bytes} (h : cut crlf stream = none) :
    readChunks limit headerBytes body stream =
      .error (if stream.length > 16384 then 431 else 400) := by
  rw [readChunks]
  split
  · rfl
  rename_i hcut
  cases h.symm.trans hcut

theorem readChunks_some {headerBytes : ℕ} {body stream line rest : Bytes}
    (h : cut crlf stream = some (line, rest)) :
    readChunks limit headerBytes body stream =
      if line.length > limit then .error 431
      else
        match parseChunkSize line 0 line.length (1048576 - body.length) with
        | .error prob => .error (errorStatus prob)
        | .ok size =>
          if size = 0 then (readTrailers headerBytes 0 rest).map fun rest => (body, rest)
          else readData limit headerBytes size body rest := by
  rw [readChunks]
  split
  · rename_i hcut
    cases h.symm.trans hcut
  · rename_i hcut
    cases h.symm.trans hcut
    rfl

/-- A size line of 16384 bytes or more is reached. -/
inductive LongLine : Bytes → Bytes → Prop
  | here {body stream line rest : Bytes} (hcut : cut crlf stream = some (line, rest))
      (hlong : 16384 ≤ line.length) : LongLine body stream
  | later {body stream line rest : Bytes} {size : ℕ} (hcut : cut crlf stream = some (line, rest))
      (hshort : line.length < 16384)
      (hsize : parseChunkSize line 0 line.length (1048576 - body.length) = .ok size)
      (hpos : size ≠ 0) (hcrlf : crlf <+: rest.drop size)
      (hrest : LongLine (body ++ rest.take size) (rest.drop (size + 2))) : LongLine body stream

theorem LongLine.refused {body stream : Bytes} (h : LongLine body stream) (headerBytes : ℕ) :
    readChunks 16383 headerBytes body stream = .error 431 := by
  induction h with
  | here hcut hlong => rw [readChunks_some hcut, if_pos (by omega)]
  | later hcut hshort hsize hpos hcrlf hrest ih =>
    rw [readChunks_some hcut, if_neg (by omega), hsize]
    simp only [hpos, ↓reduceIte]
    rw [readData, if_pos (List.isPrefixOf_iff_prefix.mpr hcrlf), ih]

theorem readChunks_of_not_long {headerBytes : ℕ} (hlim : 16383 ≤ limit)
    {body stream : Bytes} (h : ¬ LongLine body stream) :
    readChunks 16383 headerBytes body stream = readChunks limit headerBytes body stream := by
  generalize hn : stream.length = n
  induction n using Nat.strongRecOn generalizing body stream with
  | _ n ih =>
    rcases hcut : cut crlf stream with _ | ⟨line, rest⟩
    · rw [readChunks_none hcut, readChunks_none hcut]
    have hshort : line.length < 16384 := by
      by_contra hlong
      exact h (.here hcut (by omega))
    have hlen := length_of_cut_crlf hcut
    rw [readChunks_some hcut, readChunks_some hcut, if_neg (by omega), if_neg (by omega)]
    rcases hsize : parseChunkSize line 0 line.length (1048576 - body.length) with prob | size
    · rfl
    simp only
    by_cases hpos : size = 0
    · rw [if_pos hpos, if_pos hpos]
    rw [if_neg hpos, if_neg hpos, readData, readData]
    by_cases hcrlf : crlf.isPrefixOf (rest.drop size) = true
    · rw [if_pos hcrlf, if_pos hcrlf]
      refine ih (rest.drop (size + 2)).length ?_ ?_ rfl
      · rw [length_drop]
        omega
      · intro hlong
        exact h (.later hcut hshort hsize hpos (List.isPrefixOf_iff_prefix.mp hcrlf) hlong)
    · rw [if_neg hcrlf, if_neg hcrlf]

/-- The strict reading refuses with 431, or agrees with every more lenient one. -/
theorem readChunks_strict (hlim : 16383 ≤ limit) (headerBytes : ℕ) (body stream : Bytes) :
    readChunks 16383 headerBytes body stream = .error 431 ∨
      readChunks 16383 headerBytes body stream = readChunks limit headerBytes body stream := by
  by_cases h : LongLine body stream
  · exact .inl (h.refused headerBytes)
  · exact .inr (readChunks_of_not_long hlim h)

/-! ## The reading of a state -/

/-- What the stream gives from a state of the loop on. -/
def readFrom (limit headerBytes : ℕ) (state : ChunkState) (stream : Bytes) :
    Except ℕ (Bytes × Bytes) :=
  match state.phase with
  | .size => readChunks limit headerBytes state.body stream
  | .data => readData limit headerBytes state.remaining state.body stream
  | .ending => readData limit headerBytes 0 state.body stream
  | .trailers =>
    (readTrailers headerBytes state.trailerBytes stream).map fun rest => (state.body, rest)

namespace ChunkState

variable {state next : ChunkState} {most : ℕ}

/-- The bytes of the buffer that are not used yet. -/
def rest (state : ChunkState) : Bytes := state.buffer.drop state.cursor

/-- The bytes that the loop has not used yet. -/
def stream (state : ChunkState) : Bytes :=
  state.rest ++ (state.reads.map answerBytes).flatten

theorem length_rest (state : ChunkState) : state.rest.length = state.available :=
  length_drop

/-- The state after a read. -/
def fed (state : ChunkState) (bytes : Bytes) (reads : Transport) : ChunkState :=
  { state with
    reads
    buffer := copyBytes state.buffer state.cursor state.buffer.length ++ bytes
    cursor := 0
    continued := true }

theorem rest_fed (state : ChunkState) (bytes : Bytes) (reads : Transport) :
    (state.fed bytes reads).rest = state.rest ++ bytes := by
  rw [rest, fed, copyBytes_length, drop_zero, rest]

/-- The facts about a state that the rounds keep: the reads are good ones of at most `most` bytes,
and the body has room for the data to come. -/
structure Fit (most : ℕ) (state : ChunkState) : Prop where
  reads : ∀ answer ∈ state.reads, ∃ bytes, answer = .ok bytes ∧ bytes ≠ [] ∧ bytes.length ≤ most
  room : state.available ≤ 16384 + most
  body : state.body.length ≤ 1048576
  data : state.phase = .data →
    state.remaining ≠ 0 ∧ state.body.length + state.remaining ≤ 1048576
  trailers : state.phase ≠ .trailers → state.trailerBytes = 0

end ChunkState

open ChunkState (length_rest rest_fed)

/-- What a round may come to, given the readings of its state. -/
def RoundSpec (most headerBytes : ℕ) (state : ChunkState) : ChunkRound → Prop
  | .failed status =>
    (status = 431 ∧ readFrom 16383 headerBytes state state.stream = .error 431) ∨
      readFrom (16382 + most) headerBytes state state.stream = .error status ∨
      ∃ body rest, readFrom (16382 + most) headerBytes state state.stream = .ok (body, rest) ∧
        rest ≠ []
  | .done body =>
    ∃ rest, readFrom (16382 + most) headerBytes state state.stream = .ok (body, rest)
  | .next next =>
    (next.Fit most ∧ next.size < state.size) ∧ next.reads = state.reads ∧
      readFrom (16382 + most) headerBytes next next.stream =
        readFrom (16382 + most) headerBytes state state.stream ∧
      (readFrom 16383 headerBytes state state.stream = .error 431 ∨
        readFrom 16383 headerBytes next next.stream =
          readFrom 16383 headerBytes state state.stream)
  | .needMore =>
    state.available ≤ 16384 ∧
      ∀ limit, readFrom limit headerBytes state state.rest = .error 400

variable {state : ChunkState} {most headerBytes : ℕ}

/-- A round that takes some bytes of the buffer and goes on. -/
theorem RoundSpec.taken {next : ChunkState} {count : ℕ} (hfit : state.Fit most) (hcnt : 0 < count)
    (hle : count ≤ state.available) (hbuf : next.buffer = state.buffer)
    (hreads : next.reads = state.reads) (hcur : next.cursor = state.cursor + count)
    (hbody : next.body.length ≤ 1048576)
    (hdata : next.phase = .data → next.remaining ≠ 0 ∧ next.body.length + next.remaining ≤ 1048576)
    (htrl : next.phase ≠ .trailers → next.trailerBytes = 0)
    (hread : readFrom (16382 + most) headerBytes next (state.stream.drop count) =
      readFrom (16382 + most) headerBytes state state.stream)
    (hshort : readFrom 16383 headerBytes state state.stream = .error 431 ∨
      readFrom 16383 headerBytes next (state.stream.drop count) =
        readFrom 16383 headerBytes state state.stream) :
    RoundSpec most headerBytes state (.next next) := by
  have hrest : next.rest = state.rest.drop count := by
    rw [rest, rest, hbuf, hcur, drop_drop]
  have hstr : next.stream = state.stream.drop count := by
    rw [stream, stream, hrest, hreads,
      drop_append_of_le_length (by rw [length_rest]; exact hle)]
  have havl : next.available + count = state.available := by
    rw [← length_rest, hrest, length_drop, length_rest]
    omega
  have hroom := hfit.room
  rw [← hstr] at hread hshort
  refine ⟨⟨⟨hreads ▸ hfit.reads, by omega, hbody, hdata, htrl⟩, ?_⟩, hreads, hread, hshort⟩
  rw [size, size, hreads]
  omega

theorem sizeRound_of_cut {line rest : Bytes} (hbody : state.body.length ≤ 1048576)
    (hcut : cut crlf state.rest = some (line, rest)) :
    sizeRound state =
      match parseChunkSize line 0 line.length (1048576 - state.body.length) with
      | .error prob => .failed (errorStatus prob)
      | .ok size =>
        .next { state with
          remaining := size
          cursor := state.cursor + line.length + 2
          phase := if size = 0 then .trailers else .data } := by
  rw [sizeRound, findCrlf_rest, ← ChunkState.rest, hcut]
  simp only [Option.map_some]
  have hprs : parseChunkSize state.buffer state.cursor (state.cursor + line.length)
      (1048576 - state.body.length) =
        parseChunkSize line 0 line.length (1048576 - state.body.length) := by
    rw [parseChunkSize, parseChunkSize, copyBytes_cut hcut, copyBytes_length, drop_zero]
  rw [if_pos hbody]
  exact hprs ▸ rfl

theorem sizeRound_spec (hfit : state.Fit most) (hphase : state.phase = .size) :
    RoundSpec most headerBytes state (sizeRound state) := by
  have hread (limit : ℕ) (stream : Bytes) : readFrom limit headerBytes state stream =
      readChunks limit headerBytes state.body stream := by rw [readFrom, hphase]
  cases hcut : cut crlf state.rest with
  | none =>
    rw [sizeRound, findCrlf_rest, ← rest, hcut]
    simp only [Option.map_none]
    split
    · rename_i hlong
      refine .inl ⟨rfl, ?_⟩
      rw [← length_rest] at hlong
      rw [hread]
      cases hall : cut crlf state.stream with
      | none =>
        rw [readChunks_none hall, if_pos]
        rw [stream, length_append]
        omega
      | some parts =>
        have hlt := length_lt_of_cut_append (by simp) hcut hall
        simp only [length_cons, length_nil] at hlt
        rw [readChunks_some hall, if_pos (by omega)]
    · rename_i hshort
      refine ⟨by omega, fun limit => ?_⟩
      rw [hread, readChunks_none hcut, length_rest, if_neg hshort]
  | some parts =>
    obtain ⟨line, rest⟩ := parts
    have hall : cut crlf state.stream =
        some (line, rest ++ (state.reads.map answerBytes).flatten) :=
      cut_append hcut _
    have hlen := length_of_cut_crlf hcut
    rw [length_rest] at hlen
    have hroom := hfit.room
    rw [sizeRound_of_cut hfit.body hcut]
    rcases hsize : parseChunkSize line 0 line.length (1048576 - state.body.length) with prob | size
    · refine .inr (.inl ?_)
      rw [hread, readChunks_some hall, if_neg (by omega), hsize]
    have hle := (parseChunkSize_remaining hsize).1
    have hbody := hfit.body
    have hdrop : state.stream.drop (line.length + 2) = _ := drop_zero_cut hall
    have hzero : state.trailerBytes = 0 := hfit.trailers (by rw [hphase]; decide)
    generalize hnext : { state with
      remaining := size
      cursor := state.cursor + line.length + 2
      phase := if size = 0 then Phase.trailers else Phase.data } = next
    have hnextRead {limit : ℕ} (hlim : ¬ line.length > limit) :
        readFrom limit headerBytes next (state.stream.drop (line.length + 2)) =
          readFrom limit headerBytes state state.stream := by
      rw [hread, readChunks_some hall, if_neg hlim, hsize, hdrop, ← hnext, readFrom]
      by_cases hsize : size = 0
      · simp only [hsize, ↓reduceIte, hzero]
      · simp only [hsize, ↓reduceIte]
    subst hnext
    refine .taken hfit (Nat.succ_pos _) (by omega) rfl rfl rfl hbody
      (fun hdata => ⟨fun hsize => ?_, ?_⟩)
      (fun _ => hzero) (hnextRead (by omega)) ?_
    · simp only [if_pos hsize] at hdata
      cases hdata
    · show state.body.length + size ≤ 1048576
      omega
    · by_cases hlong : line.length > 16383
      · left
        rw [hread, readChunks_some hall, if_pos hlong]
      · exact .inr (hnextRead hlong)

theorem readData_add (limit headerBytes count left : ℕ) (body stream : Bytes) :
    readData limit headerBytes (count + left) body stream =
      readData limit headerBytes left (body ++ stream.take count) (stream.drop count) := by
  rw [readData, readData, drop_drop, drop_drop, take_add, append_assoc, Nat.add_assoc]

theorem dataRound_spec (hfit : state.Fit most) (hphase : state.phase = .data) :
    RoundSpec most headerBytes state (dataRound state) := by
  obtain ⟨hpos, hroom⟩ := hfit.data hphase
  have hread (limit : ℕ) (stream : Bytes) : readFrom limit headerBytes state stream =
      readData limit headerBytes state.remaining state.body stream := by rw [readFrom, hphase]
  rw [dataRound]
  generalize hcnt : (if state.available < state.remaining then state.available
    else state.remaining) = count
  have hle : count ≤ state.available ∧ count ≤ state.remaining := by
    split at hcnt <;> omega
  by_cases hzero : count = 0
  · rw [if_pos hzero]
    have hemp : state.available = 0 := by
      split at hcnt <;> omega
    refine ⟨by omega, fun limit => ?_⟩
    have hrest : state.rest = [] := by rw [← length_eq_zero_iff, length_rest, hemp]
    rw [hread, hrest, readData, drop_nil]
    rfl
  · rw [if_neg hzero]
    have hcopy : copyBytes state.buffer state.cursor (state.cursor + count) =
        state.rest.take count := by rw [copyBytes, rest, take_drop]
    have hlen : (state.rest.take count).length = count := by
      rw [length_take, length_rest]
      omega
    rw [hcopy, bodyAppend, if_neg (by omega)]
    generalize hnext : { state with
      body := state.body ++ state.rest.take count
      cursor := state.cursor + count
      remaining := state.remaining - count
      phase := if state.remaining - count = 0 then Phase.ending else Phase.data } = next
    have hnextRead (limit : ℕ) : readFrom limit headerBytes next (state.stream.drop count) =
        readFrom limit headerBytes state state.stream := by
      have hsplit : state.remaining = count + (state.remaining - count) := by omega
      rw [hread, hsplit, readData_add, ← hnext, readFrom, stream,
        take_append_of_le_length (by rw [length_rest]; exact hle.1)]
      by_cases hdone : state.remaining - count = 0
      · simp only [hdone, ↓reduceIte]
      · simp only [hdone, ↓reduceIte]
    subst hnext
    refine .taken hfit (by omega) hle.1 rfl rfl rfl ?_ (fun hdata => ⟨fun hdone => ?_, ?_⟩)
      (fun _ => hfit.trailers (by rw [hphase]; decide)) (hnextRead _) (.inr (hnextRead _))
    · rw [length_append, hlen]
      omega
    · simp only [if_pos hdone] at hdata
      cases hdata
    · rw [length_append, hlen]
      show state.body.length + count + (state.remaining - count) ≤ 1048576
      omega

theorem readData_short {body stream : Bytes} (h : stream.length < 2) :
    readData limit headerBytes 0 body stream = .error 400 := by
  rw [readData, drop_zero, if_neg]
  intro hcrlf
  have hlen := (List.isPrefixOf_iff_prefix.mp hcrlf).length_le
  simp only [length_cons, length_nil] at hlen
  omega

theorem endingRound_spec (hfit : state.Fit most) (hphase : state.phase = .ending) :
    RoundSpec most headerBytes state (endingRound state) := by
  have hread (limit : ℕ) (stream : Bytes) : readFrom limit headerBytes state stream =
      readData limit headerBytes 0 state.body stream := by rw [readFrom, hphase]
  rw [endingRound]
  by_cases hshort : state.available < 2
  · rw [if_pos hshort]
    refine ⟨by omega, fun limit => ?_⟩
    rw [hread, readData_short (by rw [length_rest]; exact hshort)]
  have hiff : isCrlf state.buffer state.cursor = crlf.isPrefixOf state.stream := by
    rw [Bool.eq_iff_iff, isCrlf_iff, isPrefixOf_iff_prefix, ← rest, stream]
    refine ⟨fun h => h.trans (prefix_append _ _), fun h => ?_⟩
    refine prefix_of_prefix_length_le h (prefix_append _ _) ?_
    rw [length_rest]
    simp only [length_cons, length_nil]
    omega
  rw [if_neg hshort, hiff]
  rcases hcrlf : crlf.isPrefixOf state.stream with _ | _
  · refine .inr (.inl ?_)
    rw [hread, readData, drop_zero, hcrlf]
    rfl
  have hnextRead (limit : ℕ) : readFrom limit headerBytes
      { state with cursor := state.cursor + 2, phase := .size } (state.stream.drop 2) =
        readFrom limit headerBytes state state.stream := by
    rw [hread, readData, drop_zero, if_pos hcrlf, take_zero, append_nil, readFrom]
  refine .taken hfit Nat.two_pos (by omega) rfl rfl rfl hfit.body (fun h => ?_)
    (fun _ => hfit.trailers (by rw [hphase]; decide)) (hnextRead _) (.inr (hnextRead _))
  cases h

theorem trailerRound_spec (hfit : state.Fit most) (hphase : state.phase = .trailers) :
    RoundSpec most headerBytes state (trailerRound headerBytes state) := by
  have hread (limit : ℕ) (stream : Bytes) : readFrom limit headerBytes state stream =
      (readTrailers headerBytes state.trailerBytes stream).map fun rest => (state.body, rest) := by
    rw [readFrom, hphase]
  rw [trailerRound, findCrlf_rest, ← rest]
  cases hcut : cut crlf state.rest with
  | none =>
    simp only [Option.map_none]
    split
    · rename_i hlong
      rw [← length_rest] at hlong
      refine .inr (.inl ?_)
      rw [hread]
      rcases hall : cut crlf state.stream with _ | ⟨line, rest⟩
      · rw [readTrailers_none hall, if_pos]
        · rfl
        · rw [stream, length_append]
          omega
      have hlt := length_lt_of_cut_append (by simp) hcut hall
      simp only [length_cons, length_nil] at hlt
      rw [readTrailers_some hall, if_pos (by omega)]
      rfl
    · rename_i hshort
      refine ⟨by omega, fun limit => ?_⟩
      rw [hread, readTrailers_none hcut, length_rest, if_neg hshort]
      rfl
  | some parts =>
    obtain ⟨line, rest⟩ := parts
    have hall : cut crlf state.stream =
        some (line, rest ++ (state.reads.map answerBytes).flatten) :=
      cut_append hcut _
    have hlen := length_of_cut_crlf hcut
    rw [length_rest] at hlen
    have hlength : state.cursor + line.length - state.cursor = line.length := by omega
    have hprs : parseHeader state.buffer state.cursor (state.cursor + line.length) =
        parseHeader line 0 line.length := by
      rw [parseHeader, parseHeader, copyBytes_cut hcut, copyBytes_length, drop_zero]
    simp only [Option.map_some, hlength, hprs]
    by_cases hlong : headerBytes + (state.trailerBytes + line.length + 2) > 16384
    · rw [if_pos hlong]
      refine .inr (.inl ?_)
      rw [hread, readTrailers_some hall, if_pos hlong]
      rfl
    rw [if_neg hlong]
    by_cases hemp : line = []
    · subst hemp
      have hdone : readFrom (16382 + most) headerBytes state state.stream =
          .ok (state.body, rest ++ (state.reads.map answerBytes).flatten) := by
        rw [hread, readTrailers_some hall, if_neg hlong, if_pos rfl]
        rfl
      rw [length_nil, Nat.add_zero, if_pos rfl]
      rw [available, length_nil] at hlen
      split
      · rename_i hmore
        refine .inr (.inr ⟨_, _, hdone, fun hnil => hmore ?_⟩)
        rw [append_eq_nil_iff] at hnil
        rw [hnil.1, length_nil] at hlen
        omega
      · exact ⟨_, hdone⟩
    · have hpos : line.length ≠ 0 := fun h => hemp (length_eq_zero_iff.mp h)
      rw [if_neg (by omega)]
      rcases hhdr : parseHeader line 0 line.length with prob | header
      · refine .inr (.inl ?_)
        rw [hread, readTrailers_some hall, if_neg hlong, if_neg hemp, hhdr]
        rfl
      simp only
      split_ifs with hfrm
      · refine .inr (.inl ?_)
        rw [hread, readTrailers_some hall, if_neg hlong, if_neg hemp, hhdr]
        simp only [hfrm, ↓reduceIte]
        rfl
      · have hdrop : state.stream.drop (line.length + 2) = _ := drop_zero_cut hall
        generalize hnext : { state with
          trailerBytes := state.trailerBytes + line.length + 2
          cursor := state.cursor + line.length + 2 } = next
        have hnextRead (limit : ℕ) : readFrom limit headerBytes next
            (state.stream.drop (line.length + 2)) =
              readFrom limit headerBytes state state.stream := by
          rw [hread, readTrailers_some hall, if_neg hlong, if_neg hemp, hhdr]
          simp only [hfrm, Bool.false_eq_true, ↓reduceIte]
          rw [hdrop, ← hnext, readFrom, hphase]
        subst hnext
        refine .taken hfit (Nat.succ_pos _) (by omega) rfl rfl rfl hfit.body (fun hdata => ?_)
          (fun hne => absurd hphase hne) (hnextRead _) (.inr (hnextRead _))
        simp only [hphase] at hdata
        cases hdata

theorem chunkedStep_spec (hfit : state.Fit most) :
    RoundSpec most headerBytes state (chunkedStep headerBytes state) := by
  rw [chunkedStep]
  split
  · rename_i hphase
    exact sizeRound_spec hfit hphase
  · rename_i hphase
    exact dataRound_spec hfit hphase
  · rename_i hphase
    exact endingRound_spec hfit hphase
  · rename_i hphase
    exact trailerRound_spec hfit hphase

/-! ## The loop -/

theorem nextRead_ok {conn : Connection} (hcont : conn.continues)
    (expect continued : Bool) {bytes : Bytes} (hbytes : bytes ≠ []) (reads : Transport) :
    nextRead conn expect continued (.ok bytes :: reads) = .ok (bytes, reads) := by
  rw [nextRead, hcont]
  cases bytes with
  | nil => exact absurd rfl hbytes
  | cons b bytes => simp

theorem nextRead_nil {conn : Connection} (hcont : conn.continues)
    (expect continued : Bool) : nextRead conn expect continued [] = .error 400 := by
  rw [nextRead, hcont]
  simp

namespace ChunkState

theorem readFrom_fed (limit : ℕ) (bytes : Bytes) (reads : Transport) (stream : Bytes) :
    readFrom limit headerBytes (state.fed bytes reads) stream =
      readFrom limit headerBytes state stream := rfl

variable {bytes : Bytes} {reads : Transport}

theorem stream_fed (h : state.reads = .ok bytes :: reads) :
    (state.fed bytes reads).stream = state.stream := by
  rw [stream, stream, rest_fed, h, append_assoc]
  rfl

theorem size_fed (h : state.reads = .ok bytes :: reads) :
    (state.fed bytes reads).size + 1 = state.size := by
  have hrest := congrArg length (rest_fed state bytes reads)
  rw [length_append, length_rest, length_rest] at hrest
  rw [size, size, h, hrest, map_cons, sum_cons]
  show state.available + bytes.length + (reads.map answerSize).sum + 1 + 1 =
    state.available + (bytes.length + 1 + (reads.map answerSize).sum) + 1
  omega

theorem Fit.fed (hfit : state.Fit most) (h : state.reads = .ok bytes :: reads)
    (hroom : state.available ≤ 16384) : (state.fed bytes reads).Fit most := by
  refine ⟨fun answer hmem => hfit.reads answer ?_, ?_, hfit.body, hfit.data, hfit.trailers⟩
  · rw [h]
    exact mem_cons_of_mem _ hmem
  obtain ⟨bytes', heq, -, hle⟩ := hfit.reads (.ok bytes) (by rw [h]; exact mem_cons_self)
  cases heq
  rw [← length_rest, rest_fed, length_append, length_rest]
  omega

end ChunkState

variable {conn : Connection} {expect : Bool} {fuel : ℕ}

theorem chunkedLoop_next {next : ChunkState} (h : chunkedStep headerBytes state = .next next) :
    chunkedLoop conn headerBytes expect (fuel + 1) state =
      chunkedLoop conn headerBytes expect fuel next := by
  rw [chunkedLoop, h]

theorem chunkedLoop_fed (hcont : conn.continues)
    (h : chunkedStep headerBytes state = .needMore) {bytes : Bytes} (hbytes : bytes ≠ [])
    {reads : Transport} (hreads : state.reads = .ok bytes :: reads) :
    chunkedLoop conn headerBytes expect (fuel + 1) state =
      chunkedLoop conn headerBytes expect fuel (state.fed bytes reads) := by
  rw [chunkedLoop, h, hreads]
  simp only [nextRead_ok hcont expect state.continued hbytes]
  rfl

/-- The loop comes to what one of the readings gives, if nothing follows the request. -/
theorem chunkedLoop_reading (hcont : conn.continues)
    (hfit : state.Fit most) (hfuel : state.size ≤ fuel)
    (hone : ∀ body rest, readFrom (16382 + most) headerBytes state state.stream = .ok (body, rest) →
      rest = []) : (chunkedLoop conn headerBytes expect fuel state = .error 431 ∧
        readFrom 16383 headerBytes state state.stream = .error 431) ∨
      chunkedLoop conn headerBytes expect fuel state =
        (readFrom (16382 + most) headerBytes state state.stream).map Prod.fst := by
  induction fuel generalizing state with
  | zero =>
    rw [size] at hfuel
    omega
  | succ fuel ih =>
    have hspec := @chunkedStep_spec state most headerBytes hfit
    cases hstep : chunkedStep headerBytes state with
    | failed status =>
      rw [hstep] at hspec
      rw [chunkedLoop, hstep]
      rcases hspec with ⟨rfl, hstrict⟩ | hread | ⟨body, rest, hread, hrest⟩
      · exact .inl ⟨rfl, hstrict⟩
      · right
        rw [hread]
        rfl
      · exact absurd (hone body rest hread) hrest
    | done body =>
      rw [hstep] at hspec
      obtain ⟨rest, hread⟩ := hspec
      right
      rw [chunkedLoop, hstep, hread]
      rfl
    | next next =>
      rw [hstep] at hspec
      obtain ⟨⟨hnext, hsize⟩, -, hlnt, hstrict⟩ := hspec
      rw [chunkedLoop_next hstep]
      rw [← hlnt] at hone
      rcases ih hnext (by omega) hone with ⟨hloop, hread⟩ | hloop
      · refine .inl ⟨hloop, ?_⟩
        rcases hstrict with href | hsame
        · exact href
        · rw [← hsame, hread]
      · right
        rw [hloop, hlnt]
    | needMore =>
      rw [hstep] at hspec
      obtain ⟨hroom, hend⟩ := hspec
      rcases hreads : state.reads with _ | ⟨answer, reads⟩
      · right
        have hstr : state.stream = state.rest := by
          rw [stream, hreads]
          exact append_nil _
        rw [chunkedLoop, hstep, hreads, nextRead_nil hcont, hstr, hend]
        rfl
      obtain ⟨bytes, rfl, hbytes, -⟩ := hfit.reads answer (by rw [hreads]; exact mem_cons_self)
      have hsize := size_fed hreads
      rw [chunkedLoop_fed hcont hstep hbytes hreads, ← stream_fed hreads,
        ← readFrom_fed (16382 + most) bytes reads,
        ← readFrom_fed 16383 bytes reads]
      refine ih (hfit.fed hreads hroom) (by omega) ?_
      rw [stream_fed hreads, readFrom_fed]
      exact hone

end Panackelty.Http
