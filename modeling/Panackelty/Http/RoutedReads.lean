import Panackelty.Http.RoutedBodies
import Panackelty.Http.StreamAgreement

/-!
# Reads that take long lines

The loop of `chunked_body` takes a size line of up to 32766 bytes if it arrives in two reads, the
first of exactly 16384 bytes.  So for every chunked body there are reads under which the loop comes
to what the lenient reading gives (`lenient_of_rest_nil`): its lines arrive like that, its data and
its line ends arrive one after the other, and where the reading does not depend on its limit any
reads will do. -/

namespace Panackelty.Http

open Library List Nat
open ChunkState (length_rest rest_fed)

/-- The reads give the data, in nonempty pieces of at most `most` bytes. -/
structure Pieces (most : ℕ) (data : Bytes) (reads : List Bytes) : Prop extends Cuts data reads where
  bounded : ∀ piece ∈ reads, piece.length ≤ most

namespace Pieces

variable {most : ℕ} {data tail : Bytes} {reads more : List Bytes}

theorem singletons (hmost : 1 ≤ most) (data : Bytes) :
    Pieces most data (data.map fun b => [b]) := by
  refine ⟨⟨fun piece hmem => ?_, ?_⟩, fun piece hmem => ?_⟩
  · obtain ⟨b, -, rfl⟩ := mem_map.mp hmem
    simp
  · rw [← flatMap_def, flatMap_singleton']
  · obtain ⟨b, -, rfl⟩ := mem_map.mp hmem
    exact hmost

theorem one (hdata : data ≠ []) (hmost : data.length ≤ most) : Pieces most data [data] := by
  refine ⟨⟨fun piece hmem => ?_, flatten_singleton⟩, fun piece hmem => ?_⟩
  · rw [mem_singleton.mp hmem]
    exact hdata
  · rw [mem_singleton.mp hmem]
    exact hmost

theorem append (h : Pieces most data reads) (h' : Pieces most tail more) :
    Pieces most (data ++ tail) (reads ++ more) := by
  refine ⟨⟨fun piece hmem => ?_, ?_⟩, fun piece hmem => ?_⟩
  · rcases mem_append.mp hmem with hmem | hmem
    · exact h.nonempty piece hmem
    · exact h'.nonempty piece hmem
  · rw [flatten_append, h.whole, h'.whole]
  · rcases mem_append.mp hmem with hmem | hmem
    · exact h.bounded piece hmem
    · exact h'.bounded piece hmem

theorem mono {least : ℕ} (h : Pieces least data reads) (hle : least ≤ most) :
    Pieces most data reads :=
  ⟨h.toCuts, fun piece hmem => (h.bounded piece hmem).trans hle⟩

end Pieces

namespace ChunkState

/-- The state with these reads to come. -/
def withReads (state : ChunkState) (reads : List Bytes) : ChunkState :=
  { state with reads := reads.map .ok }

variable {state : ChunkState} {most : ℕ}

theorem stream_withReads {data : Bytes} {reads : List Bytes} (h : Cuts data reads) :
    (state.withReads reads).stream = state.rest ++ data := by
  rw [stream, ← h.flatten]
  rfl

theorem Fit.withReads (hfit : (state.withReads []).Fit most) {data : Bytes} {reads : List Bytes}
    (h : Pieces most data reads) : (state.withReads reads).Fit most := by
  refine ⟨fun answer hmem => ?_, hfit.room, hfit.body, hfit.data, hfit.trailers⟩
  obtain ⟨piece, hpiece, rfl⟩ := mem_map.mp hmem
  exact ⟨piece, rfl, h.nonempty piece hpiece, h.bounded piece hpiece⟩

end ChunkState

variable {connection : Connection} {headerBytes : ℕ} {expect : Bool} {state : ChunkState}

/-! ## Runs of the loop -/

/-- With these reads before all others, the loop comes from one state to another. -/
def Leads (connection : Connection) (headerBytes : ℕ) (expect : Bool) (state : ChunkState)
    (pieces : List Bytes) (next : ChunkState) : Prop :=
  ∀ reads fuel, (state.withReads (pieces ++ reads)).size ≤ fuel →
    ∃ late, (next.withReads reads).size ≤ late ∧
      chunkedLoop connection headerBytes expect fuel (state.withReads (pieces ++ reads)) =
        chunkedLoop connection headerBytes expect late (next.withReads reads)

namespace Leads

variable {middle next : ChunkState} {pieces more : List Bytes}

theorem trans (h : Leads connection headerBytes expect state pieces middle)
    (h' : Leads connection headerBytes expect middle more next) :
    Leads connection headerBytes expect state (pieces ++ more) next := by
  intro reads fuel hfuel
  rw [append_assoc] at hfuel ⊢
  obtain ⟨middleFuel, hmid, heq⟩ := h (more ++ reads) fuel hfuel
  obtain ⟨late, hlate, heq'⟩ := h' reads middleFuel hmid
  exact ⟨late, hlate, heq.trans heq'⟩

theorem fed (hcont : connection.continues) {bytes : Bytes} (hbytes : bytes ≠ [])
    (hstep : ∀ reads, chunkedStep headerBytes (state.withReads reads) = .needMore) :
    Leads connection headerBytes expect state [bytes] (state.fed bytes []) := by
  intro reads fuel hfuel
  have hsize := @ChunkState.size_fed (state.withReads ([bytes] ++ reads)) bytes (reads.map .ok) rfl
  obtain ⟨fuel, rfl⟩ : ∃ n, fuel = n + 1 := exists_eq_succ_of_ne_zero (by omega)
  refine ⟨fuel, ?_, chunkedLoop_fed hcont (hstep _) hbytes rfl⟩
  show ((state.withReads ([bytes] ++ reads)).fed bytes (reads.map .ok)).size ≤ fuel
  omega

theorem used (hstep : ∀ reads, chunkedStep headerBytes (state.withReads reads) =
      .next (next.withReads reads)) (hless : next.available < state.available) :
    Leads connection headerBytes expect state [] next := by
  intro reads fuel hfuel
  have hsize : (next.withReads reads).size < (state.withReads reads).size := by
    show next.available + ((reads.map Except.ok).map Reader.answerSize).sum + 1 <
      state.available + ((reads.map Except.ok).map Reader.answerSize).sum + 1
    omega
  rw [nil_append] at hfuel ⊢
  obtain ⟨fuel, rfl⟩ : ∃ n, fuel = n + 1 := exists_eq_succ_of_ne_zero (by omega)
  exact ⟨fuel, by omega, chunkedLoop_next (hstep reads)⟩

end Leads

/-- Some reads of the data bring the loop to what the lenient reading gives. -/
def Lenient (connection : Connection) (headerBytes : ℕ) (expect : Bool) (state : ChunkState)
    (data : Bytes) : Prop :=
  ∃ reads, Pieces 16384 data reads ∧ ∀ fuel, (state.withReads reads).size ≤ fuel →
    chunkedLoop connection headerBytes expect fuel (state.withReads reads) =
      (readFrom 32766 headerBytes state (state.rest ++ data)).map Prod.fst

theorem Lenient.of_leads {next : ChunkState} {pieces : List Bytes} {text data : Bytes}
    (hleads : Leads connection headerBytes expect state pieces next)
    (hpcs : Pieces 16384 text pieces) (hread : readFrom 32766 headerBytes next (next.rest ++ data) =
      readFrom 32766 headerBytes state (state.rest ++ (text ++ data)))
    (h : Lenient connection headerBytes expect next data) :
    Lenient connection headerBytes expect state (text ++ data) := by
  obtain ⟨reads, hreads, hloop⟩ := h
  refine ⟨pieces ++ reads, hpcs.append hreads, fun fuel hfuel => ?_⟩
  obtain ⟨late, hlate, heq⟩ := hleads reads fuel hfuel
  rw [heq, hloop late hlate, hread]

/-- Where the strict reading is not stricter, single bytes will do. -/
theorem lenient_of_strict (hcont : connection.continues)
    (hfit : (state.withReads []).Fit 16384) {data : Bytes}
    (hone : ∀ body rest, readFrom 32766 headerBytes state (state.rest ++ data) = .ok (body, rest) →
      rest = []) (hstrict : readFrom 16383 headerBytes state (state.rest ++ data) = .error 431 →
      readFrom 32766 headerBytes state (state.rest ++ data) = .error 431) :
    Lenient connection headerBytes expect state data := by
  have hpcs := @Pieces.singletons 16384 (by omega) data
  refine ⟨_, hpcs, fun fuel hfuel => ?_⟩
  have hstr := @ChunkState.stream_withReads state data _ hpcs.toCuts
  have hread (limit : ℕ) (reads : List Bytes) (stream : Bytes) :
      readFrom limit headerBytes (state.withReads reads) stream =
        readFrom limit headerBytes state stream := rfl
  have hloop := @chunkedLoop_reading _ 16384 headerBytes connection expect fuel hcont
    (hfit.withReads hpcs) hfuel
  rw [hstr, hread, hread] at hloop
  rcases hloop hone with ⟨href, hread⟩ | hloop
  · rw [href, hstrict hread]
    rfl
  · exact hloop

/-! ## Long lines -/

theorem sizeRound_more (hcut : cut crlf state.rest = none) (hroom : state.available ≤ 16384) :
    sizeRound state = .needMore := by
  rw [sizeRound, findCrlf_rest, ← ChunkState.rest, hcut]
  simp only [Option.map_none]
  rw [if_neg (by omega)]

theorem chunkedStep_of_rest_nil (hrest : state.rest = []) (hphase : state.phase ≠ .trailers)
    (reads : List Bytes) : chunkedStep headerBytes (state.withReads reads) = .needMore := by
  have havl : (state.withReads reads).available = 0 := by
    rw [← length_rest]
    exact congrArg length hrest
  rw [chunkedStep]
  split
  · refine sizeRound_more ?_ (by omega)
    show cut crlf state.rest = none
    rw [hrest, cut_nil]
  · have hcnt : (if 0 < (state.withReads reads).remaining then 0
        else (state.withReads reads).remaining) = 0 := by split <;> omega
    rw [dataRound, havl]
    simp only [hcnt, ↓reduceIte]
  · rw [endingRound, havl]
    rfl
  · rename_i htrl
    exact absurd htrl hphase

/-- The state with these bytes at hand. -/
def ChunkState.holding (state : ChunkState) (text : Bytes) : ChunkState :=
  { state with reads := [], buffer := text, cursor := 0, continued := true }

theorem fed_of_rest_nil (hrest : state.rest = []) (bytes : Bytes) :
    state.fed bytes [] = state.holding bytes := by
  rw [ChunkState.fed, copyBytes_length, ← ChunkState.rest, hrest]
  rfl

theorem leads_holding (hcont : connection.continues) (hphase : state.phase ≠ .trailers)
    (hrest : state.rest = []) {bytes : Bytes} (hbytes : bytes ≠ []) :
    Leads connection headerBytes expect state [bytes] (state.holding bytes) := by
  rw [← fed_of_rest_nil hrest]
  exact .fed hcont hbytes (chunkedStep_of_rest_nil hrest hphase)

/-- A first part of up to 16384 bytes without a line end, and a second one. -/
theorem leads_parts (hcont : connection.continues) (hphase : state.phase = .size)
    (hrest : state.rest = []) {first second : Bytes} (hfirst : first ≠ []) (hsec : second ≠ [])
    (hcut : cut crlf first = none) (hroom : first.length ≤ 16384) :
    Leads connection headerBytes expect state ([first] ++ [second])
      (state.holding (first ++ second)) := by
  have hmore : ∀ reads, chunkedStep headerBytes ((state.holding first).withReads reads) =
      .needMore := by
    intro reads
    have hround := @sizeRound_more ((state.holding first).withReads reads) hcut
      (by rw [← length_rest]; exact hroom)
    rw [chunkedStep]
    simp only [show ((state.holding first).withReads reads).phase = .size from hphase, hround]
  have hwhole : (state.holding first).fed second [] = state.holding (first ++ second) := by
    rw [ChunkState.fed, copyBytes_length]
    rfl
  rw [← hwhole]
  exact (leads_holding hcont (by rw [hphase]; decide) hrest hfirst).trans (.fed hcont hsec hmore)

/-- A line of up to 32766 bytes comes to stand in the buffer as a whole. -/
theorem leads_line (hcont : connection.continues) (hphase : state.phase = .size)
    (hrest : state.rest = []) {line : Bytes} (hcut : cut crlf (line ++ crlf) = some (line, []))
    (hline : line.length ≤ 32766) : ∃ pieces, Pieces 16384 (line ++ crlf) pieces ∧
      Leads connection headerBytes expect state pieces (state.holding (line ++ crlf)) := by
  have hlen : (line ++ crlf).length = line.length + 2 := by rw [length_append]; rfl
  generalize htext : line ++ crlf = text at *
  by_cases hshort : text.length ≤ 16384
  · have hne : text ≠ [] := fun h => by rw [h] at hlen; cases hlen
    exact ⟨[text], .one hne hshort, leads_holding hcont (by rw [hphase]; decide) hrest hne⟩
  have hfirst : (text.take 16384).length = 16384 := by
    rw [length_take]
    omega
  have hsec : (text.drop 16384).length = text.length - 16384 := length_drop
  have hne : text.take 16384 ≠ [] := fun h => by rw [h] at hfirst; cases hfirst
  have hne' : text.drop 16384 ≠ [] := fun h => by rw [h, length_nil] at hsec; omega
  have hnone : cut crlf (text.take 16384) = none := by
    rcases hfound : cut crlf (text.take 16384) with _ | ⟨line', rest'⟩
    · rfl
    have hwhole := cut_append hfound (text.drop 16384)
    rw [take_append_drop, hcut] at hwhole
    simp only [Option.some.injEq, Prod.mk.injEq] at hwhole
    exact absurd (append_eq_nil_iff.mp hwhole.2.symm).2 hne'
  have hpcs := (Pieces.one hne (show _ ≤ 16384 by omega)).append
    (Pieces.one hne' (show _ ≤ 16384 by omega))
  have hleads := @leads_parts connection headerBytes expect state hcont hphase hrest _ _ hne
    hne' hnone hfirst.le
  rw [take_append_drop] at hpcs hleads
  exact ⟨_, hpcs, hleads⟩

theorem chunkedStep_line (hphase : state.phase = .size) (hbody : state.body.length ≤ 1048576)
    {line : Bytes} (hcut : cut crlf (line ++ crlf) = some (line, [])) (reads : List Bytes) :
    chunkedStep headerBytes ((state.holding (line ++ crlf)).withReads reads) =
      match parseChunkSize line 0 line.length (1048576 - state.body.length) with
      | .error prob => .failed (errorStatus prob)
      | .ok size =>
        .next (ChunkState.withReads { state.holding (line ++ crlf) with
          remaining := size
          cursor := 0 + line.length + 2
          phase := if size = 0 then .trailers else .data } reads) := by
  rw [chunkedStep]
  simp only [show ((state.holding (line ++ crlf)).withReads reads).phase = .size from hphase]
  exact @sizeRound_of_cut ((state.holding (line ++ crlf)).withReads reads) line [] hbody hcut

/-! ## Whole bodies -/

theorem Lenient.of_failed {status : ℕ} {data : Bytes}
    (hstep : ∀ reads, chunkedStep headerBytes (state.withReads reads) = .failed status)
    (hread : readFrom 32766 headerBytes state (state.rest ++ data) = .error status) :
    Lenient connection headerBytes expect state data := by
  refine ⟨_, Pieces.singletons (by omega) data, fun fuel hfuel => ?_⟩
  obtain ⟨fuel, rfl⟩ : ∃ n, fuel = n + 1 :=
    exists_eq_succ_of_ne_zero fun h => by rw [h, ChunkState.size] at hfuel; omega
  rw [chunkedLoop, hstep, hread]
  rfl

/-- A round that uses bytes of the buffer, whatever is still to come. -/
theorem Lenient.of_next {next : ChunkState} {data : Bytes} (hfit : (state.withReads []).Fit 16384)
    (hstep : ∀ reads, chunkedStep headerBytes (state.withReads reads) =
      .next (next.withReads reads))
    (h : (next.withReads []).Fit 16384 → readFrom 32766 headerBytes next (next.rest ++ data) =
        readFrom 32766 headerBytes state (state.rest ++ data) →
      Lenient connection headerBytes expect next data) :
    Lenient connection headerBytes expect state data := by
  have hpcs := @Pieces.singletons 16384 (by omega) data
  have hspec := @chunkedStep_spec _ 16384 headerBytes (hfit.withReads hpcs)
  rw [hstep] at hspec
  obtain ⟨⟨hnext, hsize⟩, -, hread, -⟩ := hspec
  rw [ChunkState.stream_withReads hpcs.toCuts, ChunkState.stream_withReads hpcs.toCuts] at hread
  have hless : next.available < state.available := by
    exact lt_of_add_lt_add_right (lt_of_add_lt_add_right hsize)
  refine .of_leads (.used hstep hless) (Pieces.singletons (by omega) []) hread (h ?_ hread)
  exact ⟨fun _ hmem => (by cases hmem), hnext.room, hnext.body, hnext.data, hnext.trailers⟩

theorem fit_holding (hfit : (state.withReads []).Fit 16384) {text : Bytes}
    (htext : text.length ≤ 32768) : ((state.holding text).withReads []).Fit 16384 :=
  ⟨fun _ hmem => (by cases hmem), (length_rest _).symm.trans_le htext, hfit.body, hfit.data,
    hfit.trailers⟩

theorem readFrom_holding (hrest : state.rest = []) (limit : ℕ) (text data : Bytes) :
    readFrom limit headerBytes (state.holding text) ((state.holding text).rest ++ data) =
      readFrom limit headerBytes state (state.rest ++ (text ++ data)) := by
  rw [hrest]
  rfl

theorem chunkedStep_data {b : UInt8} (hphase : state.phase = .data) (hpos : 0 < state.remaining)
    (hroom : state.body.length < 1048576) (reads : List Bytes) :
    chunkedStep headerBytes ((state.holding [b]).withReads reads) =
      .next (ChunkState.withReads { state.holding [b] with
        body := state.body ++ [b]
        cursor := 1
        remaining := state.remaining - 1
        phase := if state.remaining - 1 = 0 then .ending else .data } reads) := by
  have hcnt : (if ((state.holding [b]).withReads reads).available <
      ((state.holding [b]).withReads reads).remaining then
        ((state.holding [b]).withReads reads).available
      else ((state.holding [b]).withReads reads).remaining) = 1 := by
    show (if 1 < state.remaining then 1 else state.remaining) = 1
    split <;> omega
  have happ : bodyAppend ((state.holding [b]).withReads reads).body
      (copyBytes ((state.holding [b]).withReads reads).buffer
        ((state.holding [b]).withReads reads).cursor
        (((state.holding [b]).withReads reads).cursor + 1)) = some (state.body ++ [b]) := by
    show bodyAppend state.body [b] = _
    rw [bodyAppend, if_neg (by rw [length_singleton]; omega)]
  rw [chunkedStep]
  simp only [show ((state.holding [b]).withReads reads).phase = .data from hphase]
  rw [dataRound]
  simp only [hcnt, happ]
  rfl

theorem chunkedStep_ending {a b : UInt8} (hphase : state.phase = .ending) (reads : List Bytes) :
    chunkedStep headerBytes ((state.holding [a, b]).withReads reads) =
      if !isCrlf [a, b] 0 then .failed 400
      else .next (ChunkState.withReads
        { state.holding [a, b] with cursor := 2, phase := .size } reads) := by
  rw [chunkedStep]
  simp only [show ((state.holding [a, b]).withReads reads).phase = .ending from hphase]
  rfl

/-- Less data than this has lenient reads. -/
def LenientBelow (connection : Connection) (headerBytes : ℕ) (expect : Bool) (bound : ℕ) : Prop :=
  ∀ (state : ChunkState) (data : Bytes), data.length < bound → (state.withReads []).Fit 16384 →
    state.rest = [] →
    (∀ body rest, readFrom 32766 headerBytes state (state.rest ++ data) = .ok (body, rest) →
      rest = []) →
    Lenient connection headerBytes expect state data

section Phases

variable {data : Bytes} (hcont : connection.continues)
  (hfit : (state.withReads []).Fit 16384) (hrest : state.rest = [])
  (hone : ∀ body rest, readFrom 32766 headerBytes state (state.rest ++ data) = .ok (body, rest) →
    rest = [])
  (hbelow : LenientBelow connection headerBytes expect data.length)
include hcont hfit hrest hone hbelow

theorem lenient_size (hphase : state.phase = .size) :
    Lenient connection headerBytes expect state data := by
  rcases hcut : cut crlf data with _ | ⟨line, rest⟩
  · refine lenient_of_strict hcont hfit hone fun hstr => ?_
    rw [readFrom, hphase, hrest, nil_append] at hstr ⊢
    simp only [readChunks_none hcut] at hstr ⊢
    exact hstr
  by_cases hline : line.length > 32766
  · refine lenient_of_strict hcont hfit hone fun _ => ?_
    rw [readFrom, hphase, hrest, nil_append]
    simp only [readChunks_some hcut, if_pos hline]
  obtain rfl : data = line ++ crlf ++ rest := by rw [append_assoc, ← eq_of_cut hcut]
  have hlen := length_of_cut_crlf hcut
  have htext : (line ++ crlf).length = line.length + 2 := by rw [length_append]; rfl
  have hown : cut crlf (line ++ crlf) = some (line, []) := cut_of_cut (by simp) hcut
  obtain ⟨pieces, hpcs, hleads⟩ := @leads_line connection headerBytes expect state
    hcont hphase hrest line hown (by omega)
  have hround := @chunkedStep_line headerBytes state hphase hfit.body line hown
  refine .of_leads hleads hpcs (readFrom_holding hrest _ _ _) ?_
  rw [← readFrom_holding hrest] at hone
  rcases hsize : parseChunkSize line 0 line.length (1048576 - state.body.length) with prob | size
  · refine @Lenient.of_failed _ _ _ _ (errorStatus prob) _ (fun reads => ?_) ?_
    · rw [hround, hsize]
    · rw [readFrom_holding hrest, hrest, nil_append, readFrom, hphase]
      simp only [readChunks_some hcut, if_neg hline, hsize]
  refine @Lenient.of_next _ _ _ _ { state.holding (line ++ crlf) with
      remaining := size
      cursor := 0 + line.length + 2
      phase := if size = 0 then .trailers else .data } _
    (fit_holding hfit (by omega)) (fun reads => ?_) (fun hnext hread => ?_)
  · rw [hround, hsize]
  · rw [← hread] at hone
    refine hbelow _ rest (by omega) hnext ?_ hone
    show (line ++ crlf).drop (0 + line.length + 2) = []
    rw [drop_eq_nil_iff]
    omega

theorem lenient_data (hphase : state.phase = .data) :
    Lenient connection headerBytes expect state data := by
  rcases data with _ | ⟨b, data⟩
  · refine lenient_of_strict hcont hfit hone fun hstr => ?_
    rw [hrest, readFrom, hphase, append_nil] at hstr
    simp only [readData, drop_nil] at hstr
    cases hstr
  obtain ⟨hpos, hroom⟩ : state.remaining ≠ 0 ∧
    state.body.length + state.remaining ≤ 1048576 := hfit.data hphase
  have hleads := @leads_holding connection headerBytes expect state hcont
    (by rw [hphase]; decide) hrest [b] (by simp)
  refine @Lenient.of_leads connection headerBytes expect state _ _ [b] data hleads
    (.one (by simp) (by simp)) (readFrom_holding hrest _ _ _) ?_
  rw [← singleton_append, ← readFrom_holding hrest] at hone
  refine @Lenient.of_next _ _ _ _ { state.holding [b] with
      body := state.body ++ [b]
      cursor := 1
      remaining := state.remaining - 1
      phase := if state.remaining - 1 = 0 then .ending else .data } _
    (fit_holding hfit (by simp)) (fun reads => ?_) (fun hnext hread => ?_)
  · exact chunkedStep_data hphase (by omega) (by omega) reads
  · rw [← hread] at hone
    exact hbelow _ data (lt_succ_self _) hnext rfl hone

theorem lenient_ending (hphase : state.phase = .ending) :
    Lenient connection headerBytes expect state data := by
  by_cases hshort : data.length < 2
  · refine lenient_of_strict hcont hfit hone fun hstr => ?_
    rw [hrest, nil_append, readFrom, hphase] at hstr
    simp only [readData_short hshort] at hstr
    cases hstr
  obtain ⟨a, tail, rfl⟩ := exists_cons_of_length_pos (show 0 < data.length by omega)
  rw [length_cons] at hshort
  obtain ⟨b, tail, rfl⟩ := exists_cons_of_length_pos (show 0 < tail.length by omega)
  have hleads := @leads_holding connection headerBytes expect state hcont
    (by rw [hphase]; decide) hrest [a, b] (by simp)
  refine @Lenient.of_leads connection headerBytes expect state _ _ [a, b] tail hleads
    (.one (by simp) (by simp)) (readFrom_holding hrest _ _ _) ?_
  rw [show a :: b :: tail = [a, b] ++ tail from rfl, ← readFrom_holding hrest] at hone
  cases hcrlf : isCrlf [a, b] 0 with
  | false =>
    refine @Lenient.of_failed _ _ _ _ 400 _ (fun reads => ?_) ?_
    · rw [chunkedStep_ending hphase, hcrlf]
      rfl
    rw [readFrom_holding hrest, hrest, nil_append, readFrom, hphase]
    simp only
    rw [readData, drop_zero, if_neg]
    intro hpre
    have hbytes := isPrefixOf_iff_prefix.mp hpre
    rw [cons_append, cons_append, cons_prefix_cons, cons_prefix_cons] at hbytes
    obtain ⟨rfl, rfl, -⟩ := hbytes
    cases hcrlf
  | true =>
    refine @Lenient.of_next _ _ _ _ { state.holding [a, b] with cursor := 2, phase := .size } _
      (fit_holding hfit (by simp)) (fun reads => ?_) (fun hnext hread => ?_)
    · rw [chunkedStep_ending hphase, hcrlf]
      rfl
    · rw [← hread] at hone
      exact hbelow _ tail (by rw [length_cons, length_cons]; omega) hnext rfl hone

end Phases

/-- Some reads bring the loop to what the lenient reading gives, if nothing follows the request. -/
theorem lenient_of_rest_nil (hcont : connection.continues)
    (hfit : (state.withReads []).Fit 16384) (hrest : state.rest = []) {data : Bytes}
    (hone : ∀ body rest, readFrom 32766 headerBytes state (state.rest ++ data) = .ok (body, rest) →
      rest = []) : Lenient connection headerBytes expect state data := by
  have hall : ∀ bound, LenientBelow connection headerBytes expect bound := by
    intro bound
    induction bound with
    | zero => exact fun state data hlt => absurd hlt (not_lt_zero _)
    | succ bound ih =>
      intro state data hlt hfit hrest hone
      have hbelow : LenientBelow connection headerBytes expect data.length :=
        fun state' data' hlt' => ih state' data' (by omega)
      cases hphase : state.phase with
      | size => exact lenient_size hcont hfit hrest hone hbelow hphase
      | data => exact lenient_data hcont hfit hrest hone hbelow hphase
      | ending => exact lenient_ending hcont hfit hrest hone hbelow hphase
      | trailers =>
        -- the trailers have one limit, whatever the reads
        refine lenient_of_strict hcont hfit hone fun hstr => ?_
        rw [readFrom, hphase] at hstr ⊢
        exact hstr
  exact hall (data.length + 1) state data (lt_succ_self _) hfit hrest hone

end Panackelty.Http
