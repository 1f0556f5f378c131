import Panackelty.Http.Messages
import Panackelty.Http.Stream

/-!
# What the streaming client reads

A reader stands for the bytes it has and will get, `Reader.stream`.  Reading more does not change
them, so each operation of the client is an operation on these bytes, however the transport cuts
them.  There is one exception: a line of 8192 bytes is refused where a read ends between the two
bytes of its line end.

* `Steady`: the transport gives nonempty pieces, then the end.
* `Steady.more`: one read.
* `line_of_cut`, `cut_of_line`: lines.
* `copyLoop_steady`, `copyLoop_short`: a number of bytes.
* `expectEnd_iff`, `foldTrailers_iff`, `foldRest_iff`: the ends of the three kinds of bodies.
-/

namespace Panackelty.Http

open Library List

/-- The bytes of an answer. -/
def answerBytes : Except Str Bytes → Bytes
  | .ok chunk => chunk
  | .error _ => []

namespace Reader

/-- The bytes at hand and the bytes that will be read. -/
def stream (reader : Reader) : Bytes :=
  reader.buffer ++ (reader.transport.map answerBytes).flatten

/-- The transport gives nonempty pieces, then the end. -/
structure Steady (reader : Reader) : Prop where
  pieces : ∀ answer ∈ reader.transport, ∃ chunk, answer = .ok chunk ∧ chunk ≠ []
  ended : reader.eof = true → reader.transport = []

variable {r : Reader}

theorem Steady.stream_of_eof (h : r.Steady) (heof : r.eof) : r.stream = r.buffer := by
  rw [stream, h.ended heof, map_nil, flatten_nil, append_nil]

theorem buffer_prefix (r : Reader) : r.buffer <+: r.stream := List.prefix_append _ _

theorem stream_drop {n : ℕ} (hn : n ≤ r.buffer.length) :
    stream { r with buffer := r.buffer.drop n } = r.stream.drop n := by
  rw [stream, stream, drop_append_of_le_length hn]

theorem Steady.drop (h : r.Steady) (n : ℕ) : Steady { r with buffer := r.buffer.drop n } :=
  ⟨h.pieces, h.ended⟩

theorem size_pos (r : Reader) : 0 < r.size := by
  unfold size
  split <;> omega

theorem size_drop {n : ℕ} (hn : n ≤ r.buffer.length) :
    size { r with buffer := r.buffer.drop n } + n = r.size := by
  simp only [size, length_drop]
  omega

theorem Steady.more (h : r.Steady) (heof : r.eof = false) :
    ∃ next, Http.more r = .ok next ∧ next.Steady ∧ next.stream = r.stream ∧ next.size < r.size ∧
      (next.eof = true → next.buffer = r.buffer) ∧
      next.transport.length ≤ r.transport.length - 1 := by
  obtain ⟨transport, buf, eof⟩ := r
  subst heof
  rcases transport with _ | ⟨answer, rest⟩
  · refine ⟨⟨[], buf, true⟩, rfl, ⟨fun _ hm => (by cases hm), fun _ => rfl⟩, rfl, ?_,
      fun _ => rfl, Nat.zero_le _⟩
    simp only [size]
    simp
  obtain ⟨chunk, rfl, hne⟩ := h.pieces answer mem_cons_self
  have hemp : chunk.isEmpty = false := by
    cases chunk with
    | nil => exact absurd rfl hne
    | cons b chunk => rfl
  refine ⟨⟨rest, buf ++ chunk, chunk.isEmpty⟩, rfl, ⟨fun a ha => ?_, fun he => ?_⟩, ?_, ?_, ?_,
    le_rfl⟩
  · exact h.pieces a (mem_cons_of_mem _ ha)
  · cases hemp.symm.trans he
  · simp [stream, answerBytes]
  · simp only [size, map_cons, sum_cons, length_append, hemp, answerSize]
    omega
  · intro he
    cases hemp.symm.trans he

end Reader

open Reader

variable {r : Reader}

/-! ## Lines -/

theorem findCrlf_buffer (buf : Bytes) :
    findCrlf buf 0 buf.length = (cut crlf buf).map fun p => p.1.length := by
  rw [findCrlf_rest, drop_zero]
  simp

theorem copyBytes_zero_cut {buf text rest : Bytes} (h : cut crlf buf = some (text, rest)) :
    copyBytes buf 0 text.length = text := by
  rw [copyBytes, eq_of_cut h, take_left, drop_zero]

theorem drop_zero_cut {sep buf text rest : Bytes} (h : cut sep buf = some (text, rest)) :
    buf.drop (text.length + sep.length) = rest := by
  rw [eq_of_cut h, ← append_assoc, ← length_append, drop_left]

theorem cut_of_line {fuel : ℕ} (hr : r.Steady) {found : Line} (h : lineLoop fuel r = .ok found) :
    cut crlf r.stream = some (found.text, found.reader.stream) ∧ found.text.length ≤ 8192 ∧
      found.reader.Steady ∧ found.reader.size < r.size := by
  induction fuel generalizing r with
  | zero => cases h
  | succ fuel ih =>
    rw [lineLoop, findCrlf_buffer] at h
    cases hcut : cut crlf r.buffer with
    | some parts =>
      obtain ⟨text, rest⟩ := parts
      have hlen := length_of_cut_crlf hcut
      simp only [hcut, Option.map_some] at h
      split_ifs at h with hlim
      rw [copyBytes_length, copyBytes_zero_cut hcut] at h
      cases h
      refine ⟨?_, Nat.le_of_not_lt hlim, hr.drop _, ?_⟩
      · have happ := cut_append hcut (r.transport.map answerBytes).flatten
        have hrest := drop_zero_cut hcut
        simp only [length_cons, length_nil] at hrest
        rw [stream, happ, stream, hrest]
      · have hsize := @size_drop r (text.length + 2) (by omega)
        show size { r with buffer := r.buffer.drop (text.length + 2) } < r.size
        omega
    | none =>
      simp only [hcut, Option.map_none] at h
      split at h
      · cases h
      cases heof : r.eof with
      | true => simp [heof] at h
      | false =>
        obtain ⟨next, hmore, hstdy, hstr, hsize, -, -⟩ := hr.more heof
        simp only [heof, Bool.false_eq_true, ↓reduceIte, hmore] at h
        obtain ⟨hline, hlim, hfound, hlt⟩ := ih hstdy h
        exact ⟨by rw [← hstr, hline], hlim, hfound, by omega⟩

/-- The line is taken, however it is cut: it has less than 8192 bytes, or has no more and is at
hand. -/
def Taken (r : Reader) (text : Bytes) : Prop :=
  text.length < 8192 ∨ text.length = 8192 ∧ r.transport = []

theorem Taken.le {text : Bytes} (h : Taken r text) : text.length ≤ 8192 := by
  rcases h with h | h <;> omega

theorem Taken.of_transport {next : Reader} {text : Bytes} (h : Taken r text)
    (hnext : next.transport.length ≤ r.transport.length) : Taken next text := by
  refine h.imp_right fun hlong => ⟨hlong.1, ?_⟩
  rw [hlong.2, length_nil] at hnext
  exact length_eq_zero_iff.mp (Nat.le_zero.mp hnext)

theorem line_of_cut {fuel : ℕ} (hr : r.Steady) (hfuel : r.size ≤ fuel) {text rest : Bytes}
    (hcut : cut crlf r.stream = some (text, rest)) (hlim : Taken r text) :
    ∃ next : Reader, lineLoop fuel r = .ok ⟨next, text⟩ ∧ next.Steady ∧ next.stream = rest ∧
      next.size < r.size ∧ next.transport.length ≤ r.transport.length := by
  induction fuel generalizing r with
  | zero => exact absurd hfuel (Nat.not_le_of_lt r.size_pos)
  | succ fuel ih =>
    rw [lineLoop, findCrlf_buffer]
    cases hbuf : cut crlf r.buffer with
    | some parts =>
      obtain ⟨text', rest'⟩ := parts
      have hsame := cut_append hbuf (r.transport.map answerBytes).flatten
      have hboth := hsame.symm.trans hcut
      cases hboth
      have hlen := length_of_cut_crlf hbuf
      have hdrop := drop_zero_cut hbuf
      simp only [length_cons, length_nil] at hdrop
      have hle := hlim.le
      refine ⟨{ r with buffer := r.buffer.drop (text.length + 2) }, ?_, hr.drop _, ?_, ?_, le_rfl⟩
      · simp only [Option.map_some]
        rw [if_neg (by omega), copyBytes_length, copyBytes_zero_cut hbuf]
      · rw [stream]
        rw [hdrop]
      · have hsize := @size_drop r (text.length + 2) (by omega)
        omega
    | none =>
      have hlt : r.buffer.length < text.length + 2 := length_lt_of_cut_append (by simp) hbuf hcut
      cases heof : r.eof with
      | true =>
        rw [hr.stream_of_eof heof, hbuf] at hcut
        cases hcut
      | false =>
        obtain ⟨next, hmore, hstdy, hstr, hsize, -, htrans⟩ := hr.more heof
        obtain ⟨found, hline, hfound, hrest, hless, hfewer⟩ :=
          ih hstdy (by omega) (hstr ▸ hcut) (hlim.of_transport (by omega))
        refine ⟨found, ?_, hfound, hrest, by omega, by omega⟩
        -- where all is at hand, the line would be in the buffer
        have hshort : text.length < 8192 := by
          refine hlim.resolve_right fun hlong => ?_
          rw [stream, hlong.2, map_nil, flatten_nil, append_nil, hbuf] at hcut
          cases hcut
        simp only [Option.map_none, Bool.false_eq_true, ↓reduceIte, hmore]
        rw [if_neg (by omega), hline]

/-! ## Bytes -/

section Copy

variable {E : Type} (mapError : HttpError → E) {count fuel copied : ℕ} {state : Bytes}

/-- The callback that puts the pieces together. -/
abbrev collect : Bytes → Bytes → Except E Bytes := fun body piece => .ok (body ++ piece)

theorem copyLoop_steady (hr : r.Steady) (hfuel : r.size ≤ fuel)
    (hroom : count - copied ≤ r.stream.length) (hcopied : copied ≤ count) :
    ∃ next : Reader, copyLoop collect mapError count fuel r copied state =
        .ok ⟨next, count, state ++ r.stream.take (count - copied)⟩ ∧
      next.Steady ∧ next.stream = r.stream.drop (count - copied) ∧ next.size ≤ r.size ∧
      next.transport.length ≤ r.transport.length := by
  induction fuel generalizing r copied state with
  | zero => exact absurd hfuel (Nat.not_le_of_lt r.size_pos)
  | succ fuel ih =>
    rw [copyLoop]
    by_cases hdone : copied < count
    · rw [if_pos hdone]
      by_cases hemp : r.buffer.length = 0
      · rw [if_pos hemp]
        cases heof : r.eof with
        | true =>
          rw [hr.stream_of_eof heof] at hroom
          omega
        | false =>
          obtain ⟨next, hmore, hstdy, hstr, hsize, -, htrans⟩ := hr.more heof
          obtain ⟨last, hcopy, hlast, hrest, hless, hfewer⟩ :=
            @ih next copied state hstdy (by omega) (by rw [hstr]; exact hroom) hcopied
          simp only [Bool.false_eq_true, ↓reduceIte, hmore]
          refine ⟨last, ?_, hlast, ?_, by omega, by omega⟩
          · rw [hcopy, hstr]
          · rw [hrest, hstr]
      · rw [if_neg hemp]
        simp only
        have hamount : (if r.buffer.length < count - copied then r.buffer.length
            else count - copied) = min r.buffer.length (count - copied) := by
          split <;> omega
        rw [hamount]
        generalize hn : min r.buffer.length (count - copied) = n
        have hnle : n ≤ r.buffer.length := by omega
        have hpiece : copyBytes r.buffer 0 n = r.stream.take n := by
          rw [copyBytes, drop_zero, stream, take_append_of_le_length hnle]
        have hsize := @size_drop r n hnle
        rw [copyBytes_length, hpiece]
        obtain ⟨last, hcopy, hlast, hrest, hless, hfewer⟩ :=
          @ih { r with buffer := r.buffer.drop n } (copied + n) (state ++ r.stream.take n)
            (hr.drop n) (by omega) (by rw [stream_drop hnle, length_drop]; omega) (by omega)
        refine ⟨last, ?_, hlast, ?_, by omega, hfewer⟩
        · have htake : state ++ r.stream.take n ++ (r.stream.drop n).take (count - (copied + n)) =
              state ++ r.stream.take (count - copied) := by
            rw [append_assoc, ← take_add]
            congr 2
            omega
          rw [hcopy, stream_drop hnle, htake]
        · rw [hrest, stream_drop hnle, drop_drop]
          congr 1
          omega
    · have hcnt : copied = count := by omega
      subst hcnt
      rw [if_neg hdone]
      refine ⟨r, ?_, hr, ?_, le_rfl, le_rfl⟩
      · rw [Nat.sub_self, take_zero, append_nil]
      · rw [Nat.sub_self, drop_zero]

theorem copyLoop_short (hr : r.Steady) (hshort : r.stream.length < count - copied) :
    ∃ error, copyLoop collect mapError count fuel r copied state = .error error := by
  induction fuel generalizing r copied state with
  | zero => exact ⟨_, rfl⟩
  | succ fuel ih =>
    rw [copyLoop, if_pos (by omega)]
    by_cases hemp : r.buffer.length = 0
    · rw [if_pos hemp]
      cases heof : r.eof with
      | true => exact ⟨_, rfl⟩
      | false =>
        obtain ⟨next, hmore, hstdy, hstr, -⟩ := hr.more heof
        simp only [Bool.false_eq_true, ↓reduceIte, hmore]
        exact ih hstdy (by rw [hstr]; exact hshort)
    · rw [if_neg hemp]
      have hbuf : r.buffer.length ≤ r.stream.length := r.buffer_prefix.length_le
      simp only
      rw [if_pos (by omega), copyBytes_length]
      refine ih (hr.drop _) ?_
      rw [stream_drop le_rfl, length_drop]
      omega

end Copy

/-! ## Ends -/

theorem expectEnd_iff (hr : r.Steady) : expectEnd r = .ok () ↔ r.stream = [] := by
  rw [expectEnd]
  by_cases hemp : r.buffer.length = 0
  · rw [if_neg (not_not.mpr hemp)]
    have hbuf : r.buffer = [] := length_eq_zero_iff.mp hemp
    cases heof : r.eof with
    | true =>
      have hmore : more r = .ok r := by rw [more, if_pos heof]
      simp [hmore, heof, hr.stream_of_eof heof, hbuf]
    | false =>
      obtain ⟨transport, buf, eof⟩ := r
      subst hbuf heof
      cases transport with
      | nil => simp [more, stream]
      | cons answer rest =>
        obtain ⟨chunk, rfl, hne⟩ := hr.pieces answer mem_cons_self
        simp [more, stream, answerBytes, hne]
  · rw [if_pos hemp]
    constructor
    · intro h
      cases h
    intro h
    have hle := r.buffer_prefix.length_le
    rw [h, length_nil] at hle
    omega

theorem foldTrailers_iff {hdr fuel : ℕ} (hr : r.Steady) (hfuel : r.size ≤ fuel) :
    foldTrailers hdr fuel r = .ok () ↔ Trailers hdr r.stream := by
  induction fuel generalizing r with
  | zero => exact absurd hfuel (Nat.not_le_of_lt r.size_pos)
  | succ fuel ih =>
    have happ := @trailerLines_append r.buffer (r.transport.map answerBytes).flatten hdr
      (r.buffer.length + 1) (r.stream.length + 1) 0 (Nat.zero_le _) (by omega)
      (Nat.lt_succ_self _) 0
    have hle := r.buffer_prefix.length_le
    rw [Trailers, foldTrailers, parseTrailers]
    rcases hlines : trailerLines r.buffer hdr (r.buffer.length + 1) 0 0 with error | found
    · have hsame := happ.resolve_left (by rw [hlines]; exact fun h => by cases h)
      rw [hlines] at hsame
      rw [show trailerLines r.stream hdr (r.stream.length + 1) 0 0 = _ from hsame]
      simp
    cases found with
    | some next =>
      have hsame := happ.resolve_left (by rw [hlines]; exact fun h => by cases h)
      rw [hlines] at hsame
      have hnext := trailerLines_le hlines
      rw [show trailerLines r.stream hdr (r.stream.length + 1) 0 0 = _ from hsame]
      simp only [copyBytes_length]
      rw [expectEnd_iff (hr.drop next), stream_drop hnext, drop_eq_nil_iff, Except.ok.injEq,
        Option.some.injEq]
      omega
    | none =>
      cases heof : r.eof with
      | true =>
        rw [hr.stream_of_eof heof, hlines]
        simp
      | false =>
        by_cases hlim : hdr + r.buffer.length > 65536
        · rw [if_pos hlim]
          refine ⟨(fun h => by cases h), fun h => ?_⟩
          have hbound := (trailerLines_bound h).2
          rw [httpHeaderLimit] at hbound
          omega
        · obtain ⟨next, hmore, hstdy, hstr, hsize, -, -⟩ := hr.more heof
          rw [if_neg hlim, hmore, ← hstr]
          exact ih hstdy (by omega)

section Rest

variable {E : Type} (mapError : HttpError → E)

theorem copyPieces_buffer (r : Reader) (state : Bytes) :
    copyPieces collect mapError r r.buffer.length state =
      .ok ⟨{ r with buffer := [] }, r.buffer.length, state ++ r.buffer⟩ := by
  have hsize : r.buffer.length + 1 ≤ r.size := by
    unfold size
    split <;> omega
  obtain ⟨fuel, hfuel⟩ : ∃ n, r.size = n + 1 := Nat.exists_eq_succ_of_ne_zero (by omega)
  rw [copyPieces, hfuel, copyLoop]
  by_cases hemp : r.buffer.length = 0
  · have hbuf : r.buffer = [] := length_eq_zero_iff.mp hemp
    obtain ⟨transport, buffer, eof⟩ := r
    subst hbuf
    simp
  · obtain ⟨fuel, rfl⟩ : ∃ n, fuel = n + 1 := Nat.exists_eq_succ_of_ne_zero (by omega)
    rw [if_pos (Nat.pos_of_ne_zero hemp), if_neg hemp]
    simp only [Nat.sub_zero, lt_irrefl, ↓reduceIte]
    rw [copyBytes_length, copyBytes_length, copyLoop, drop_length, drop_zero, Nat.zero_add,
      if_neg (lt_irrefl _)]

/-- A body that the end of the transport ends is all that is left. -/
theorem foldRest_iff {bodyLimit fuel total : ℕ} {state out : Bytes} (hr : r.Steady)
    (hfuel : r.size ≤ fuel) (htotal : total ≤ bodyLimit) (hend : r.eof = true → r.buffer = []) :
    foldRest collect mapError bodyLimit fuel r total state = .ok out ↔
      total + r.stream.length ≤ bodyLimit ∧ out = state ++ r.stream := by
  induction fuel generalizing r total state with
  | zero => exact absurd hfuel (Nat.not_le_of_lt r.size_pos)
  | succ fuel ih =>
    rw [foldRest]
    cases heof : r.eof with
    | true =>
      rw [hr.stream_of_eof heof, hend heof]
      simp [htotal, eq_comm]
    | false =>
      have hle := r.buffer_prefix.length_le
      simp only [Bool.false_eq_true, ↓reduceIte]
      split_ifs with hlim
      · refine ⟨(fun h => by cases h), fun h => ?_⟩
        omega
      rw [copyPieces_buffer]
      simp only
      have hemp : Steady { r with buffer := [] } := ⟨hr.pieces, hr.ended⟩
      obtain ⟨next, hmore, hstdy, hstr, hsize, hlast, -⟩ := hemp.more heof
      have hless : size { r with buffer := [] } ≤ r.size := by
        simp only [size, length_nil]
        omega
      have hwhole : r.stream = r.buffer ++ next.stream := by
        rw [hstr]
        rfl
      rw [hmore]
      rw [@ih next (total + r.buffer.length) (state ++ r.buffer) hstdy (by omega) (by omega)
        hlast, hwhole, length_append, append_assoc, Nat.add_assoc]

end Rest

/-! ## Chunks and heads -/

section Chunks

variable {E : Type} (mapError : HttpError → E) {bodyLimit : ℕ}

theorem chunks_of_foldChunks {fuel total : ℕ} {state out : Bytes} {last : Reader} (hr : r.Steady)
    (htotal : total ≤ bodyLimit)
    (h : foldChunks collect mapError bodyLimit fuel r total state = .ok (last, out)) :
    last.Steady ∧ ∃ lines body, Chunks bodyLimit total r.stream lines body last.stream ∧
      out = state ++ body ∧ ∀ text ∈ lines, text.length ≤ 8192 := by
  induction fuel generalizing r total state with
  | zero => cases h
  | succ fuel ih =>
    rw [foldChunks] at h
    rcases hline : line r with error | found
    · rw [hline] at h; cases h
    obtain ⟨hcut, hlong, hfound, -⟩ := cut_of_line hr hline
    simp only [hline] at h
    rcases hprs : parseChunkSize found.text 0 found.text.length (bodyLimit - total)
        with error | size
    · rw [hprs] at h; cases h
    obtain ⟨hsize, hall⟩ := parseChunkSize_remaining hprs
    have hlim := hall bodyLimit (by omega)
    simp only [hprs] at h
    by_cases hzero : size = 0
    · subst hzero
      cases h
      refine ⟨hfound, [found.text], [], .last hcut hlim, (append_nil _).symm, ?_⟩
      intro text hmem
      rw [mem_singleton.mp hmem]
      exact hlong
    · rw [if_neg hzero] at h
      by_cases hroom : size ≤ found.reader.stream.length
      · obtain ⟨next, hcopy, hnext, hrest, -, -⟩ := @copyLoop_steady found.reader E mapError size
          found.reader.size 0 state hfound le_rfl (by omega) (Nat.zero_le _)
        rw [copyPieces, hcopy] at h
        simp only at h
        rcases hending : line next with error | ending
        · rw [hending] at h; cases h
        obtain ⟨hcut', -, hending', -⟩ := cut_of_line hnext hending
        simp only [hending] at h
        split_ifs at h with hemp
        have htext : ending.text = [] := length_eq_zero_iff.mp (not_not.mp hemp)
        rw [htext, hrest] at hcut'
        have hpre := eq_of_cut hcut'
        rw [nil_append, Nat.sub_zero] at hpre
        obtain ⟨hlast, lines, body, hchunks, hout, hlines⟩ := ih hending' (by omega) h
        have hstr : ending.reader.stream = found.reader.stream.drop (size + 2) := by
          rw [← drop_drop, hpre]
          rfl
        rw [hstr] at hchunks
        refine ⟨hlast, found.text :: lines, found.reader.stream.take size ++ body,
          .chunk hcut hlim hzero (by omega) ⟨_, hpre.symm⟩ hchunks, ?_, ?_⟩
        · rw [hout, Nat.sub_zero, append_assoc]
        · intro text hmem
          rcases mem_cons.mp hmem with rfl | hmem
          · exact hlong
          · exact hlines text hmem
      · obtain ⟨error, hcopy⟩ := @copyLoop_short found.reader E mapError size found.reader.size 0
          state hfound (by omega)
        rw [copyPieces, hcopy] at h
        cases h

/-- Chunks with short size lines are read by the loop over the chunks. -/
theorem foldChunks_of_chunks {fuel total : ℕ} {stream body rest state : Bytes}
    {lines : List Bytes} (h : Chunks bodyLimit total stream lines body rest) (hr : r.Steady)
    (hstr : r.stream = stream) (hfuel : r.size ≤ fuel) (htotal : total ≤ bodyLimit)
    (hlines : ∀ text ∈ lines, Taken r text) :
    ∃ last : Reader, foldChunks collect mapError bodyLimit fuel r total state =
        .ok (last, state ++ body) ∧ last.Steady ∧ last.stream = rest := by
  induction h generalizing fuel r state with
  | @last total stream text rest hcut hsize =>
    subst hstr
    obtain ⟨fuel, rfl⟩ : ∃ n, fuel = n + 1 :=
      Nat.exists_eq_succ_of_ne_zero (by have := r.size_pos; omega)
    obtain ⟨next, hline, hnext, hrest, -, -⟩ := line_of_cut hr le_rfl hcut (hlines text (by simp))
    refine ⟨next, ?_, hnext, hrest⟩
    rw [foldChunks, line, hline]
    simp [(parseChunkSize_remaining hsize).2 _ (Nat.zero_le _), ↓reduceIte]
  | @chunk total size stream text tail body rest lines hcut hsize hpos hlim hcrlf hrest ih =>
    subst hstr
    obtain ⟨fuel, rfl⟩ : ∃ n, fuel = n + 1 :=
      Nat.exists_eq_succ_of_ne_zero (by have := r.size_pos; omega)
    obtain ⟨found, hline, hfound, htail, hless, hfewer⟩ :=
      line_of_cut hr le_rfl hcut (hlines text (by simp))
    have hroom : size + 2 ≤ tail.length := by
      have hle := hcrlf.length_le
      rw [length_drop] at hle
      simp only [length_cons, length_nil] at hle
      omega
    obtain ⟨copied, hcopy, hstdy, hdrop, hsmall, hfewer'⟩ := @copyLoop_steady found E mapError size
      found.size 0 state hfound le_rfl (by rw [htail]; omega) (Nat.zero_le _)
    rw [htail, Nat.sub_zero] at hdrop hcopy
    have hemp : cut crlf copied.stream = some ([], tail.drop (size + 2)) := by
      rw [hdrop, cut_here (by simp) hcrlf, drop_drop]
      rfl
    obtain ⟨ending, hend, hending, hnext, hsmaller, hfewest⟩ :=
      line_of_cut hstdy le_rfl hemp (.inl (by simp))
    obtain ⟨last, hfold, hlast, hdone⟩ := @ih ending fuel (state ++ tail.take size) hending hnext
      (by omega) (by omega) fun text hmem =>
        (hlines text (mem_cons_of_mem _ hmem)).of_transport (by omega)
    refine ⟨last, ?_, hlast, hdone⟩
    rw [foldChunks, line, hline]
    simp only [(parseChunkSize_remaining hsize).2 (bodyLimit - total) (by omega), hpos, ↓reduceIte]
    rw [copyPieces, hcopy]
    simp only
    rw [line, hend]
    simp only [length_nil, ne_eq, not_true_eq_false, ↓reduceIte]
    rw [hfold, append_assoc]

end Chunks

end Panackelty.Http
