import Panackelty.Http.Parser
import Panackelty.Library.Cut

/-!
# Where the parser looks

The parser decides on a prefix of its buffer: a line is what stands before the first line end, and
no decision about a line looks past it.  So every decision stays as it is when the buffer grows,
unless the parser asked for more.

* `findCrlf_eq_cut`, `findHeaderEndFrom_eq_cut`: the searches as cuts of the buffer.
* `headerLines_append`, `requestHead_append`: heads in a longer buffer.
* `trailerLines_append`, `chunkLoop_append`: chunked bodies in a longer buffer.
-/

namespace Panackelty.Http

open Library List Option

variable {w t : Bytes} {cur fuel headerBytes headerEnd i limit start stop : ℕ}

/-! ## Bytes and windows -/

theorem byteAt_drop (data : Bytes) (i k : ℕ) : byteAt (data.drop i) k = byteAt data (i + k) := by
  rw [byteAt, byteAt, getD_eq_getElem?_getD, getD_eq_getElem?_getD, getElem?_drop]

theorem byteAt_append (t : Bytes) (h : i < w.length) : byteAt (w ++ t) i = byteAt w i := by
  rw [byteAt, byteAt, getD_eq_getElem?_getD, getD_eq_getElem?_getD, getElem?_append_left h]

theorem byteAt_take (data : Bytes) (h : i < limit) :
    byteAt (data.take limit) i = byteAt data i := by
  rw [byteAt, byteAt, getD_eq_getElem?_getD, getD_eq_getElem?_getD, getElem?_take_of_lt h]

theorem copyBytes_append (t : Bytes) (h : stop ≤ w.length) :
    copyBytes (w ++ t) start stop = copyBytes w start stop := by
  rw [copyBytes, copyBytes, take_append_of_le_length h]

theorem copyBytes_length (data : Bytes) (start : ℕ) :
    copyBytes data start data.length = data.drop start := by
  rw [copyBytes, take_length]

/-- The bytes of a line end. -/
abbrev crlf : Bytes := [13, 10]

/-- The bytes of the line end and the empty line that end a head. -/
abbrev headEnd : Bytes := [13, 10, 13, 10]

section Lengths

variable {s l r : Bytes} {n : ℕ}

theorem length_of_cut_crlf (h : cut crlf s = some (l, r)) :
    s.length = l.length + 2 + r.length := length_of_cut h

theorem length_of_cut_headEnd (h : cut headEnd s = some (l, r)) :
    s.length = l.length + 4 + r.length := length_of_cut h

theorem length_drop_of_cut_crlf (h : cut crlf (s.drop n) = some (l, r)) :
    s.length - n = l.length + 2 + r.length := by
  rw [← length_drop, length_of_cut_crlf h]

theorem length_drop_of_cut_headEnd (h : cut headEnd (s.drop n) = some (l, r)) :
    s.length - n = l.length + 4 + r.length := by
  rw [← length_drop, length_of_cut_headEnd h]

end Lengths

theorem isCrlf_iff (data : Bytes) (i : ℕ) : isCrlf data i = true ↔ crlf <+: data.drop i := by
  have hfirst : byteAt data i = byteAt (data.drop i) 0 := by rw [byteAt_drop, Nat.add_zero]
  have hsec : byteAt data (i + 1) = byteAt (data.drop i) 1 := by rw [byteAt_drop]
  rw [isCrlf, hfirst, hsec, Bool.and_eq_true, beq_iff_eq, beq_iff_eq]
  generalize data.drop i = s
  match s with
  | [] | [b] => simp [byteAt]
  | b :: c :: s =>
    simp only [byteAt, getD_cons_zero, getD_cons_succ, cons_prefix_cons, nil_prefix, and_true]
    rw [← UInt8.toNat_inj, ← UInt8.toNat_inj, eq_comm, @eq_comm _ c.toNat]
    exact Iff.rfl

theorem isCrlf_take (data : Bytes) (h : i + 1 < limit) :
    isCrlf (data.take limit) i = isCrlf data i := by
  rw [isCrlf, isCrlf, byteAt_take data (by omega), byteAt_take data h]

theorem isCrlf_append (t : Bytes) (h : i + 1 < w.length) : isCrlf (w ++ t) i = isCrlf w i := by
  rw [isCrlf, isCrlf, byteAt_append t (by omega), byteAt_append t h]

theorem findCrlf_eq_cut (data : Bytes) (start limit : ℕ) : findCrlf data start limit =
      (cut crlf (copyBytes data start limit)).map fun p => start + p.1.length := by
  refine find?_range'_eq_cut (by simp) _ start _ (fun i hle hlt => ?_) ?_
  · rw [← isCrlf_iff, isCrlf_take data (by omega)]
  rw [length_take]
  simp only [length_cons, length_nil]
  omega

theorem isCrlf_two_iff (data : Bytes) (i : ℕ) :
    (isCrlf data i && isCrlf data (i + 2)) = true ↔ headEnd <+: data.drop i := by
  rw [Bool.and_eq_true, isCrlf_iff, isCrlf_iff, ← drop_drop]
  constructor
  · rintro ⟨⟨s, hs⟩, hnext⟩
    rw [← hs] at hnext ⊢
    obtain ⟨u, hu⟩ := hnext
    rw [show drop 2 (crlf ++ s) = s from rfl] at hu
    exact ⟨u, by rw [← hu]; rfl⟩
  · rintro ⟨s, hs⟩
    rw [← hs]
    exact ⟨⟨13 :: 10 :: s, rfl⟩, s, rfl⟩

theorem findHeaderEndFrom_eq_cut (data : Bytes) (start : ℕ) : findHeaderEndFrom data start =
      (cut headEnd (data.drop start)).map fun p => start + p.1.length := by
  refine find?_range'_eq_cut (by simp) _ start _ (fun i _ _ => isCrlf_two_iff data i) ?_
  simp only [length_cons, length_nil]
  omega

theorem findCrlf_append (t : Bytes) (h : limit ≤ w.length) :
    findCrlf (w ++ t) start limit = findCrlf w start limit := by
  rw [findCrlf_eq_cut, findCrlf_eq_cut, copyBytes_append t h]

/-- A line end stands at or after the start, and before the limit. -/
theorem findCrlf_bounds {data : Bytes} (h : findCrlf data start limit = some stop) :
    start ≤ stop ∧ stop + 2 ≤ limit ∧ stop + 2 ≤ data.length := by
  rw [findCrlf_eq_cut] at h
  obtain ⟨⟨l, r⟩, hcut, rfl⟩ := map_eq_some_iff.mp h
  have hlen := length_of_cut hcut
  rw [copyBytes, length_drop, length_take] at hlen
  simp only [length_cons, length_nil] at hlen
  show start ≤ start + l.length ∧ start + l.length + 2 ≤ limit ∧ start + l.length + 2 ≤ data.length
  omega

/-- A line that ends in the buffer ends at the same place in a longer one. -/
theorem findCrlf_length_append (t : Bytes) (h : findCrlf w cur w.length = some stop) :
    findCrlf (w ++ t) cur (w ++ t).length = some stop := by
  have hbnd := findCrlf_bounds h
  rw [findCrlf_eq_cut, copyBytes_length] at h ⊢
  obtain ⟨⟨l, r⟩, hcut, rfl⟩ := map_eq_some_iff.mp h
  rw [drop_append_of_le_length (by omega), cut_append hcut]
  rfl

theorem findHeaderEnd_bound (h : findHeaderEnd w = some headerEnd) : headerEnd + 4 ≤ w.length := by
  rw [findHeaderEnd, findHeaderEndFrom_eq_cut, drop_zero] at h
  obtain ⟨⟨l, r⟩, hcut, rfl⟩ := map_eq_some_iff.mp h
  have hlen := length_of_cut_headEnd hcut
  show 0 + l.length + 4 ≤ w.length
  omega

theorem findHeaderEnd_append (t : Bytes) (h : findHeaderEnd w = some headerEnd) :
    findHeaderEnd (w ++ t) = some headerEnd := by
  rw [findHeaderEnd, findHeaderEndFrom_eq_cut, drop_zero] at h ⊢
  obtain ⟨⟨l, r⟩, hcut, rfl⟩ := map_eq_some_iff.mp h
  rw [cut_append hcut]
  rfl

theorem length_lt_of_findHeaderEnd_append (h : findHeaderEnd w = none)
    (h' : findHeaderEnd (w ++ t) = some headerEnd) : w.length < headerEnd + 4 := by
  rw [findHeaderEnd, findHeaderEndFrom_eq_cut, drop_zero] at h h'
  obtain ⟨⟨l, r⟩, hcut, rfl⟩ := map_eq_some_iff.mp h'
  have hlt := length_lt_of_cut_append (by simp) (map_eq_none_iff.mp h) hcut
  simp only [length_cons, length_nil] at hlt
  show w.length < 0 + l.length + 4
  omega

/-! ## Heads -/

theorem parseHeader_append (t : Bytes) (h : stop ≤ w.length) :
    parseHeader (w ++ t) start stop = parseHeader w start stop := by
  rw [parseHeader, parseHeader, copyBytes_append t h]

theorem headerLines_append {σ : Type} (field : σ → Header → Except HttpError σ) (t : Bytes)
    (h : headerEnd + 2 ≤ w.length) (fuel cur : ℕ) (fields : σ) :
    headerLines field (w ++ t) headerEnd fuel cur fields =
      headerLines field w headerEnd fuel cur fields := by
  induction fuel generalizing cur fields with
  | zero => rfl
  | succ fuel ih =>
    rw [headerLines, headerLines, findCrlf_append t h]
    split
    · cases hfind : findCrlf w cur (headerEnd + 2) with
      | none => rfl
      | some stop =>
        have hbnd := findCrlf_bounds hfind
        simp only [parseHeader_append t (show stop ≤ w.length by omega), ih]
    · rfl

theorem parseRequestLine_append (t : Bytes) (h : stop ≤ w.length) :
    parseRequestLine (w ++ t) stop = parseRequestLine w stop := by
  rw [parseRequestLine, parseRequestLine, copyBytes_append t h]

theorem requestHead_append (t : Bytes) (h : headerEnd + 2 ≤ w.length) (bodyLimit : ℕ) :
    requestHead (w ++ t) headerEnd bodyLimit = requestHead w headerEnd bodyLimit := by
  rw [requestHead, requestHead, findCrlf_append t h]
  cases hfind : findCrlf w 0 (headerEnd + 2) with
  | none => rfl
  | some stop =>
    have hbnd := findCrlf_bounds hfind
    simp [parseRequestLine_append t (show stop ≤ w.length by omega),
      headerLines_append (requestField bodyLimit) t h]

variable {bodyLimit : ℕ}

theorem bodyStart_of_requestHead {head : RequestHead}
    (h : requestHead w headerEnd bodyLimit = .ok head) : head.bodyStart = headerEnd + 4 := by
  unfold requestHead at h
  split at h
  · cases h
  split at h
  · cases h
  split at h
  · cases h
  split_ifs at h
  cases h
  rfl

theorem responseHead_append (t : Bytes) (h : headerEnd + 2 ≤ w.length) (off bodyLimit : ℕ) :
    responseHead (w ++ t) off headerEnd bodyLimit = responseHead w off headerEnd bodyLimit := by
  rw [responseHead, responseHead, findCrlf_append t h]
  cases hfind : findCrlf w off (headerEnd + 2) with
  | none => rfl
  | some stop =>
    have hbnd := findCrlf_bounds hfind
    have hstat : parseResponseStatus (w ++ t) off stop = parseResponseStatus w off stop := by
      rw [parseResponseStatus, parseResponseStatus, copyBytes_append t (by omega)]
    simp only [hstat, headerLines_append (responseField bodyLimit) t h]

/-! ## Chunked bodies -/

/-- A size within one limit is the same size within every limit that it meets. -/
theorem parseChunkSize_remaining {data : Bytes} {left size : ℕ}
    (h : parseChunkSize data start stop left = .ok size) :
    size ≤ left ∧ ∀ limit, size ≤ limit → parseChunkSize data start stop limit = .ok size := by
  unfold parseChunkSize at h ⊢
  simp only at h ⊢
  split_ifs at h with hshape
  rcases hhex : hexSize ((copyBytes data start stop).takeWhile fun b => b != 59) with _ | value
  · rw [hhex] at h; cases h
  rw [hhex] at h
  simp only at h ⊢
  split_ifs at h with hle
  cases h
  refine ⟨Nat.le_of_not_lt hle, fun limit hlim => ?_⟩
  rw [if_neg hshape, if_neg (Nat.not_lt_of_le hlim)]

theorem parseChunkSize_append (t : Bytes) (h : stop ≤ w.length) (remaining : ℕ) :
    parseChunkSize (w ++ t) start stop remaining = parseChunkSize w start stop remaining := by
  rw [parseChunkSize, parseChunkSize, copyBytes_append t h]

/-- The loop over the trailers asks for more bytes, or has decided. -/
theorem trailerLines_append (t : Bytes) (headerBytes : ℕ) {fuel late cur : ℕ}
    (hcur : cur ≤ w.length) (hfuel : w.length < fuel + cur)
    (hlate : (w ++ t).length < late + cur) (trailerBytes : ℕ) :
    trailerLines w headerBytes fuel cur trailerBytes = .ok none ∨
      trailerLines (w ++ t) headerBytes late cur trailerBytes =
        trailerLines w headerBytes fuel cur trailerBytes := by
  induction fuel generalizing late cur trailerBytes with
  | zero => omega
  | succ fuel ih =>
    rw [length_append] at hlate
    obtain ⟨late, rfl⟩ : ∃ n, late = n + 1 := Nat.exists_eq_succ_of_ne_zero (by omega)
    rw [trailerLines, trailerLines]
    rcases hfind : findCrlf w cur w.length with _ | stop
    · exact .inl rfl
    have hbnd := findCrlf_bounds hfind
    simp only [findCrlf_length_append t hfind, parseHeader_append t (show stop ≤ w.length by omega)]
    split
    · exact .inr rfl
    split
    · exact .inr rfl
    split
    · exact .inr rfl
    split
    · exact .inr rfl
    · exact ih (by omega) (by omega) (by rw [length_append]; omega) _

theorem trailerLines_le {trailer next : ℕ}
    (h : trailerLines w headerBytes fuel cur trailer = .ok (some next)) : next ≤ w.length := by
  induction fuel generalizing cur trailer with
  | zero => cases h
  | succ fuel ih =>
    rw [trailerLines] at h
    split at h
    · cases h
    rename_i stop hfind
    have hbnd := findCrlf_bounds hfind
    simp only at h
    split at h
    · cases h
    split at h
    · cases h
      omega
    split at h
    · cases h
    split at h
    · cases h
    · exact ih h

theorem trailerLines_bound {trailer next : ℕ}
    (h : trailerLines w headerBytes fuel cur trailer = .ok (some next)) :
    cur ≤ next ∧ headerBytes + trailer + (next - cur) ≤ httpHeaderLimit := by
  induction fuel generalizing cur trailer with
  | zero => cases h
  | succ fuel ih =>
    rw [trailerLines] at h
    split at h
    · cases h
    rename_i stop hfind
    have hbnd := findCrlf_bounds hfind
    simp only at h
    split at h
    · cases h
    split at h
    · cases h
      omega
    split at h
    · cases h
    split at h
    · cases h
    · have hrest := ih h
      omega

theorem parseTrailers_append (t : Bytes) (eof : Bool) (headerBytes : ℕ)
    (hstart : start ≤ w.length) :
    parseTrailers w start false headerBytes = .ok none ∨
      parseTrailers (w ++ t) start eof headerBytes = parseTrailers w start false headerBytes := by
  have hlines := trailerLines_append t headerBytes hstart
      (show w.length < w.length + 1 + start by omega)
    (show (w ++ t).length < (w ++ t).length + 1 + start by omega) 0
  rw [parseTrailers, parseTrailers]
  rcases hlines with hnone | hsame
  · rw [hnone]
    exact .inl rfl
  rw [hsame]
  split
  · exact .inr rfl
  · exact .inl rfl
  · exact .inr rfl

theorem chunkLoop_append (t : Bytes) (eof : Bool) (bodyLimit headerBytes : ℕ) {late : ℕ}
    (hcur : cur ≤ w.length) (hfuel : w.length < fuel + cur)
    (hlate : (w ++ t).length < late + cur) (body : Bytes) :
    chunkLoop w false bodyLimit headerBytes fuel cur body = .ok none ∨
      chunkLoop (w ++ t) eof bodyLimit headerBytes late cur body =
        chunkLoop w false bodyLimit headerBytes fuel cur body := by
  induction fuel generalizing late cur body with
  | zero => omega
  | succ fuel ih =>
    rw [length_append] at hlate
    obtain ⟨late, rfl⟩ : ∃ n, late = n + 1 := Nat.exists_eq_succ_of_ne_zero (by omega)
    rw [chunkLoop, chunkLoop]
    rcases hfind : findCrlf w cur w.length with _ | lineEnd
    · exact .inl rfl
    have hbnd := findCrlf_bounds hfind
    simp only [findCrlf_length_append t hfind,
      parseChunkSize_append t (show lineEnd ≤ w.length by omega)]
    rcases parseChunkSize w cur lineEnd bodyLimit with error | size
    · exact .inr rfl
    by_cases hsize : size = 0
    · simp only [hsize, ↓reduceIte]
      rcases parseTrailers_append t eof headerBytes (show lineEnd + 2 ≤ w.length by omega) with
        hnone | hsame
      · rw [hnone]
        exact .inl rfl
      · rw [hsame]
        exact .inr rfl
    · simp only [hsize, ↓reduceIte]
      split
      · exact .inr rfl
      by_cases hneed : w.length < lineEnd + 2 + size + 2
      · rw [if_pos hneed]
        exact .inl rfl
      have hroom : ¬ (w ++ t).length < lineEnd + 2 + size + 2 := by
        rw [length_append]
        omega
      rw [if_neg hneed, if_neg hroom, isCrlf_append t (by omega), copyBytes_append t (by omega)]
      split
      · exact .inr rfl
      · exact ih (by omega) (by omega) (by rw [length_append]; omega) _

theorem chunkLoop_eof {body : Bytes} {chunked : ChunkedBody}
    (h : chunkLoop w true bodyLimit headerBytes fuel cur body = .ok (some chunked)) :
    chunkLoop w false bodyLimit headerBytes fuel cur body = .ok (some chunked) := by
  induction fuel generalizing cur body with
  | zero => cases h
  | succ fuel ih =>
    rw [chunkLoop] at h ⊢
    rcases hfind : findCrlf w cur w.length with _ | lineEnd
    · rw [hfind] at h; cases h
    simp only [hfind] at h ⊢
    rcases hsize : parseChunkSize w cur lineEnd bodyLimit with error | size
    · rw [hsize] at h; cases h
    simp only [hsize] at h ⊢
    split
    · rename_i hzero
      rw [if_pos hzero] at h
      rw [parseTrailers] at h ⊢
      cases hlines : trailerLines w headerBytes (w.length + 1) (lineEnd + 2) 0 with
      | error error => rw [hlines] at h; cases h
      | ok next =>
        cases next with
        | none => simp [hlines] at h
        | some next => simpa only [hlines] using h
    · rename_i hzero
      rw [if_neg hzero] at h
      split
      · rename_i hlim
        rw [if_pos hlim] at h
        cases h
      rename_i hlim
      rw [if_neg hlim] at h
      split
      · rename_i hneed
        rw [if_pos hneed] at h
        cases h
      rename_i hneed
      rw [if_neg hneed] at h
      split
      · rename_i hcrlf
        rw [if_pos hcrlf] at h
        cases h
      · rename_i hcrlf
        rw [if_neg hcrlf] at h
        exact ih h

theorem chunkLoop_le {eof : Bool} {body : Bytes} {chunked : ChunkedBody}
    (h : chunkLoop w eof bodyLimit headerBytes fuel cur body = .ok (some chunked)) :
    chunked.next ≤ w.length := by
  induction fuel generalizing cur body with
  | zero => cases h
  | succ fuel ih =>
    rw [chunkLoop] at h
    split at h
    · cases h
    split at h
    · cases h
    simp only at h
    split at h
    · split at h
      · cases h
      · cases h
      rename_i next htrl
      cases h
      rw [parseTrailers] at htrl
      split at htrl
      · cases htrl
      · split at htrl <;> cases htrl
      rename_i hlines
      cases htrl
      exact trailerLines_le hlines
    · split at h
      · cases h
      split at h
      · cases h
      split at h
      · cases h
      · exact ih h

end Panackelty.Http
